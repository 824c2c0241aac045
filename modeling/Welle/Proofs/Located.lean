import Mathlib.Data.List.Flatten
import Mathlib.Data.List.Nodup
import Mathlib.Data.List.Pairwise
import Mathlib.Data.List.Perm.Subperm
import Welle.Proofs.Idents
import Welle.Proofs.Parser.Statement
import Welle.Proofs.Words

set_option autoImplicit false

/-! # Where the identifiers of a tree stand

The identifiers of what is read are words of the tokens that it is read from, and no word is used
twice. So no two identifiers of a program stand at the same place, and each one stands where its
position says. -/

namespace Welle

namespace Grammar

/-! ## Identifiers of lists -/

theorem flatMap_expr (es : List Expr) :
    (es.map Item.expr).flatMap Item.idents = Expr.listIdents es := by
  induction es with
  | nil => simp [Expr.listIdents]
  | cons e es ih => simpa [Expr.listIdents, Item.idents] using ih

theorem flatMap_arg (es : List Expr) :
    (es.map Item.arg).flatMap Item.idents = Expr.listIdents es := by
  induction es with
  | nil => simp [Expr.listIdents]
  | cons e es ih => simpa [Expr.listIdents, Item.idents] using ih

theorem flatMap_entry (entries : List DictEntry) :
    (entries.map Item.entry).flatMap Item.idents = DictEntry.listIdents entries := by
  induction entries with
  | nil => simp [DictEntry.listIdents]
  | cons e es ih => simpa [DictEntry.listIdents, Item.idents] using ih

theorem flatMap_name (ids : List Ident) : (ids.map Item.name).flatMap Item.idents = ids := by
  induction ids with
  | nil => rfl
  | cons id ids ih => simpa [Item.idents] using ih

theorem flatMap_imported (items : List ImportItem) :
    (items.map Item.imported).flatMap Item.idents = items.flatMap ImportItem.idents := by
  induction items with
  | nil => rfl
  | cons item items ih => simpa [Item.idents] using ih

theorem flatMap_target (targets : List Target) :
    (targets.map Item.target).flatMap Item.idents = targets.filterMap Target.ident? := by
  induction targets with
  | nil => rfl
  | cons t targets ih => cases t <;> simp [Item.idents, Target.ident?, List.filterMap_cons, ih]

theorem idents_toStmt (start : Position) (e : Expr) : (Parser.toStmt start e).idents = e.idents := by
  unfold Parser.toStmt
  split <;> simp [Stmt.idents, Expr.idents]

theorem listIdents_matchArms (arms : List MatchArm) :
    MatchArm.listIdents arms = arms.flatMap MatchArm.idents := by
  induction arms with
  | nil => simp [MatchArm.listIdents]
  | cons arm arms ih => simp [MatchArm.listIdents, ih]

theorem listIdents_switchCases (cases : List SwitchCase) :
    SwitchCase.listIdents cases = cases.flatMap SwitchCase.idents := by
  induction cases with
  | nil => simp [SwitchCase.listIdents]
  | cons c cs ih => simp [SwitchCase.listIdents, ih]

theorem optionIdents_expr (e : Option Expr) :
    Expr.optionIdents e = e.toList.flatMap Expr.idents := by
  cases e <;> simp [Expr.optionIdents]

theorem optionIdents_block (body : Option Block) :
    Block.optionIdents body = body.toList.flatMap Block.idents := by
  cases body <;> simp [Block.optionIdents]

theorem count_flatMap_sublist {α γ : Type} [BEq γ] (f : α → List γ) (a : γ) {xs ys : List α}
    (h : xs.Sublist ys) : (xs.flatMap f).count a ≤ (ys.flatMap f).count a :=
  (h.flatMap f).count_le a

/-- The cases and the last default are part of what was found. -/
theorem count_arms {α β γ : Type} [BEq γ] (f : α → List γ) (g : β → List γ) (a : γ)
    (found : List (α ⊕ β)) :
    ((found.filterMap Sum.getLeft?).flatMap f).count a
      + (((found.filterMap Sum.getRight?).getLast?.toList).flatMap g).count a
      ≤ (found.flatMap (Sum.elim f g)).count a := by
  have hlast : (found.filterMap Sum.getRight?).getLast?.toList.Sublist
      (found.filterMap Sum.getRight?) := by
    cases h : (found.filterMap Sum.getRight?).getLast? with
    | none => exact List.nil_sublist _
    | some b => exact List.singleton_sublist.2 (List.mem_of_getLast? h)
  have hall : ((found.filterMap Sum.getLeft?).flatMap f).count a
      + ((found.filterMap Sum.getRight?).flatMap g).count a
      = (found.flatMap (Sum.elim f g)).count a := by
    clear hlast
    induction found with
    | nil => rfl
    | cons x xs ih =>
      cases x <;> simp only [List.filterMap_cons, Sum.getLeft?, Sum.getRight?, List.flatMap_cons,
        Sum.elim_inl, Sum.elim_inr, List.count_append] <;> omega
  have := count_flatMap_sublist g a hlast
  omega

theorem count_head (a : Ident) (others : List Ident) :
    (others.head?.toList).count a ≤ others.count a := by
  cases others <;> simp [List.count_cons]

/-! ## Identifiers are words -/

/-- The words that a phrase takes from elsewhere than its tokens: those of interpolations. -/
def Phrase.innerWords : Phrase → List Ident
  | holes segments _ => segments.flatMap Token.segmentWords
  | _ => []

theorem words_of_ident {t : Token} (h : t.kind = .ident) : t.words = [identOf t] := by
  rw [Token.words_eq, if_pos (by simp [Token.isWord, h])]

theorem words_of_keyword {t : Token} (h : t.kind.isKeyword = true) : t.words = [identOf t] := by
  rw [Token.words_eq, if_pos (by simp [Token.isWord, h])]

theorem count_content_le (a : Ident) (tokens : List Token) :
    ((content tokens).flatMap Token.words).count a ≤ (tokens.flatMap Token.words).count a :=
  count_flatMap_sublist _ a (List.filter_sublist.trans (List.takeWhile_sublist _))

/-- Every word of the tokens is at most one identifier of the phrase. -/
theorem Derives.count_idents {S : Prop} {ts : List Token} {phrase : Phrase}
    (h : Derives S ts phrase) (a : Ident) : phrase.idents.count a
      ≤ (ts.flatMap Token.words).count a + phrase.innerWords.count a := by
  induction h
  case template ht _ ih =>
    simpa [Phrase.idents, Phrase.innerWords, Item.idents, Expr.idents, Expr.optionIdents,
      Token.words_of_template ht] using ih
  case tagged ht _ _ _ ihtag ih =>
    simp only [Phrase.idents, Phrase.innerWords, Item.idents, Expr.idents, Expr.optionIdents,
      List.flatMap_append, List.flatMap_singleton, List.flatMap_nil, List.count_append,
      List.count_nil, Token.words_of_template ht] at ihtag ih ⊢
    omega
  case holesHole source origin opening segments e es _ _ ih ihs =>
    have hcontent := count_content_le a (Token.tokenizeAt source origin)
    simp only [Phrase.idents, Phrase.innerWords, Item.idents, Expr.listIdents, Token.segmentWords,
      List.flatMap_cons, List.flatMap_nil, List.count_append, List.count_nil] at ih ihs ⊢
    omega
  case select found _ _ _ _ _ ihvalue ih =>
    have harms := count_arms MatchArm.idents Expr.idents a found
    simp only [Phrase.idents, Phrase.innerWords, Item.idents, Expr.idents, listIdents_matchArms,
      optionIdents_expr, List.flatMap_append, List.flatMap_cons, List.flatMap_nil,
      List.count_append, List.count_nil] at ihvalue ih ⊢
    omega
  case switch found _ _ _ _ _ ihvalue ih =>
    have harms := count_arms SwitchCase.idents Block.idents a found
    simp only [Phrase.idents, Phrase.innerWords, Stmt.idents, listIdents_switchCases,
      optionIdents_block, List.flatMap_append, List.flatMap_cons, List.flatMap_nil,
      List.count_append, List.count_nil] at ihvalue ih ⊢
    omega
  case member dot t ts object _ hname _ ih =>
    have hwords : t.words = [identOf t] := hname.elim words_of_ident words_of_keyword
    simp only [Phrase.idents, Phrase.innerWords, Item.idents, Expr.idents, List.flatMap_append,
      List.flatMap_cons, List.flatMap_nil, List.count_append, List.count_nil, hwords] at ih ⊢
    omega
  case forGrouped key others _ _ _ _ _ _ _ _ _ _ _ _ ihnames ihseq ihbody =>
    have hhead := count_head a others
    simp only [Phrase.idents, Phrase.innerWords, Item.idents, Stmt.idents, flatMap_name,
      List.flatMap_append, List.flatMap_cons, List.count_append, List.count_nil,
      List.cons_append, List.count_cons] at ihnames ihseq ihbody ⊢
    omega
  case forOutside key others _ _ _ _ _ _ _ _ _ _ ihnames ihseq ihbody =>
    have hhead := count_head a others
    simp only [Phrase.idents, Phrase.innerWords, Item.idents, Stmt.idents, flatMap_name,
      List.flatMap_append, List.flatMap_cons, List.count_append, List.count_nil,
      List.cons_append, List.count_cons] at ihnames ihseq ihbody ⊢
    omega
  all_goals
    simp only [Phrase.idents, Phrase.innerWords, Item.idents, Expr.idents, DictEntry.idents,
      ImportItem.idents, MatchArm.idents, SwitchCase.idents, CatchClause.idents, Block.idents,
      Stmt.idents, Expr.listIdents, Stmt.listIdents, Expr.optionIdents, Block.optionIdents,
      Stmt.optionIdents, CatchClause.optionIdents, Target.ident?, flatMap_expr, flatMap_arg,
      flatMap_entry, flatMap_name, flatMap_imported, flatMap_target, idents_toStmt, Sum.elim_inl,
      Sum.elim_inr, Token.segmentWords, Option.toList_some, Option.toList_none, words_of_ident,
      List.flatMap_append, List.flatMap_cons, List.flatMap_nil, List.count_append, List.count_nil,
      List.cons_append, List.nil_append, List.append_nil, List.count_cons, *] at *
    try omega

end Grammar

/-! ## Programs -/

namespace Program

theorem flatMap_words_ofTokens (tokens : List Token) :
    (Parser.State.ofTokens tokens).tokens.flatMap Token.words = tokens.flatMap Token.words := by
  have hend (pos : Position) : (Token.endOfText pos).words = [] :=
    Token.words_of_other rfl (by simp [Token.endOfText])
  unfold Parser.State.ofTokens
  split
  next h => simp [List.getLast?_eq_none_iff.1 h, hend]
  next last h =>
    dsimp only
    split
    · rfl
    · simp [hend]

/-- The identifiers of a program are words of its text, each word at most once. -/
theorem idents_subperm (text : String) :
    (Program.parse text).program.idents.Subperm ((Token.tokenize text).flatMap Token.words) := by
  rw [List.subperm_ext_iff]
  intro a _
  obtain ⟨used, hused, hread⟩ := Program.derives_ofTokens (Token.tokenize text)
  have hcount := (hread False (by simp)).count_idents a
  have hsub : (Parser.significant used).Sublist (Parser.State.ofTokens (Token.tokenize text)).tokens :=
    List.filter_sublist.trans hused.sublist
  have hle := Grammar.count_flatMap_sublist Token.words a hsub
  rw [flatMap_words_ofTokens] at hle
  exact Nat.le_trans hcount hle

/-- No two identifiers of a program stand at the same place. -/
theorem nodup_positions (text : String) :
    ((Program.parse text).program.idents.map (·.pos)).Nodup := by
  obtain ⟨words, hperm, hsub⟩ := idents_subperm text
  have hwords := (Token.nodup_words .start text.toList).sublist (hsub.map (·.pos))
  exact (hperm.map (·.pos)).nodup_iff.1 hwords

/-- Identifiers at the same place are the same. -/
theorem eq_of_pos_eq {text : String} {a b : Ident} (ha : a ∈ (Program.parse text).program.idents)
    (hb : b ∈ (Program.parse text).program.idents) (h : a.pos = b.pos) : a = b :=
  List.inj_on_of_nodup_map (nodup_positions text) ha hb h

/-- Of two identifiers one ends in front of the other, with something between them. -/
theorem apart_of_ne {text : String} {a b : Ident} (ha : a ∈ (Program.parse text).program.idents)
    (hb : b ∈ (Program.parse text).program.idents) (hne : a ≠ b) :
    a.pos.after a.name.toList < b.pos ∨ b.pos.after b.name.toList < a.pos := by
  have hsubset := (idents_subperm text).subset
  have hpairwise : ((Token.tokenize text).flatMap Token.words).Pairwise fun v w =>
      v.pos.after v.name.toList < w.pos ∨ w.pos.after w.name.toList < v.pos :=
    (Token.placed_words .start text.toList).pairwise.imp .inl
  have : Std.Symm fun v w : Ident =>
      v.pos.after v.name.toList < w.pos ∨ w.pos.after w.name.toList < v.pos := ⟨fun _ _ => Or.symm⟩
  exact hpairwise.forall (hsubset ha) (hsubset hb) hne

/-- Every identifier of a program is a word of its text that stands where its position says. -/
theorem located_of_mem {text : String} {id : Ident} (h : id ∈ (Program.parse text).program.idents) :
    ∃ before behind, text.toList = before ++ (id.name.toList ++ behind)
      ∧ id.pos = Position.start.after before ∧ Token.IsWordText id.name.toList
      ∧ Token.EndsWord behind :=
  (Token.placed_words .start text.toList).mem ((idents_subperm text).subset h)

end Program

end Welle
