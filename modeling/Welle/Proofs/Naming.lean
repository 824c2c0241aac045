import Welle.Proofs.Sites
import Welle.Proofs.Spelling

set_option autoImplicit false

/-! # Identifiers and their text

An identifier of a tree stands where its position says, and nothing else of the tree stands there.
Only a member may be named by a reserved word. -/

namespace Welle

/-! ## Members -/

mutual

/-- The members that are named in an expression. -/
def Expr.members : Expr → List Ident
  | .ident _ | .int .. | .float .. | .str .. | .bool .. | .nil .. => []
  | .tuple _ items | .list _ items => Expr.listMembers items
  | .dict _ entries => DictEntry.listMembers entries
  | .template _ tag _ exprs => Expr.optionMembers tag ++ Expr.listMembers exprs
  | .func _ _ body => body.members
  | .unary _ _ operand => operand.members
  | .binary _ _ left right => left.members ++ right.members
  | .ternary _ cond thenE elseE => cond.members ++ thenE.members ++ elseE.members
  | .conditional _ thenE cond elseE => thenE.members ++ cond.members ++ elseE.members
  | .assign _ target _ value => target.members ++ value.members
  | .spread _ value => value.members
  | .call _ callee args => callee.members ++ Expr.listMembers args
  | .index _ object index => object.members ++ index.members
  | .slice _ object low high step =>
    object.members ++ Expr.optionMembers low ++ Expr.optionMembers high ++ Expr.optionMembers step
  | .member _ object name => object.members ++ [name]
  | .comprehension _ elem _ seq filter =>
    elem.members ++ seq.members ++ Expr.optionMembers filter
  | .select _ value arms fallback =>
    value.members ++ MatchArm.listMembers arms ++ Expr.optionMembers fallback

/-- The members that are named in expressions. -/
def Expr.listMembers : List Expr → List Ident
  | [] => []
  | e :: es => e.members ++ Expr.listMembers es

/-- The members that are named in an expression that may be missing. -/
def Expr.optionMembers : Option Expr → List Ident
  | none => []
  | some e => e.members

/-- The members that are named in a dictionary entry. -/
def DictEntry.members : DictEntry → List Ident
  | .pair key value => key.members ++ value.members
  | .shorthand _ => []

/-- The members that are named in dictionary entries. -/
def DictEntry.listMembers : List DictEntry → List Ident
  | [] => []
  | e :: es => e.members ++ DictEntry.listMembers es

/-- The members that are named in a case of a `match` expression. -/
def MatchArm.members : MatchArm → List Ident
  | .mk _ values result => Expr.listMembers values ++ result.members

/-- The members that are named in the cases of a `match` expression. -/
def MatchArm.listMembers : List MatchArm → List Ident
  | [] => []
  | arm :: arms => arm.members ++ MatchArm.listMembers arms

/-- The members that are named in a block. -/
def Block.members : Block → List Ident
  | .mk _ stmts => Stmt.listMembers stmts

/-- The members that are named in a block that may be missing. -/
def Block.optionMembers : Option Block → List Ident
  | none => []
  | some body => body.members

/-- The members that are named in a case of a `switch` statement. -/
def SwitchCase.members : SwitchCase → List Ident
  | .mk _ values body => Expr.listMembers values ++ body.members

/-- The members that are named in the cases of a `switch` statement. -/
def SwitchCase.listMembers : List SwitchCase → List Ident
  | [] => []
  | c :: cs => c.members ++ SwitchCase.listMembers cs

/-- The members that are named in a handler. -/
def CatchClause.members : CatchClause → List Ident
  | .mk _ _ body => body.members

/-- The members that are named in a handler that may be missing. -/
def CatchClause.optionMembers : Option CatchClause → List Ident
  | none => []
  | some handler => handler.members

/-- The members that are named in a statement. -/
def Stmt.members : Stmt → List Ident
  | .expr _ value => value.members
  | .assign _ _ _ value => value.members
  | .indexAssign _ object index _ value => object.members ++ index.members ++ value.members
  | .memberAssign _ object name _ value => object.members ++ [name] ++ value.members
  | .destructure _ _ _ value => value.members
  | .cond _ test thenS elseS => test.members ++ thenS.members ++ Stmt.optionMembers elseS
  | .whileLoop _ test body => test.members ++ body.members
  | .forLoop _ init test post body =>
    Stmt.optionMembers init ++ Expr.optionMembers test ++ Stmt.optionMembers post ++ body.members
  | .forIn _ _ _ seq body => seq.members ++ body.members
  | .switch _ value cases fallback =>
    value.members ++ SwitchCase.listMembers cases ++ Block.optionMembers fallback
  | .tryCatch _ body handler finalizer =>
    body.members ++ CatchClause.optionMembers handler ++ Block.optionMembers finalizer
  | .func _ _ _ body => body.members
  | .exported _ stmt => stmt.members
  | .ret _ values => Expr.listMembers values
  | .importAs .. | .importFrom .. | .brk _ | .cont _ | .pass _ => []
  | .raise _ value => value.members
  | .defer _ call => call.members
  | .block body => body.members

/-- The members that are named in statements. -/
def Stmt.listMembers : List Stmt → List Ident
  | [] => []
  | s :: ss => s.members ++ Stmt.listMembers ss

/-- The members that are named in a statement that may be missing. -/
def Stmt.optionMembers : Option Stmt → List Ident
  | none => []
  | some s => s.members

end

/-- The members that are named in a program. -/
def Program.members (program : Program) : List Ident := Stmt.listMembers program.stmts

namespace Grammar

/-- The members that are named in an item. -/
def Item.members : Item → List Ident
  | expr e | arg e => e.members
  | entry e => e.members
  | name _ | imported _ | target _ => []

/-! ## Reserved words -/

/-- Every name that is not among the members is no reserved word. -/
def Unreserved (idents members : List Ident) : Prop :=
  ∀ id ∈ idents, id ∈ members ∨ Token.isReserved id.name = false

/-- Only members of a phrase are named by reserved words, in each of its parts. -/
def Phrase.Unreserved : Phrase → Prop
  | item i => Grammar.Unreserved i.idents i.members
  | items is | more is => ∀ i ∈ is, Grammar.Unreserved i.idents i.members
  | holes _ es => Grammar.Unreserved (Expr.listIdents es) (Expr.listMembers es)
  | part e | step e | filter e => Grammar.Unreserved (Expr.optionIdents e) (Expr.optionMembers e)
  | params ids => Grammar.Unreserved ids []
  | condition e | result e => Grammar.Unreserved e.idents e.members
  | matchArms found => ∀ x ∈ found, Grammar.Unreserved
      (x.elim MatchArm.idents Expr.idents) (x.elim MatchArm.members Expr.members)
  | block body => Grammar.Unreserved body.idents body.members
  | switchArms found => ∀ x ∈ found, Grammar.Unreserved
      (x.elim SwitchCase.idents Block.idents) (x.elim SwitchCase.members Block.members)
  | asName id => Grammar.Unreserved id.toList []
  | clause s => Grammar.Unreserved (Stmt.optionIdents s) (Stmt.optionMembers s)
  | handler h => Grammar.Unreserved (CatchClause.optionIdents h) (CatchClause.optionMembers h)
  | finalizer body => Grammar.Unreserved (Block.optionIdents body) (Block.optionMembers body)
  | stmt s => Grammar.Unreserved s.idents s.members
  | stmts ss => Grammar.Unreserved (Stmt.listIdents ss) (Stmt.listMembers ss)

namespace Unreserved

variable {xs ys ms ns : List Ident}

theorem nil : Unreserved [] ms := by
  intro id hid
  cases hid

theorem append (h : Unreserved xs ms) (h' : Unreserved ys ns) :
    Unreserved (xs ++ ys) (ms ++ ns) := by
  intro id hid
  rcases List.mem_append.1 hid with hid | hid
  · exact (h id hid).imp_left (List.mem_append_left _)
  · exact (h' id hid).imp_left (List.mem_append_right _)

/-- Names that are no members come on top of the members of the rest. -/
theorem names_append (h : Unreserved xs []) (h' : Unreserved ys ns) : Unreserved (xs ++ ys) ns :=
  h.append h'

theorem list {es : List Expr} (h : ∀ e ∈ es, Unreserved e.idents e.members) :
    Unreserved (Expr.listIdents es) (Expr.listMembers es) := by
  induction es with
  | nil => exact nil
  | cons e es ih =>
    rw [List.forall_mem_cons] at h
    exact h.1.append (ih h.2)

theorem entries {entries : List DictEntry} (h : ∀ e ∈ entries, Unreserved e.idents e.members) :
    Unreserved (DictEntry.listIdents entries) (DictEntry.listMembers entries) := by
  induction entries with
  | nil => exact nil
  | cons e entries ih =>
    rw [List.forall_mem_cons] at h
    exact h.1.append (ih h.2)

theorem matchArms {found : List (MatchArm ⊕ Expr)} (h : (Phrase.matchArms found).Unreserved) :
    Unreserved (MatchArm.listIdents (found.filterMap Sum.getLeft?))
      (MatchArm.listMembers (found.filterMap Sum.getLeft?)) := by
  induction found with
  | nil => exact nil
  | cons x found ih =>
    obtain ⟨hx, hfound⟩ := List.forall_mem_cons.1 h
    cases x with
    | inl arm => exact hx.append (ih hfound)
    | inr e => exact ih hfound

theorem switchCases {found : List (SwitchCase ⊕ Block)} (h : (Phrase.switchArms found).Unreserved) :
    Unreserved (SwitchCase.listIdents (found.filterMap Sum.getLeft?))
      (SwitchCase.listMembers (found.filterMap Sum.getLeft?)) := by
  induction found with
  | nil => exact nil
  | cons x found ih =>
    obtain ⟨hx, hfound⟩ := List.forall_mem_cons.1 h
    cases x with
    | inl arm => exact hx.append (ih hfound)
    | inr body => exact ih hfound

theorem matchDefault {found : List (MatchArm ⊕ Expr)} (h : (Phrase.matchArms found).Unreserved) :
    Unreserved (Expr.optionIdents (found.filterMap Sum.getRight?).getLast?)
      (Expr.optionMembers (found.filterMap Sum.getRight?).getLast?) := by
  cases hlast : (found.filterMap Sum.getRight?).getLast? with
  | none => exact nil
  | some e => exact h _ (inr_mem_of_getLast? hlast)

theorem switchDefault {found : List (SwitchCase ⊕ Block)}
    (h : (Phrase.switchArms found).Unreserved) :
    Unreserved (Block.optionIdents (found.filterMap Sum.getRight?).getLast?)
      (Block.optionMembers (found.filterMap Sum.getRight?).getLast?) := by
  cases hlast : (found.filterMap Sum.getRight?).getLast? with
  | none => exact nil
  | some body => exact h _ (inr_mem_of_getLast? hlast)

theorem toStmt {start : Position} {e : Expr} (h : Unreserved e.idents e.members) :
    Unreserved (Parser.toStmt start e).idents (Parser.toStmt start e).members := by
  unfold Parser.toStmt
  split <;> simpa [Stmt.idents, Stmt.members, Expr.idents, Expr.members] using h

theorem exprs {es : List Expr} (h : (Phrase.items (es.map .expr)).Unreserved) :
    Unreserved (Expr.listIdents es) (Expr.listMembers es) :=
  list (List.forall_mem_map.1 h)

theorem args {es : List Expr} (h : (Phrase.items (es.map .arg)).Unreserved) :
    Unreserved (Expr.listIdents es) (Expr.listMembers es) :=
  list (List.forall_mem_map.1 h)

theorem names {ids : List Ident} (h : (Phrase.items (ids.map .name)).Unreserved) :
    Unreserved ids [] := by
  intro id hid
  exact h (.name id) (List.mem_map_of_mem hid) id (List.mem_singleton_self id)

theorem targets {targets : List Target} (h : (Phrase.items (targets.map .target)).Unreserved) :
    Unreserved (targets.filterMap Target.ident?) [] := by
  intro id hid
  obtain ⟨target, htarget, hid⟩ := List.mem_filterMap.1 hid
  exact h (.target target) (List.mem_map_of_mem htarget) id (by simp [Item.idents, hid])

theorem imports {items : List ImportItem} (h : (Phrase.items (items.map .imported)).Unreserved) :
    Unreserved (items.flatMap ImportItem.idents) [] := by
  intro id hid
  obtain ⟨item, hitem, hid⟩ := List.mem_flatMap.1 hid
  exact h (.imported item) (List.mem_map_of_mem hitem) id hid

/-- The first two of a list of names. -/
theorem twoNames {key : Ident} {others : List Ident} (h : Unreserved (key :: others) []) :
    Unreserved (key :: others.head?.toList) [] := by
  cases others with
  | nil => exact h
  | cons other others =>
    intro id hid
    apply h id
    simp only [List.head?_cons, Option.toList_some, List.mem_cons, List.not_mem_nil, or_false] at hid
    rcases hid with rfl | rfl <;> simp

end Unreserved

end Grammar

/-! ## Identifiers of a text -/

theorem Token.not_isReserved {word : String} (h : Kind.ofWord word = .ident) :
    isReserved word = false := by
  unfold isReserved keywords
  have hident : ∀ entry ∈ keywordTable, entry.2 ≠ .ident := by decide
  rw [List.contains_eq_mem, decide_eq_false_iff_not]
  intro hmem
  obtain ⟨⟨word, kind⟩, hentry, rfl⟩ := List.mem_map.1 hmem
  cases hlookup : keywordTable.lookup word with
  | none => exact absurd (List.lookup_eq_none_iff.1 hlookup _ hentry) (by simp)
  | some kind =>
    obtain ⟨before, behind, htable, -⟩ := List.lookup_eq_some_iff.1 hlookup
    have hkind : kind ≠ .ident := hident (word, kind) (by simp [htable])
    rw [Kind.ofWord, hlookup] at h
    exact hkind h

/-- An identifier of a text is no reserved word. -/
theorem Token.not_isReserved_of_mem {pos : Position} {cs : List Char} {t : Token}
    (ht : t ∈ tokensFrom pos cs) (hkind : t.kind = .ident) : isReserved t.literal = false := by
  obtain ⟨before, behind, rfl, rfl⟩ := mem_tokensFrom ht
  cases behind with
  | nil => cases hkind
  | cons c rest =>
    change (scan c rest).kind = .ident at hkind
    change isReserved (scan c rest).literal = false
    cases scan_cases c rest with
    | word hstart heq =>
      rw [heq] at hkind ⊢
      exact not_isReserved hkind
    | template htemplate _ =>
      rw [hkind] at htemplate
      cases htemplate
    | other hident _ _ => exact absurd hkind hident

namespace Grammar

/-- What is read from identifiers that are no reserved words has reserved words for members only. -/
theorem Derives.unreserved {S : Prop} {ts : List Token} {phrase : Phrase} (h : Derives S ts phrase)
    (hts : ∀ t ∈ ts, t.kind = .ident → Token.isReserved t.literal = false) : phrase.Unreserved := by
  induction h
  case tuple l r ts es hl hr hitems ih =>
    simp only [List.forall_mem_cons, List.forall_mem_append] at hts
    exact .exprs (ih hts.2.1)
  case list l r ts es hl hr hitems ih =>
    simp only [List.forall_mem_cons, List.forall_mem_append] at hts
    exact .exprs (ih hts.2.1)
  case dict hash l r ts entries hhash hl hr hitems ih =>
    simp only [List.forall_mem_cons, List.forall_mem_append] at hts
    exact .entries (List.forall_mem_map.1 (ih hts.2.2.1))
  case ret word ts values hword hitems ih =>
    simp only [List.forall_mem_cons] at hts
    exact .exprs (ih hts.2)
  case importFrom word path importWord ts items _ _ _ _ hitems ih =>
    simp only [List.forall_mem_cons] at hts
    exact .imports (ih hts.2.2.2)
  case call l r ts us callee args hl hr hcallee hargs ih ih' =>
    simp only [List.forall_mem_cons, List.forall_mem_append] at hts
    exact Unreserved.append (ih hts.1) (.args (ih' hts.2.2.1))
  case simple ts start e he ih => exact .toStmt (ih hts)
  case clauseSome ts start e he ih => exact .toStmt (ih hts)
  case destructure l r t ts us targets op value _ _ _ _ _ htargets hvalue ih ih' =>
    simp only [List.forall_mem_cons, List.forall_mem_append] at hts
    exact .names_append (.targets (ih hts.2.1)) (ih' hts.2.2.2.2)
  case template t es ht hholes ih => exact Unreserved.append .nil (ih (by simp))
  case tagged t ts tag es ht htag hts' hholes ihtag ih =>
    simp only [List.forall_mem_append] at hts
    exact Unreserved.append (ihtag hts.1) (ih (by simp))
  case holesHole source origin opening segments e es he hes ih ihs =>
    -- the identifiers of an interpolation come from a text of their own
    refine Unreserved.append (ih fun t ht hkind => ?_) (ihs hts)
    have hmem : t ∈ Token.tokenizeAt source origin :=
      (List.filter_sublist.trans (List.takeWhile_sublist _)).subset ht
    exact Token.not_isReserved_of_mem hmem hkind
  case select word lb rb ts us value found _ _ _ hvalue harms ih ih' =>
    simp only [List.forall_mem_cons, List.forall_mem_append] at hts
    have harms := ih' hts.2.2.2.1
    exact ((show Unreserved _ _ from ih hts.2.1).append (.matchArms harms)).append (.matchDefault harms)
  case switch word lb rb ts us value found _ _ _ hvalue harms ih ih' =>
    simp only [List.forall_mem_cons, List.forall_mem_append] at hts
    have harms := ih' hts.2.2.2.1
    exact ((show Unreserved _ _ from ih hts.2.1).append (.switchCases harms)).append (.switchDefault harms)
  case matchCase word ts us vs values result found _ _ hvalues hresult hfound ih ih' ih'' =>
    simp only [List.forall_mem_cons, List.forall_mem_append] at hts
    refine List.forall_mem_cons.2 ⟨?_, ih'' hts.2.2.2⟩
    exact Unreserved.append (.exprs (ih hts.2.1)) (ih' hts.2.2.1)
  case switchCase word ts us vs values body found _ _ hvalues hbody hfound ih ih' ih'' =>
    simp only [List.forall_mem_cons, List.forall_mem_append] at hts
    refine List.forall_mem_cons.2 ⟨?_, ih'' hts.2.2.2⟩
    exact Unreserved.append (.exprs (ih hts.2.1)) (ih' hts.2.2.1)
  case params l r ts ids hl hr hnames ih =>
    simp only [List.forall_mem_cons, List.forall_mem_append] at hts
    exact .names (ih hts.2.1)
  case forGrouped hnames hseq hbody ihnames ihseq ihbody =>
    simp only [List.forall_mem_cons, List.forall_mem_append] at hts
    have hkeys := Unreserved.twoNames (.names (ihnames hts.2.2.2.1))
    exact (hkeys.names_append (ihseq hts.2.2.2.2.2.2.1)).append (ihbody hts.2.2.2.2.2.2.2.2)
  case forOutside hnames hseq hbody ihnames ihseq ihbody =>
    simp only [List.forall_mem_cons, List.forall_mem_append] at hts
    have hkeys := Unreserved.twoNames (.names (ihnames hts.2.2.1))
    exact (hkeys.names_append (ihseq hts.2.2.2.2.2.1)).append (ihbody hts.2.2.2.2.2.2)
  all_goals
    simp only [Phrase.Unreserved, Unreserved, Item.idents, Item.members, Expr.idents, Expr.members,
      DictEntry.idents, DictEntry.members, ImportItem.idents, CatchClause.idents,
      CatchClause.members, Block.idents, Block.members, Stmt.idents, Stmt.members,
      Expr.optionIdents, Expr.optionMembers, Block.optionIdents, Block.optionMembers,
      Stmt.optionIdents, Stmt.optionMembers, CatchClause.optionIdents, CatchClause.optionMembers,
      Target.ident?, Expr.listIdents, Expr.listMembers, Stmt.listIdents, Stmt.listMembers,
      List.mem_append, List.mem_cons, List.not_mem_nil] at *
    grind

end Grammar

namespace Program

/-- A parser adds to the tokens it is given at most the one that ends the text. -/
theorem mem_ofTokens {tokens : List Token} {t : Token}
    (h : t ∈ (Parser.State.ofTokens tokens).tokens) : t ∈ tokens ∨ t.kind = .eof := by
  unfold Parser.State.ofTokens at h
  split at h
  next =>
    rw [List.mem_singleton.1 h]
    exact .inr rfl
  next last _ =>
    dsimp only at h
    split at h
    · exact .inl h
    · rcases List.mem_append.1 h with h | h
      · exact .inl h
      · rw [List.mem_singleton.1 h]
        exact .inr rfl

/-- An identifier of a program that is a reserved word names a member. -/
theorem mem_members_of_isReserved {text : String} {id : Ident}
    (h : id ∈ (Program.parse text).program.idents) (hreserved : Token.isReserved id.name = true) :
    id ∈ (Program.parse text).program.members := by
  obtain ⟨used, hused, hread⟩ := Program.derives_ofTokens (Token.tokenize text)
  have hplain : ∀ t ∈ Parser.significant used,
      t.kind = .ident → Token.isReserved t.literal = false := by
    intro t ht hkind
    rcases mem_ofTokens (hused.subset (List.mem_of_mem_filter ht)) with hmem | heof
    · exact Token.not_isReserved_of_mem hmem hkind
    · rw [heof] at hkind
      cases hkind
  have hunreserved := (hread False (by simp)).unreserved hplain
  rcases hunreserved id h with hmember | hplain
  · exact hmember
  · rw [hreserved] at hplain
    cases hplain

/-- Two identifiers of a program on one line leave something between them. -/
theorem columns_apart {text : String} {a b : Ident} (ha : a ∈ (Program.parse text).program.idents)
    (hb : b ∈ (Program.parse text).program.idents) (hne : a ≠ b) (hline : a.pos.line = b.pos.line) :
    a.pos.column + a.name.utf8ByteSize < b.pos.column
      ∨ b.pos.column + b.name.utf8ByteSize < a.pos.column := by
  have hapart := apart_of_ne ha hb hne
  rw [(after_name ha).1, (after_name hb).1, Position.lt_iff, Position.lt_iff] at hapart
  simp only at hapart
  omega

/-- No place is covered by two identifiers of a program. -/
theorem not_covers_both {text : String} {a b : Ident}
    (ha : a ∈ (Program.parse text).program.idents) (hb : b ∈ (Program.parse text).program.idents)
    (hne : a ≠ b) (pos : Position) : ¬(a.covers pos = true ∧ b.covers pos = true) := by
  rintro ⟨hcovers, hcovers'⟩
  have hsize := (after_name ha).2
  have hsize' := (after_name hb).2
  simp only [Ident.covers, Bool.and_eq_true, decide_eq_true_eq] at hcovers hcovers'
  have hapart := columns_apart ha hb hne (hcovers.1.1.symm.trans hcovers'.1.1)
  omega

/-- The identifiers of a program, of a text that may be broken: each is a whole word that stands in
    the text where its position says, a reserved word only as the name of a member, and no two of
    them stand at the same place or reach to a common one. -/
theorem idents_spelled (text : String) :
    (∀ id ∈ (Program.parse text).program.idents,
      (∃ before behind, text.toList = before ++ (id.name.toList ++ behind)
        ∧ id.pos = endPosition (String.ofList before)
        ∧ Token.IsWordText id.name.toList ∧ Token.EndsWord behind)
      ∧ (Token.isReserved id.name = true → id ∈ (Program.parse text).program.members))
    ∧ (Program.parse text).program.idents.Pairwise fun a b => a.pos ≠ b.pos
      ∧ (a.pos.line = b.pos.line → a.pos.column + a.name.utf8ByteSize < b.pos.column
        ∨ b.pos.column + b.name.utf8ByteSize < a.pos.column)
      ∧ ∀ pos, ¬(a.covers pos = true ∧ b.covers pos = true) := by
  constructor
  · intro id hid
    obtain ⟨before, behind, htext, hpos, hword, hends⟩ := located_of_mem hid
    rw [after_start_eq_endPosition] at hpos
    exact ⟨⟨before, behind, htext, hpos, hword, hends⟩, mem_members_of_isReserved hid⟩
  · have hnodup := List.pairwise_map.1 (nodup_positions text)
    refine hnodup.imp_of_mem fun {a b} ha hb hpos => ?_
    have hne : a ≠ b := fun h => hpos (h ▸ rfl)
    exact ⟨hpos, columns_apart ha hb hne, not_covers_both ha hb hne⟩

/-- A broken text with a member that is named by a reserved word in one interpolation of a template,
    and with a template in another one. -/
theorem idents_spelled_interpolations :
    ⟨"if", ⟨1, 13⟩⟩
      ∈ (Program.parse "x = t\"é$\x7ba.if\x7d$\x7bt\"$\x7bb\x7d\"\x7d\" ]").program.members
    ∧ (Program.parse "x = t\"é$\x7ba.if\x7d$\x7bt\"$\x7bb\x7d\"\x7d\" ]").program.idents.Pairwise
      fun a b => a.pos.column + a.name.utf8ByteSize < b.pos.column
        ∨ b.pos.column + b.name.utf8ByteSize < a.pos.column := by
  have hspelled := idents_spelled "x = t\"é$\x7ba.if\x7d$\x7bt\"$\x7bb\x7d\"\x7d\" ]"
  have hline : ∀ id ∈ (Program.parse
      "x = t\"é$\x7ba.if\x7d$\x7bt\"$\x7bb\x7d\"\x7d\" ]").program.idents, id.pos.line = 1 := by
    decide +kernel
  refine ⟨(hspelled.1 ⟨"if", ⟨1, 13⟩⟩ (by decide +kernel)).2 (by decide), ?_⟩
  refine hspelled.2.imp_of_mem fun {a b} ha hb h => h.2.1 ?_
  rw [hline a ha, hline b hb]

end Program

end Welle
