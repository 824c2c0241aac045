import Welle.Proofs.Naming
import Welle.Proofs.Printing.Tokens
import Welle.Proofs.WellFormed

set_option autoImplicit false

/-! # Trees that are read from a text are printable

The names in a tree are spelled as words, because the tokens they come from are, and its integers are
numbers that a text can hold. So a tree that is read from a text is printable if its floats are
printed as texts that stand for them and the sources of its interpolations fit into templates. -/

namespace Welle

open Token (IsWordText IsName)

/-! ## Words -/

namespace Token

/-- A name or a reserved word is spelled as its token says. -/
def SpellsWord (t : Token) : Prop :=
  t.isWord = true → IsWordText t.literal.toList ∧ Kind.ofWord t.literal = t.kind

theorem SpellsWord.isName {t : Token} (h : t.SpellsWord) (hkind : t.kind = .ident) :
    IsName t.literal := by
  obtain ⟨hword, hkind'⟩ := h (by simp [isWord, hkind])
  exact ⟨hword, hkind'.trans hkind⟩

theorem isWordText_takeWhile {c : Char} {cs : List Char} (hstart : isIdentStart c = true) :
    IsWordText ((c :: cs).takeWhile isIdentContinue) where
  starts := ⟨c, by simp [isIdentContinue, hstart], hstart⟩
  continues := fun _ hd => List.mem_takeWhile_imp hd

theorem spellsWord_of_mem {pos : Position} {cs : List Char} {t : Token}
    (ht : t ∈ tokensFrom pos cs) : t.SpellsWord := by
  obtain ⟨before, behind, rfl, rfl⟩ := mem_tokensFrom ht
  intro hword
  cases behind with
  | nil => cases hword
  | cons c rest =>
    change ((scan c rest).kind = .ident || (scan c rest).kind.isKeyword) = true at hword
    change IsWordText (scan c rest).literal.toList
      ∧ Kind.ofWord (scan c rest).literal = (scan c rest).kind
    cases scan_cases c rest with
    | word hstart heq =>
      rw [heq]
      simpa [scanWord, Lexeme.plain] using isWordText_takeWhile hstart
    | template htemplate _ =>
      rw [htemplate] at hword
      cases hword
    | other hident hkeyword _ => simp [hident, hkeyword] at hword

end Token

/-! ## Exact nodes -/

/-- A float is printed as a text that stands for it, and the source of an interpolation is printed as
    a text that fits into a template. -/
def Node.IsExact : Node → Prop
  | .expr (.float _ value) => Numeral.PrintsExactly value
  | .expr (.template _ _ _ exprs) => ∀ e ∈ exprs, Template.Embeds e.render
  | .expr _ | .stmt _ => True

/-- All of some nodes are exact. -/
def Node.Exact (nodes : List Node) : Prop := ∀ n ∈ nodes, n.IsExact

theorem Node.Exact.mono {ms ns : List Node} (h : Node.Exact ns) (hsub : ∀ n ∈ ms, n ∈ ns) :
    Node.Exact ms :=
  fun n hn => h n (hsub n hn)

section Subsets

variable {e : Expr} {s : Stmt} {body : Block}

theorem Expr.mem_listNodes {es : List Expr} (h : e ∈ es) : ∀ n ∈ e.nodes, n ∈ Expr.listNodes es := by
  rw [Expr.listNodes_eq]
  exact fun n hn => List.mem_flatMap_of_mem h hn

theorem Expr.mem_optionNodes {part : Option Expr} (h : e ∈ part) :
    ∀ n ∈ e.nodes, n ∈ Expr.optionNodes part := by
  obtain rfl := Option.mem_def.1 h
  exact fun n hn => hn

theorem DictEntry.mem_listNodes {entries : List DictEntry} {entry : DictEntry} (h : entry ∈ entries) :
    ∀ n ∈ entry.nodes, n ∈ DictEntry.listNodes entries := by
  rw [DictEntry.listNodes_eq]
  exact fun n hn => List.mem_flatMap_of_mem h hn

theorem MatchArm.mem_listNodes {arms : List MatchArm} {arm : MatchArm} (h : arm ∈ arms) :
    ∀ n ∈ arm.nodes, n ∈ MatchArm.listNodes arms := by
  rw [MatchArm.listNodes_eq]
  exact fun n hn => List.mem_flatMap_of_mem h hn

theorem SwitchCase.mem_listNodes {cases : List SwitchCase} {c : SwitchCase} (h : c ∈ cases) :
    ∀ n ∈ c.nodes, n ∈ SwitchCase.listNodes cases := by
  rw [SwitchCase.listNodes_eq]
  exact fun n hn => List.mem_flatMap_of_mem h hn

theorem Stmt.mem_listNodes {ss : List Stmt} (h : s ∈ ss) : ∀ n ∈ s.nodes, n ∈ Stmt.listNodes ss := by
  rw [Stmt.listNodes_eq]
  exact fun n hn => List.mem_flatMap_of_mem h hn

theorem Block.mem_nodes (h : s ∈ body.stmts) : ∀ n ∈ s.nodes, n ∈ body.nodes := by
  rw [Block.nodes_eq]
  exact Stmt.mem_listNodes h

theorem Block.mem_optionNodes {part : Option Block} (hbody : body ∈ part) (h : s ∈ body.stmts) :
    ∀ n ∈ s.nodes, n ∈ Block.optionNodes part := by
  obtain rfl := Option.mem_def.1 hbody
  exact Block.mem_nodes h

theorem Stmt.mem_optionNodes {part : Option Stmt} (h : s ∈ part) :
    ∀ n ∈ s.nodes, n ∈ Stmt.optionNodes part := by
  obtain rfl := Option.mem_def.1 h
  exact fun n hn => hn

end Subsets

/-- A printable expression is no spread. -/
theorem Expr.Printable.passed_eq {e : Expr} (h : e.Printable) : e.passed = e := by
  cases h <;> rfl

/-- The statement that a printable expression stands for is printable. -/
theorem Expr.Printable.toStmt {e : Expr} (h : e.Printable) (p : Position) :
    (Parser.toStmt p e).Printable := by
  unfold Parser.toStmt
  split
  · cases h with
    | assign _ htarget hvalue =>
      cases htarget with
      | ident hname => exact .assignStmt hname hvalue
  · cases h with
    | assign hassignable htarget hvalue =>
      cases htarget with
      | index hobject hindex =>
        exact .indexAssign (by simpa [Parser.isAssignable] using hassignable) hobject hindex hvalue
  · cases h with
    | assign hassignable htarget hvalue =>
      cases htarget with
      | member hname hobject =>
        exact .memberAssign (by simpa [Parser.isAssignable] using hassignable) hname hobject hvalue
  next hname hindex hmember =>
    refine .simple ?_ h
    unfold Parser.toStmt
    split
    · exact absurd rfl (hname _ _ _ _)
    · exact absurd rfl (hindex _ _ _ _ _ _)
    · exact absurd rfl (hmember _ _ _ _ _ _)
    · rfl

theorem isSimple_toStmt (p : Position) (e : Expr) : (Parser.toStmt p e).isSimple = true := by
  unfold Parser.toStmt
  split <;> rfl

theorem Node.Exact.of_toStmt {p : Position} {e : Expr} (h : Exact (Parser.toStmt p e).nodes) :
    Exact e.nodes := by
  unfold Parser.toStmt at h
  split at h <;> simpa [Exact, Stmt.nodes, Expr.nodes, IsExact] using h

namespace Grammar

open Node (Exact)

/-- The exact parts of an item are printable. -/
def Item.Printable : Item → Prop
  | expr e => Exact e.nodes → e.Printable
  | arg e => Exact e.nodes → e.passed.Printable
  | entry (.pair key value) =>
    (Exact key.nodes → key.Printable) ∧ (Exact value.nodes → value.Printable)
  | entry (.shorthand id) | name id => IsName id.name
  | imported item => item.Printable
  | target t => t.Printable

/-- The exact statements among some are printable. -/
def StmtsPrintable (ss : List Stmt) : Prop := ∀ s ∈ ss, Exact s.nodes → s.Printable

/-- The exact parts of a phrase are printable. -/
def Phrase.Printable : Phrase → Prop
  | item i => i.Printable
  | items is | more is => ∀ i ∈ is, i.Printable
  | holes _ es => ∀ e ∈ es, Exact e.nodes → e.Printable
  | part e | step e | filter e => ∀ x ∈ e, Exact x.nodes → x.Printable
  | params ids => ∀ id ∈ ids, IsName id.name
  | condition e | result e => Exact e.nodes → e.Printable
  | matchArms found =>
    (∀ pos values result, .inl (.mk pos values result) ∈ found → values ≠ []
      ∧ (∀ e ∈ values, Exact e.nodes → e.Printable) ∧ (Exact result.nodes → result.Printable))
    ∧ ∀ e, .inr e ∈ found → Exact e.nodes → e.Printable
  | block body => StmtsPrintable body.stmts
  | switchArms found =>
    (∀ pos values body, .inl (.mk pos values body) ∈ found → values ≠ []
      ∧ (∀ e ∈ values, Exact e.nodes → e.Printable) ∧ StmtsPrintable body.stmts)
    ∧ ∀ body, .inr body ∈ found → StmtsPrintable body.stmts
  | asName id => ∀ x ∈ id, IsName x.name
  | clause s => ∀ x ∈ s, x.isSimple = true ∧ (Exact x.nodes → x.Printable)
  | handler h => ∀ pos name body, .mk pos name body ∈ h →
    (∀ id ∈ name, IsName id.name) ∧ StmtsPrintable body.stmts
  | finalizer body => ∀ b ∈ body, StmtsPrintable b.stmts
  | stmt s => Exact s.nodes → s.Printable
  | stmts ss => StmtsPrintable ss

theorem isWord_of_kind {t : Token} (h : t.kind = .ident ∨ t.kind.isKeyword = true) :
    t.isWord = true := by
  simpa [Token.isWord] using h

/-- The tokens of the source of an interpolation. -/
theorem spellsWord_of_mem_content {source : String} {origin : Position} :
    ∀ t ∈ content (Token.tokenizeAt source origin), t.SpellsWord := by
  intro t ht
  have hmem := (List.takeWhile_prefix _).subset (List.mem_of_mem_filter ht)
  exact Token.spellsWord_of_mem hmem

theorem mem_of_getLeft? {α β : Type} {found : List (α ⊕ β)} {a : α}
    (h : a ∈ found.filterMap Sum.getLeft?) : .inl a ∈ found := by
  obtain ⟨x, hx, hleft⟩ := List.mem_filterMap.1 h
  rwa [Sum.getLeft?_eq_some_iff.1 hleft] at hx

/-- What is read from words that are spelled as such is printable where it is exact. -/
theorem Derives.printable {S : Prop} {ts : List Token} {phrase : Phrase} (h : Derives S ts phrase)
    (hts : ∀ t ∈ ts, t.SpellsWord) : phrase.Printable := by
  induction h
  case itemsNil => exact List.forall_mem_nil _
  case itemsCons ihitem ihmore =>
    rw [List.forall_mem_append] at hts
    exact List.forall_mem_cons.2 ⟨ihitem hts.1, ihmore hts.2⟩
  case moreNil => exact List.forall_mem_nil _
  case moreTrailing => exact List.forall_mem_nil _
  case moreCons ihitem ihmore =>
    rw [List.forall_mem_cons, List.forall_mem_append] at hts
    exact List.forall_mem_cons.2 ⟨ihitem hts.2.1, ihmore hts.2.2⟩
  case arg ih =>
    intro hexact
    have he := ih hts hexact
    rwa [he.passed_eq]
  case spread ih =>
    rw [List.forall_mem_cons] at hts
    intro hexact
    exact ih hts.2 (hexact.mono fun n hn => by simp [Expr.nodes, hn])
  case pair ihkey ihvalue =>
    rw [List.forall_mem_append, List.forall_mem_cons] at hts
    exact ⟨ihkey hts.1, ihvalue hts.2.2⟩
  case shorthand hkind => exact (hts _ List.mem_cons_self).isName hkind
  case ident hkind => exact fun _ => .ident ((hts _ List.mem_cons_self).isName hkind)
  case int hvalue =>
    intro _
    obtain ⟨n, rfl⟩ := Int.eq_ofNat_of_zero_le (Numeral.nonneg_of_parse hvalue)
    exact .int (Int.ofNat_lt.1 (Numeral.lt_of_parse hvalue))
  case float => exact fun hexact => .float (hexact _ (Expr.mem_nodes_self _))
  case str => exact fun _ => .str
  case bool => exact fun _ => .bool
  case nil => exact fun _ => .nil
  case group ih =>
    rw [List.forall_mem_cons, List.forall_mem_append] at hts
    exact ih hts.2.1
  case tuple ih =>
    rw [List.forall_mem_cons, List.forall_mem_append] at hts
    intro hexact
    exact .tuple fun e he => List.forall_mem_map.1 (ih hts.2.1) e he
      (hexact.mono fun n hn => by simp [Expr.nodes, Expr.mem_listNodes he _ hn])
  case list ih =>
    rw [List.forall_mem_cons, List.forall_mem_append] at hts
    intro hexact
    exact .list fun e he => List.forall_mem_map.1 (ih hts.2.1) e he
      (hexact.mono fun n hn => by simp [Expr.nodes, Expr.mem_listNodes he _ hn])
  case comprehension hname _ _ _ _ _ ihelem ihseq ihfilter =>
    simp only [List.forall_mem_cons, List.forall_mem_append] at hts
    intro hexact
    refine .comprehension (hts.2.2.2.1.isName hname)
      (ihelem hts.2.1 (hexact.mono fun n hn => by simp [Expr.nodes, hn]))
      (ihseq hts.2.2.2.2.2.1 (hexact.mono fun n hn => by simp [Expr.nodes, hn])) ?_
    intro e he
    refine ihfilter hts.2.2.2.2.2.2.1 e he (hexact.mono fun n hn => ?_)
    simp [Expr.nodes, Expr.mem_optionNodes he _ hn]
  case filterNone =>
    intro e he
    cases he
  case filterSome ih =>
    rw [List.forall_mem_cons] at hts
    rintro e ⟨⟩
    exact ih hts.2
  case dict ih =>
    simp only [List.forall_mem_cons, List.forall_mem_append] at hts
    intro hexact
    have hentries := List.forall_mem_map.1 (ih hts.2.2.1)
    refine .dict (fun id hid => hentries _ hid) (fun key value hmem => ?_) fun key value hmem => ?_
    · refine (hentries _ hmem).1 (hexact.mono fun n hn => ?_)
      have hentry : n ∈ (DictEntry.pair key value).nodes := by simp [DictEntry.nodes, hn]
      simp [Expr.nodes, DictEntry.mem_listNodes hmem _ hentry]
    · refine (hentries _ hmem).2 (hexact.mono fun n hn => ?_)
      have hentry : n ∈ (DictEntry.pair key value).nodes := by simp [DictEntry.nodes, hn]
      simp [Expr.nodes, DictEntry.mem_listNodes hmem _ hentry]
  case func ihparams ihbody =>
    simp only [List.forall_mem_cons, List.forall_mem_append] at hts
    intro hexact
    refine .func (ihparams hts.2.1) fun s hs => ihbody hts.2.2 s hs (hexact.mono fun n hn => ?_)
    simp [Expr.nodes, Block.mem_nodes hs _ hn]
  case condition ih =>
    rw [List.forall_mem_cons, List.forall_mem_append] at hts
    exact ih hts.2.1
  case select ihvalue iharms =>
    simp only [List.forall_mem_cons, List.forall_mem_append] at hts
    intro hexact
    obtain ⟨hcases, hdefaults⟩ := iharms hts.2.2.2.1
    refine .select (ihvalue hts.2.1 (hexact.mono fun n hn => by simp [Expr.nodes, hn]))
      (fun pos values result harm => (hcases pos values result (mem_of_getLeft? harm)).1)
      (fun pos values result harm e he => (hcases pos values result (mem_of_getLeft? harm)).2.1 e he ?_)
      (fun pos values result harm => (hcases pos values result (mem_of_getLeft? harm)).2.2 ?_)
      fun e he => hdefaults e (inr_mem_of_getLast? he) ?_
    · refine hexact.mono fun n hn => ?_
      have hsub : n ∈ (MatchArm.mk pos values result).nodes := by
        simp [MatchArm.nodes, Expr.mem_listNodes he _ hn]
      simp [Expr.nodes, MatchArm.mem_listNodes harm _ hsub]
    · refine hexact.mono fun n hn => ?_
      have hsub : n ∈ (MatchArm.mk pos values result).nodes := by simp [MatchArm.nodes, hn]
      simp [Expr.nodes, MatchArm.mem_listNodes harm _ hsub]
    · refine hexact.mono fun n hn => ?_
      rw [Expr.nodes]
      exact List.mem_cons_of_mem _ (List.mem_append_right _ (Expr.mem_optionNodes he _ hn))
  case matchNil => exact ⟨fun _ _ _ h => (by cases h), fun _ h => (by cases h)⟩
  case matchSeparator ih =>
    rw [List.forall_mem_cons] at hts
    exact ih hts.2
  case matchCase hne _ _ _ ihvalues ihresult ih =>
    simp only [List.forall_mem_cons, List.forall_mem_append] at hts
    obtain ⟨hcases, hdefaults⟩ := ih hts.2.2.2
    refine ⟨fun pos values result hmem => ?_, fun e hmem => ?_⟩
    · rcases List.mem_cons.1 hmem with heq | hmem
      · cases heq
        exact ⟨hne, List.forall_mem_map.1 (ihvalues hts.2.1), ihresult hts.2.2.1⟩
      · exact hcases pos values result hmem
    · rcases List.mem_cons.1 hmem with heq | hmem
      · cases heq
      · exact hdefaults e hmem
  case matchDefault ihresult ih =>
    simp only [List.forall_mem_cons, List.forall_mem_append] at hts
    obtain ⟨hcases, hdefaults⟩ := ih hts.2.2
    refine ⟨fun pos values result hmem => ?_, fun e hmem => ?_⟩
    · rcases List.mem_cons.1 hmem with heq | hmem
      · cases heq
      · exact hcases pos values result hmem
    · rcases List.mem_cons.1 hmem with heq | hmem
      · cases heq
        exact ihresult hts.2.1
      · exact hdefaults e hmem
  case result ih =>
    simp only [List.forall_mem_cons, List.forall_mem_append] at hts
    exact ih hts.2.2.1
  case template hholes ih =>
    intro hexact
    refine .template hholes.wellFormed.template (fun e he => (by cases he))
      (hexact _ (Expr.mem_nodes_self _)) (fun e he => (by cases he)) fun e he => ?_
    refine ih (List.forall_mem_nil _) e he (hexact.mono fun n hn => ?_)
    simp [Expr.nodes, Expr.mem_listNodes he _ hn]
  case unary ih =>
    rw [List.forall_mem_cons] at hts
    intro hexact
    exact .unary (ih hts.2 (hexact.mono fun n hn => by simp [Expr.nodes, hn]))
  case binary ihleft ihright =>
    rw [List.forall_mem_append, List.forall_mem_cons] at hts
    intro hexact
    exact .binary (ihleft hts.1 (hexact.mono fun n hn => by simp [Expr.nodes, hn]))
      (ihright hts.2.2 (hexact.mono fun n hn => by simp [Expr.nodes, hn]))
  case ternary ihcond ihthen ihelse =>
    simp only [List.forall_mem_cons, List.forall_mem_append] at hts
    intro hexact
    exact .ternary (ihcond hts.1 (hexact.mono fun n hn => by simp [Expr.nodes, hn]))
      (ihthen hts.2.2.1 (hexact.mono fun n hn => by simp [Expr.nodes, hn]))
      (ihelse hts.2.2.2.2 (hexact.mono fun n hn => by simp [Expr.nodes, hn]))
  case conditional ihthen ihcond ihelse =>
    simp only [List.forall_mem_cons, List.forall_mem_append] at hts
    intro hexact
    exact .conditional (ihthen hts.1 (hexact.mono fun n hn => by simp [Expr.nodes, hn]))
      (ihcond hts.2.2.1 (hexact.mono fun n hn => by simp [Expr.nodes, hn]))
      (ihelse hts.2.2.2.2 (hexact.mono fun n hn => by simp [Expr.nodes, hn]))
  case assign hassignable _ _ ihtarget ihvalue =>
    rw [List.forall_mem_append, List.forall_mem_cons] at hts
    intro hexact
    exact .assign hassignable
      (ihtarget hts.1 (hexact.mono fun n hn => by simp [Expr.nodes, hn]))
      (ihvalue hts.2.2 (hexact.mono fun n hn => by simp [Expr.nodes, hn]))
  case call ihcallee ihargs =>
    simp only [List.forall_mem_cons, List.forall_mem_append] at hts
    intro hexact
    refine .call (ihcallee hts.1 (hexact.mono fun n hn => by simp [Expr.nodes, hn])) ?_
    intro e he
    refine List.forall_mem_map.1 (ihargs hts.2.2.1) e he (hexact.mono fun n hn => ?_)
    simp [Expr.nodes, Expr.mem_listNodes he _ hn]
  case index ihobject ihindex =>
    simp only [List.forall_mem_cons, List.forall_mem_append] at hts
    intro hexact
    exact .index (ihobject hts.1 (hexact.mono fun n hn => by simp [Expr.nodes, hn]))
      (ihindex hts.2.2.1 (hexact.mono fun n hn => by simp [Expr.nodes, hn]))
  case slice ihobject ihlow ihhigh ihstep =>
    simp only [List.forall_mem_cons, List.forall_mem_append] at hts
    intro hexact
    refine .slice (ihobject hts.1 (hexact.mono fun n hn => by simp [Expr.nodes, hn]))
      (fun e he => ihlow hts.2.2.1 e he ?_) (fun e he => ihhigh hts.2.2.2.2.1 e he ?_)
      fun e he => ihstep hts.2.2.2.2.2.1 e he ?_
    all_goals
      refine hexact.mono fun n hn => ?_
      simp [Expr.nodes, Expr.mem_optionNodes he _ hn]
  case partNone =>
    intro e he
    cases he
  case partSome ih =>
    rintro e ⟨⟩
    exact ih hts
  case stepNone =>
    intro e he
    cases he
  case stepSome ih =>
    rw [List.forall_mem_cons] at hts
    exact ih hts.2
  case member hname _ ih =>
    simp only [List.forall_mem_cons, List.forall_mem_append] at hts
    intro hexact
    exact .member (hts.2.2.1 (isWord_of_kind hname)).1
      (ih hts.1 (hexact.mono fun n hn => by simp [Expr.nodes, hn]))
  case tagged htag _ hholes ihtag ih =>
    rw [List.forall_mem_append] at hts
    intro hexact
    have hnodes : Exact (Expr.nodes _) := hexact.mono fun n hn => by
      rw [Expr.nodes]
      exact List.mem_cons_of_mem _ (List.mem_append_left _ hn)
    refine .template hholes.wellFormed.template ?_ (hexact _ (Expr.mem_nodes_self _)) ?_ fun e he => ?_
    · rintro e ⟨⟩
      exact htag
    · rintro e ⟨⟩
      exact ihtag hts.1 hnodes
    · refine ih (List.forall_mem_nil _) e he (hexact.mono fun n hn => ?_)
      simp [Expr.nodes, Expr.mem_listNodes he _ hn]
  case holesNil => exact List.forall_mem_nil _
  case holesText ih => exact ih hts
  case holesHole ihhole ih =>
    exact List.forall_mem_cons.2 ⟨ihhole spellsWord_of_mem_content, ih hts⟩
  -- names
  case name hkind => exact (hts _ List.mem_cons_self).isName hkind
  case asNone =>
    intro id hid
    cases hid
  case asSome hkind =>
    rw [List.forall_mem_cons, List.forall_mem_singleton] at hts
    rintro id ⟨⟩
    exact hts.2.isName hkind
  case imported hkind _ ih =>
    rw [List.forall_mem_cons] at hts
    exact ⟨hts.1.isName hkind, ih hts.2⟩
  case targetName hkind hname =>
    exact ⟨(hts _ List.mem_cons_self).isName hkind, by simpa [Ident.isDiscard] using hname⟩
  case targetDiscard => trivial
  case targetStarred hkind =>
    rw [List.forall_mem_cons, List.forall_mem_singleton] at hts
    exact hts.2.isName hkind
  case params ih =>
    simp only [List.forall_mem_cons, List.forall_mem_append] at hts
    exact fun id hid => ih hts.2.1 _ (List.mem_map_of_mem hid)
  -- blocks
  case block ih =>
    simp only [List.forall_mem_cons, List.forall_mem_append] at hts
    exact ih hts.2.1
  case openBlock ih =>
    simp only [List.forall_mem_cons, List.forall_mem_append] at hts
    exact ih hts.2.1
  case stmtsNil => exact List.forall_mem_nil _
  case stmtsSeparator ih =>
    rw [List.forall_mem_cons] at hts
    exact ih hts.2
  case stmtsSkip ih =>
    rw [List.forall_mem_append] at hts
    exact ih hts.2
  case stmtsCons ihstmt ih =>
    rw [List.forall_mem_append] at hts
    exact List.forall_mem_cons.2 ⟨ihstmt hts.1, ih hts.2⟩
  -- statements
  case simple ih => exact fun hexact => (ih hts hexact.of_toStmt).toStmt _
  case destructure hop hne hstars _ _ ihtargets ihvalue =>
    simp only [List.forall_mem_cons, List.forall_mem_append] at hts
    intro hexact
    refine .destructure hne hstars ?_
      (fun target htarget => ihtargets hts.2.1 _ (List.mem_map_of_mem htarget))
      (ihvalue hts.2.2.2.2 (hexact.mono fun n hn => by simp [Stmt.nodes, hn]))
    simpa using (Option.filter_eq_some_iff.1 hop).2
  case ret ih =>
    rw [List.forall_mem_cons] at hts
    intro hexact
    refine .ret fun e he => List.forall_mem_map.1 (ih hts.2) e he (hexact.mono fun n hn => ?_)
    simp [Stmt.nodes, Expr.mem_listNodes he _ hn]
  case brk => exact fun _ => .brk
  case cont => exact fun _ => .cont
  case pass => exact fun _ => .pass
  case raise ih =>
    rw [List.forall_mem_cons] at hts
    intro hexact
    exact .raise (ih hts.2 (hexact.mono fun n hn => by simp [Stmt.nodes, hn]))
  case defer hcall _ ih =>
    rw [List.forall_mem_cons] at hts
    intro hexact
    exact .defer hcall (ih hts.2 (hexact.mono fun n hn => by simp [Stmt.nodes, hn]))
  case importAs ih =>
    simp only [List.forall_mem_cons] at hts
    exact fun _ => .importAs (ih hts.2.2)
  case importFrom hne _ ih =>
    simp only [List.forall_mem_cons] at hts
    exact fun _ => .importFrom hne fun item hitem => ih hts.2.2.2 _ (List.mem_map_of_mem hitem)
  case exported hexportable _ ih =>
    rw [List.forall_mem_cons] at hts
    intro hexact
    exact .exported hexportable (ih hts.2 (hexact.mono fun n hn => by simp [Stmt.nodes, hn]))
  case blockStmt ih =>
    intro hexact
    refine .blockStmt fun s hs => ih hts s hs (hexact.mono fun n hn => ?_)
    simp [Stmt.nodes, Block.mem_nodes hs _ hn]
  case funcStmt hkind _ _ ihparams ihbody =>
    simp only [List.forall_mem_cons, List.forall_mem_append] at hts
    intro hexact
    refine .funcStmt (hts.2.1.isName hkind) (ihparams hts.2.2.1)
      fun s hs => ihbody hts.2.2.2 s hs (hexact.mono fun n hn => ?_)
    simp [Stmt.nodes, Block.mem_nodes hs _ hn]
  case cond ihtest ihthen =>
    simp only [List.forall_mem_cons, List.forall_mem_append] at hts
    intro hexact
    exact .cond (fun h => (by cases h))
      (ihtest hts.2.1 (hexact.mono fun n hn => by simp [Stmt.nodes, hn]))
      (ihthen hts.2.2 (hexact.mono fun n hn => by simp [Stmt.nodes, hn]))
      fun s hs => (by cases hs)
  case condElse hclosed _ _ _ ihtest ihthen ihelse =>
    simp only [List.forall_mem_cons, List.forall_mem_append] at hts
    intro hexact
    refine .cond (fun _ => hclosed)
      (ihtest hts.2.1 (hexact.mono fun n hn => by simp [Stmt.nodes, hn]))
      (ihthen hts.2.2.1 (hexact.mono fun n hn => by simp [Stmt.nodes, hn])) ?_
    rintro s ⟨⟩
    exact ihelse hts.2.2.2.2 (hexact.mono fun n hn => by simp [Stmt.nodes, Stmt.optionNodes, hn])
  case whileLoop ihtest ihbody =>
    simp only [List.forall_mem_cons, List.forall_mem_append] at hts
    intro hexact
    refine .whileLoop (ihtest hts.2.1 (hexact.mono fun n hn => by simp [Stmt.nodes, hn]))
      fun s hs => ihbody hts.2.2 s hs (hexact.mono fun n hn => ?_)
    simp [Stmt.nodes, Block.mem_nodes hs _ hn]
  case forLoop ihinit ihtest ihpost ihbody =>
    simp only [List.forall_mem_cons, List.forall_mem_append] at hts
    intro hexact
    have hinit := ihinit hts.2.2.1
    have hpost := ihpost hts.2.2.2.2.2.2.1
    refine .forLoop (fun s hs => (hinit s hs).1) (fun s hs => (hpost s hs).1)
      (fun s hs => (hinit s hs).2 (hexact.mono fun n hn => ?_))
      (fun e he => ihtest hts.2.2.2.2.1 e he (hexact.mono fun n hn => ?_))
      (fun s hs => (hpost s hs).2 (hexact.mono fun n hn => ?_))
      fun s hs => ihbody hts.2.2.2.2.2.2.2.2 s hs (hexact.mono fun n hn => ?_)
    · simp [Stmt.nodes, Stmt.mem_optionNodes hs _ hn]
    · simp [Stmt.nodes, Expr.mem_optionNodes he _ hn]
    · simp [Stmt.nodes, Stmt.mem_optionNodes hs _ hn]
    · simp [Stmt.nodes, Block.mem_nodes hs _ hn]
  case clauseNone =>
    intro s hs
    cases hs
  case clauseSome ih =>
    rintro s ⟨⟩
    exact ⟨isSimple_toStmt _ _, fun hexact => (ih hts hexact.of_toStmt).toStmt _⟩
  case forBare hkind _ _ _ ihseq ihbody =>
    simp only [List.forall_mem_cons, List.forall_mem_append] at hts
    intro hexact
    refine .forIn (hts.2.1.isName hkind) (fun id hid => (by cases hid))
      (ihseq hts.2.2.2.1 (hexact.mono fun n hn => by simp [Stmt.nodes, hn]))
      fun s hs => ihbody hts.2.2.2.2 s hs (hexact.mono fun n hn => ?_)
    simp [Stmt.nodes, Block.mem_nodes hs _ hn]
  case forParens hkind _ _ _ _ ihseq ihbody =>
    simp only [List.forall_mem_cons, List.forall_mem_append] at hts
    intro hexact
    refine .forIn (hts.2.2.1.isName hkind) (fun id hid => (by cases hid))
      (ihseq hts.2.2.2.2.1 (hexact.mono fun n hn => by simp [Stmt.nodes, hn]))
      fun s hs => ihbody hts.2.2.2.2.2.2 s hs (hexact.mono fun n hn => ?_)
    simp [Stmt.nodes, Block.mem_nodes hs _ hn]
  case forGrouped ihnames ihseq ihbody =>
    simp only [List.forall_mem_cons, List.forall_mem_append] at hts
    intro hexact
    obtain ⟨hkey, hothers⟩ := List.forall_mem_cons.1 (List.forall_mem_map.1 (ihnames hts.2.2.2.1))
    refine .forIn hkey (fun id hid => hothers id (List.mem_of_head? hid))
      (ihseq hts.2.2.2.2.2.2.1 (hexact.mono fun n hn => by simp [Stmt.nodes, hn]))
      fun s hs => ihbody hts.2.2.2.2.2.2.2.2 s hs (hexact.mono fun n hn => ?_)
    simp [Stmt.nodes, Block.mem_nodes hs _ hn]
  case forOutside ihnames ihseq ihbody =>
    simp only [List.forall_mem_cons, List.forall_mem_append] at hts
    intro hexact
    obtain ⟨hkey, hothers⟩ := List.forall_mem_cons.1 (List.forall_mem_map.1 (ihnames hts.2.2.1))
    refine .forIn hkey (fun id hid => hothers id (List.mem_of_head? hid))
      (ihseq hts.2.2.2.2.2.1 (hexact.mono fun n hn => by simp [Stmt.nodes, hn]))
      fun s hs => ihbody hts.2.2.2.2.2.2 s hs (hexact.mono fun n hn => ?_)
    simp [Stmt.nodes, Block.mem_nodes hs _ hn]
  case switch ihvalue iharms =>
    simp only [List.forall_mem_cons, List.forall_mem_append] at hts
    intro hexact
    obtain ⟨hcases, hdefaults⟩ := iharms hts.2.2.2.1
    refine .switch (ihvalue hts.2.1 (hexact.mono fun n hn => by simp [Stmt.nodes, hn]))
      (fun pos values body hc => (hcases pos values body (mem_of_getLeft? hc)).1)
      (fun pos values body hc e he => (hcases pos values body (mem_of_getLeft? hc)).2.1 e he ?_)
      (fun pos values body hc s hs => (hcases pos values body (mem_of_getLeft? hc)).2.2 s hs ?_)
      fun body hbody s hs => hdefaults body (inr_mem_of_getLast? hbody) s hs ?_
    · refine hexact.mono fun n hn => ?_
      have hsub : n ∈ (SwitchCase.mk pos values body).nodes := by
        simp [SwitchCase.nodes, Expr.mem_listNodes he _ hn]
      simp [Stmt.nodes, SwitchCase.mem_listNodes hc _ hsub]
    · refine hexact.mono fun n hn => ?_
      have hsub : n ∈ (SwitchCase.mk pos values body).nodes := by
        simp [SwitchCase.nodes, Block.mem_nodes hs _ hn]
      simp [Stmt.nodes, SwitchCase.mem_listNodes hc _ hsub]
    · refine hexact.mono fun n hn => ?_
      rw [Stmt.nodes]
      exact List.mem_cons_of_mem _ (List.mem_append_right _ (Block.mem_optionNodes hbody hs n hn))
  case switchNil => exact ⟨fun _ _ _ h => (by cases h), fun _ h => (by cases h)⟩
  case switchSeparator ih =>
    rw [List.forall_mem_cons] at hts
    exact ih hts.2
  case switchCase hne _ _ _ ihvalues ihbody ih =>
    simp only [List.forall_mem_cons, List.forall_mem_append] at hts
    obtain ⟨hcases, hdefaults⟩ := ih hts.2.2.2
    refine ⟨fun pos values body hmem => ?_, fun body hmem => ?_⟩
    · rcases List.mem_cons.1 hmem with heq | hmem
      · cases heq
        exact ⟨hne, List.forall_mem_map.1 (ihvalues hts.2.1), ihbody hts.2.2.1⟩
      · exact hcases pos values body hmem
    · rcases List.mem_cons.1 hmem with heq | hmem
      · cases heq
      · exact hdefaults body hmem
  case switchDefault ihbody ih =>
    simp only [List.forall_mem_cons, List.forall_mem_append] at hts
    obtain ⟨hcases, hdefaults⟩ := ih hts.2.2
    refine ⟨fun pos values body hmem => ?_, fun body hmem => ?_⟩
    · rcases List.mem_cons.1 hmem with heq | hmem
      · cases heq
      · exact hcases pos values body hmem
    · rcases List.mem_cons.1 hmem with heq | hmem
      · cases heq
        exact ihbody hts.2.1
      · exact hdefaults body hmem
  case tryCatch hsome _ _ _ ihbody ihhandler ihfinalizer =>
    simp only [List.forall_mem_cons, List.forall_mem_append] at hts
    intro hexact
    have hhandler := ihhandler hts.2.2.1
    refine .tryCatch hsome (fun pos name body hc => (hhandler pos name body hc).1)
      (fun s hs => ihbody hts.2.1 s hs (hexact.mono fun n hn => ?_))
      (fun pos name body hc s hs => (hhandler pos name body hc).2 s hs (hexact.mono fun n hn => ?_))
      fun body hbody s hs => ihfinalizer hts.2.2.2 body hbody s hs (hexact.mono fun n hn => ?_)
    · simp [Stmt.nodes, Block.mem_nodes hs _ hn]
    · obtain rfl := Option.mem_def.1 hc
      simp [Stmt.nodes, CatchClause.optionNodes, CatchClause.nodes, Block.mem_nodes hs _ hn]
    · simp [Stmt.nodes, Block.mem_optionNodes hbody hs _ hn]
  case handlerNone =>
    intro pos name body h
    cases h
  case handlerPlain ih =>
    rw [List.forall_mem_cons] at hts
    rintro pos name body ⟨⟩
    exact ⟨fun id hid => (by cases hid), ih hts.2⟩
  case handlerNamed hkind _ _ ih =>
    simp only [List.forall_mem_cons] at hts
    rintro pos name body ⟨⟩
    refine ⟨?_, ih hts.2.2.2.2⟩
    rintro id ⟨⟩
    exact hts.2.2.1.isName hkind
  case finalizerNone =>
    intro body h
    cases h
  case finalizerSome ih =>
    rw [List.forall_mem_cons] at hts
    rintro body ⟨⟩
    exact ih hts.2

end Grammar

end Welle
