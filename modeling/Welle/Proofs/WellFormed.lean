import Welle.Proofs.Parser.Statement

set_option autoImplicit false

/-! # Trees that are well formed

`wellFormed` says of a tree, node by node, what the types of its nodes leave open: where a spread may
stand, what can be assigned to, which lists are not empty, and to which `if` an `else` belongs. It can
be evaluated on every tree.

Every tree that the grammar derives is well formed, whether tokens are left out of it or not, and so
is the program of every text. -/

namespace Welle

/-! ## Parts of nodes -/

/-- Whether an expression can be assigned to: a name, an index or a member. -/
def Expr.isPlace : Expr → Bool
  | ident _ | index .. | member .. => true
  | _ => false

/-- Whether an expression is a name. -/
def Expr.isName : Expr → Bool
  | ident _ => true
  | _ => false

/-- Whether an expression is a name or a member, which can tag a template. -/
def Expr.isNameOrMember : Expr → Bool
  | ident _ | member .. => true
  | _ => false

/-- Whether an expression is an assignment. -/
def Expr.isAssign : Expr → Bool
  | assign .. => true
  | _ => false

/-- Whether a statement declares something that a module can export. -/
def Stmt.isDeclaration : Stmt → Bool
  | func .. => true
  | assign _ _ op _ => !op.isCompound
  | _ => false

/-- Whether a target is a name for a value nobody looks at, which has a target of its own. -/
def Target.isDiscardedName : Target → Bool
  | name id => id.isDiscard
  | discard _ | starred _ => false

/-! ## Trees -/

mutual

/-- Whether all nodes of an expression are well formed. A spread is no expression of its own. -/
def Expr.wellFormed : Expr → Bool
  | .ident _ | .float .. | .str .. | .bool .. | .nil .. => true
  | .int _ value => 0 ≤ value
  | .tuple _ items | .list _ items => Expr.listWellFormed items
  | .dict _ entries => DictEntry.listWellFormed entries
  | .template _ tag parts exprs =>
    parts.length = exprs.length + 1 && tag.all Expr.isNameOrMember && Expr.optionWellFormed tag
      && Expr.listWellFormed exprs
  | .func _ _ body => body.wellFormed
  | .unary _ _ operand => operand.wellFormed
  | .binary _ _ left right => left.wellFormed && right.wellFormed
  | .ternary _ cond thenE elseE => cond.wellFormed && thenE.wellFormed && elseE.wellFormed
  | .conditional _ thenE cond elseE => thenE.wellFormed && cond.wellFormed && elseE.wellFormed
  | .assign _ target op value =>
    target.isPlace && (op ≠ .walrus || target.isName) && target.wellFormed && value.wellFormed
  | .spread .. => false
  | .call _ callee args => callee.wellFormed && Expr.argsWellFormed args
  | .index _ object index => object.wellFormed && index.wellFormed
  | .slice _ object low high step =>
    object.wellFormed && Expr.optionWellFormed low && Expr.optionWellFormed high
      && Expr.optionWellFormed step
  | .member _ object _ => object.wellFormed
  | .comprehension _ elem _ seq filter =>
    elem.wellFormed && seq.wellFormed && Expr.optionWellFormed filter
  | .select _ value arms fallback =>
    value.wellFormed && MatchArm.listWellFormed arms && Expr.optionWellFormed fallback

/-- Whether all nodes of expressions are well formed. -/
def Expr.listWellFormed : List Expr → Bool
  | [] => true
  | e :: es => e.wellFormed && Expr.listWellFormed es

/-- Whether all nodes of arguments are well formed. An argument may be spread. -/
def Expr.argsWellFormed : List Expr → Bool
  | [] => true
  | .spread _ value :: es => value.wellFormed && Expr.argsWellFormed es
  | e :: es => e.wellFormed && Expr.argsWellFormed es

/-- Whether all nodes of an expression that may be missing are well formed. -/
def Expr.optionWellFormed : Option Expr → Bool
  | none => true
  | some e => e.wellFormed

/-- Whether all nodes of a dictionary entry are well formed. -/
def DictEntry.wellFormed : DictEntry → Bool
  | .pair key value => key.wellFormed && value.wellFormed
  | .shorthand _ => true

/-- Whether all nodes of dictionary entries are well formed. -/
def DictEntry.listWellFormed : List DictEntry → Bool
  | [] => true
  | e :: es => e.wellFormed && DictEntry.listWellFormed es

/-- Whether all nodes of a case of a `match` expression are well formed. -/
def MatchArm.wellFormed : MatchArm → Bool
  | .mk _ values result => !values.isEmpty && Expr.listWellFormed values && result.wellFormed

/-- Whether all nodes of the cases of a `match` expression are well formed. -/
def MatchArm.listWellFormed : List MatchArm → Bool
  | [] => true
  | arm :: arms => arm.wellFormed && MatchArm.listWellFormed arms

/-- Whether all nodes of a block are well formed. -/
def Block.wellFormed : Block → Bool
  | .mk _ stmts => Stmt.listWellFormed stmts

/-- Whether all nodes of a block that may be missing are well formed. -/
def Block.optionWellFormed : Option Block → Bool
  | none => true
  | some body => body.wellFormed

/-- Whether all nodes of a case of a `switch` statement are well formed. -/
def SwitchCase.wellFormed : SwitchCase → Bool
  | .mk _ values body => !values.isEmpty && Expr.listWellFormed values && body.wellFormed

/-- Whether all nodes of the cases of a `switch` statement are well formed. -/
def SwitchCase.listWellFormed : List SwitchCase → Bool
  | [] => true
  | c :: cs => c.wellFormed && SwitchCase.listWellFormed cs

/-- Whether all nodes of a handler are well formed. -/
def CatchClause.wellFormed : CatchClause → Bool
  | .mk _ _ body => body.wellFormed

/-- Whether all nodes of a handler that may be missing are well formed. -/
def CatchClause.optionWellFormed : Option CatchClause → Bool
  | none => true
  | some handler => handler.wellFormed

/-- Whether all nodes of a statement are well formed. -/
def Stmt.wellFormed : Stmt → Bool
  | .expr _ value => !value.isAssign && value.wellFormed
  | .assign _ _ _ value => value.wellFormed
  | .indexAssign _ object index op value =>
    op ≠ .walrus && object.wellFormed && index.wellFormed && value.wellFormed
  | .memberAssign _ object _ op value => op ≠ .walrus && object.wellFormed && value.wellFormed
  | .destructure _ targets op value =>
    !targets.isEmpty && (targets.filter (·.isStarred)).length ≤ 1
      && (op = .assign || op = .walrus) && !targets.any Target.isDiscardedName && value.wellFormed
  | .cond _ test thenS elseS =>
    -- an `if` that ends the first branch would take the `else`
    (elseS.isNone || !thenS.endsOpen) && test.wellFormed && thenS.wellFormed
      && Stmt.optionWellFormed elseS
  | .whileLoop _ test body => test.wellFormed && body.wellFormed
  | .forLoop _ init test post body =>
    Stmt.optionWellFormed init && Expr.optionWellFormed test && Stmt.optionWellFormed post
      && body.wellFormed
  | .forIn _ _ _ seq body => seq.wellFormed && body.wellFormed
  | .switch _ value cases fallback =>
    value.wellFormed && SwitchCase.listWellFormed cases && Block.optionWellFormed fallback
  | .tryCatch _ body handler finalizer =>
    (handler.isSome || finalizer.isSome) && body.wellFormed && CatchClause.optionWellFormed handler
      && Block.optionWellFormed finalizer
  | .func _ _ _ body => body.wellFormed
  | .importFrom _ _ items => !items.isEmpty
  | .exported _ stmt => stmt.isDeclaration && stmt.wellFormed
  | .ret _ values => Expr.listWellFormed values
  | .importAs .. | .brk _ | .cont _ | .pass _ => true
  | .raise _ value => value.wellFormed
  | .defer _ call => call.isCall && call.wellFormed
  | .block body => body.wellFormed

/-- Whether all nodes of statements are well formed. -/
def Stmt.listWellFormed : List Stmt → Bool
  | [] => true
  | s :: ss => s.wellFormed && Stmt.listWellFormed ss

/-- Whether all nodes of a statement that may be missing are well formed. -/
def Stmt.optionWellFormed : Option Stmt → Bool
  | none => true
  | some s => s.wellFormed

end

/-- Whether all nodes of a program are well formed. -/
def Program.wellFormed (program : Program) : Bool := Stmt.listWellFormed program.stmts

/-! ## Lists -/

theorem Expr.listWellFormed_iff {es : List Expr} :
    Expr.listWellFormed es = true ↔ ∀ e ∈ es, e.wellFormed = true := by
  induction es with
  | nil => simp [Expr.listWellFormed]
  | cons e es ih => simp [Expr.listWellFormed, ih]

theorem Expr.argsWellFormed_iff {es : List Expr} :
    Expr.argsWellFormed es = true ↔ ∀ e ∈ es, Expr.argsWellFormed [e] = true := by
  induction es with
  | nil => simp [Expr.argsWellFormed]
  | cons e es ih => cases e <;> simp [Expr.argsWellFormed, ih]

theorem DictEntry.listWellFormed_iff {entries : List DictEntry} :
    DictEntry.listWellFormed entries = true ↔ ∀ e ∈ entries, e.wellFormed = true := by
  induction entries with
  | nil => simp [DictEntry.listWellFormed]
  | cons e entries ih => simp [DictEntry.listWellFormed, ih]

theorem MatchArm.listWellFormed_iff {arms : List MatchArm} :
    MatchArm.listWellFormed arms = true ↔ ∀ arm ∈ arms, arm.wellFormed = true := by
  induction arms with
  | nil => simp [MatchArm.listWellFormed]
  | cons arm arms ih => simp [MatchArm.listWellFormed, ih]

theorem SwitchCase.listWellFormed_iff {cases : List SwitchCase} :
    SwitchCase.listWellFormed cases = true ↔ ∀ c ∈ cases, c.wellFormed = true := by
  induction cases with
  | nil => simp [SwitchCase.listWellFormed]
  | cons c cases ih => simp [SwitchCase.listWellFormed, ih]

/-! ## Templates -/

/-- Texts and interpolations alternate, and a text stands at either end. -/
theorem Template.length_texts_split (body : String) (origin : Position) :
    2 * (Template.texts (Template.split body origin)).length
      = (Template.split body origin).length + 1 := by
  have hsplit (pos : Position) (cs : List Char) :
      2 * (Template.texts (Template.splitFrom pos cs).2).length
        = (Template.splitFrom pos cs).2.length := by
    fun_induction Template.splitFrom pos cs with
    | case1 => rfl
    | case2 => rfl
    | case3 pos e rest inner ih => exact ih
    | case4 pos c cs hc hopen source origin behind ih =>
      have hbehind : 2 * (Template.texts behind.2).length = behind.2.length := by
        simp only [behind]
        split
        next rest hrest => exact ih rest hrest
        next => rfl
      simp only [Template.texts, List.filterMap_cons, List.length_cons] at hbehind ⊢
      omega
    | case5 pos c cs _ _ inner ih => exact ih
  have hbehind := hsplit origin body.toList
  simp only [Template.split, Template.texts, List.filterMap_cons, List.length_cons] at hbehind ⊢
  omega

/-- An integer literal is not negative: a sign in front of it is an operator. -/
theorem Numeral.nonneg_of_parse {literal : String} {value : Int}
    (h : Numeral.parse literal = .ok (.int value)) : 0 ≤ value := by
  unfold Numeral.parse at h
  rcases hchecked : Numeral.normalize literal with e | checked
  · rw [hchecked] at h
    cases h
  · simp only [hchecked, bind, Except.bind] at h
    split at h
    · split at h <;> cases h
    · split at h
      · obtain rfl := Numeral.Number.int.inj (Except.ok.inj h)
        exact Int.natCast_nonneg _
      · cases h

/-! ## What the grammar derives -/

namespace Grammar

/-- Whether all nodes of an item are well formed. -/
def Item.wellFormed : Item → Bool
  | expr e => e.wellFormed
  | arg e => Expr.argsWellFormed [e]
  | entry e => e.wellFormed
  | target t => !t.isDiscardedName
  | name _ | imported _ => true

/-- The parts of a phrase are well formed. The interpolations of a template are as many as its
    segments that are no texts. -/
def Phrase.WellFormed : Phrase → Prop
  | item i => i.wellFormed = true
  | items is | more is => ∀ i ∈ is, i.wellFormed = true
  | holes segments es =>
    es.length + (Template.texts segments).length = segments.length ∧ Expr.listWellFormed es = true
  | part e | step e | filter e => Expr.optionWellFormed e = true
  | condition e | result e => e.wellFormed = true
  | matchArms found => ∀ x ∈ found, x.elim MatchArm.wellFormed Expr.wellFormed = true
  | block body => body.wellFormed = true
  | switchArms found => ∀ x ∈ found, x.elim SwitchCase.wellFormed Block.wellFormed = true
  | clause s => Stmt.optionWellFormed s = true
  | handler h => CatchClause.optionWellFormed h = true
  | finalizer body => Block.optionWellFormed body = true
  | stmt s => s.wellFormed = true
  | stmts ss => Stmt.listWellFormed ss = true
  | params _ | asName _ => True

namespace Phrase.WellFormed

theorem exprs {es : List Expr} (h : (Phrase.items (es.map .expr)).WellFormed) :
    Expr.listWellFormed es = true :=
  Expr.listWellFormed_iff.2 (List.forall_mem_map.1 h)

theorem args {es : List Expr} (h : (Phrase.items (es.map .arg)).WellFormed) :
    Expr.argsWellFormed es = true :=
  Expr.argsWellFormed_iff.2 (List.forall_mem_map.1 h)

theorem entries {es : List DictEntry} (h : (Phrase.items (es.map .entry)).WellFormed) :
    DictEntry.listWellFormed es = true :=
  DictEntry.listWellFormed_iff.2 (List.forall_mem_map.1 h)

theorem targets {ts : List Target} (h : (Phrase.items (ts.map .target)).WellFormed) :
    ts.any Target.isDiscardedName = false := by
  rw [List.any_eq_false]
  intro t ht
  simpa [Item.wellFormed] using h (.target t) (List.mem_map_of_mem ht)

theorem matchCases {found : List (MatchArm ⊕ Expr)} (h : (Phrase.matchArms found).WellFormed) :
    MatchArm.listWellFormed (found.filterMap Sum.getLeft?) = true := by
  rw [MatchArm.listWellFormed_iff]
  intro arm harm
  obtain ⟨x, hx, hleft⟩ := List.mem_filterMap.1 harm
  rw [Sum.getLeft?_eq_some_iff] at hleft
  subst hleft
  exact h _ hx

theorem switchCases {found : List (SwitchCase ⊕ Block)} (h : (Phrase.switchArms found).WellFormed) :
    SwitchCase.listWellFormed (found.filterMap Sum.getLeft?) = true := by
  rw [SwitchCase.listWellFormed_iff]
  intro c hc
  obtain ⟨x, hx, hleft⟩ := List.mem_filterMap.1 hc
  rw [Sum.getLeft?_eq_some_iff] at hleft
  subst hleft
  exact h _ hx

theorem matchDefault {found : List (MatchArm ⊕ Expr)} (h : (Phrase.matchArms found).WellFormed) :
    Expr.optionWellFormed (found.filterMap Sum.getRight?).getLast? = true := by
  cases hlast : (found.filterMap Sum.getRight?).getLast? with
  | none => rfl
  | some e => exact h _ (inr_mem_of_getLast? hlast)

theorem switchDefault {found : List (SwitchCase ⊕ Block)}
    (h : (Phrase.switchArms found).WellFormed) :
    Block.optionWellFormed (found.filterMap Sum.getRight?).getLast? = true := by
  cases hlast : (found.filterMap Sum.getRight?).getLast? with
  | none => rfl
  | some body => exact h _ (inr_mem_of_getLast? hlast)

/-- What a template is made of: its texts are one more than its interpolations. -/
theorem template {body : String} {origin : Position} {es : List Expr}
    (h : (Phrase.holes (Template.split body origin) es).WellFormed) :
    (Template.texts (Template.split body origin)).length = es.length + 1 := by
  have hsplit := Template.length_texts_split body origin
  have hholes := h.1
  omega

/-- An assignment to a name, an index or a member has a statement of its own, so what is left is no
    assignment. -/
theorem toStmt {start : Position} {e : Expr} (h : e.wellFormed = true) :
    (Parser.toStmt start e).wellFormed = true := by
  unfold Parser.toStmt
  split
  · simpa [Stmt.wellFormed, Expr.wellFormed, Expr.isPlace, Expr.isName] using h
  · simpa [Stmt.wellFormed, Expr.wellFormed, Expr.isPlace, Expr.isName, and_assoc] using h
  · simpa [Stmt.wellFormed, Expr.wellFormed, Expr.isPlace, Expr.isName] using h
  next hname hindex hmember =>
    have hassign : e.isAssign = false := by
      cases e with
      | assign pos target op value =>
        cases target with
        | ident id => exact (hname _ _ _ _ rfl).elim
        | index pos' object index => exact (hindex _ _ _ _ _ _ rfl).elim
        | member pos' object name => exact (hmember _ _ _ _ _ _ rfl).elim
        | _ => simp [Expr.wellFormed, Expr.isPlace] at h
      | _ => rfl
    simp [Stmt.wellFormed, hassign, h]

end Phrase.WellFormed

theorem isPlace_of_isAssignable {op : AssignOp} {e : Expr} (h : Parser.isAssignable op e = true) :
    e.isPlace = true ∧ (op ≠ .walrus ∨ e.isName = true) := by
  cases e <;> simp_all [Parser.isAssignable, Expr.isPlace, Expr.isName]

theorem plain_of_destructuringOp? {kind : Token.Kind} {op : AssignOp}
    (h : Parser.destructuringOp? kind = some op) : op = .assign ∨ op = .walrus := by
  obtain ⟨-, hplain⟩ := Option.filter_eq_some_iff.1 h
  cases op <;> simp_all [AssignOp.isCompound, AssignOp.infixOp?]

/-- Phrases that can be derived are well formed, also where tokens are left out. -/
theorem Derives.wellFormed {S : Prop} {ts : List Token} {phrase : Phrase} (h : Derives S ts phrase) :
    phrase.WellFormed := by
  induction h
  case tuple hitems ih => exact .exprs ih
  case list hitems ih => exact .exprs ih
  case dict hitems ih => exact .entries ih
  case ret hitems ih => exact .exprs ih
  case call hcallee hargs ih ih' =>
    simp only [Phrase.WellFormed, Item.wellFormed, Expr.wellFormed, Bool.and_eq_true] at ih ⊢
    exact ⟨ih, ih'.args⟩
  case int hvalue => simpa [Phrase.WellFormed, Item.wellFormed, Expr.wellFormed] using
    Numeral.nonneg_of_parse hvalue
  case simple ih => exact .toStmt ih
  case clauseSome ih => exact .toStmt ih
  case arg ts e he ih =>
    -- a spread is no expression, so this argument is none
    cases e <;> simp_all [Phrase.WellFormed, Item.wellFormed, Expr.wellFormed, Expr.argsWellFormed]
  case template t es ht hholes ih =>
    have hlength := ih.template
    simpa [Phrase.WellFormed, Item.wellFormed, Expr.wellFormed, Expr.optionWellFormed] using
      And.intro hlength ih.2
  case tagged t ts tag es ht htag hts hholes ihtag ih =>
    have hname : tag.isNameOrMember = true := by
      cases tag <;> simp_all [Parser.isTag, Expr.isNameOrMember]
    have htag' : tag.wellFormed = true := ihtag
    simp [Phrase.WellFormed, Item.wellFormed, Expr.wellFormed, Expr.optionWellFormed, hname, htag',
      ih.template, ih.2]
  case select hvalue harms ih ih' =>
    have hvalue' := ih
    simp only [Phrase.WellFormed, Item.wellFormed, Expr.wellFormed, Bool.and_eq_true] at hvalue' ⊢
    exact ⟨⟨hvalue', ih'.matchCases⟩, ih'.matchDefault⟩
  case switch hvalue harms ih ih' =>
    have hvalue' := ih
    simp only [Phrase.WellFormed, Stmt.wellFormed, Bool.and_eq_true] at hvalue' ⊢
    exact ⟨⟨hvalue', ih'.switchCases⟩, ih'.switchDefault⟩
  case matchCase hword hne hvalues hresult hfound ih ih' ih'' =>
    have hresult' : Expr.wellFormed _ = true := ih'
    refine List.forall_mem_cons.2 ⟨?_, ih''⟩
    simp [MatchArm.wellFormed, hne, ih.exprs, hresult']
  case switchCase hword hne hvalues hbody hfound ih ih' ih'' =>
    have hbody' : Block.wellFormed _ = true := ih'
    refine List.forall_mem_cons.2 ⟨?_, ih''⟩
    simp [SwitchCase.wellFormed, hne, ih.exprs, hbody']
  case matchDefault hword hresult hfound ih ih' => exact List.forall_mem_cons.2 ⟨ih, ih'⟩
  case switchDefault hword hbody hfound ih ih' => exact List.forall_mem_cons.2 ⟨ih, ih'⟩
  case assign hop hassignable htarget hvalue ih ih' =>
    obtain ⟨hplace, hname⟩ := isPlace_of_isAssignable hassignable
    simp only [Phrase.WellFormed, Item.wellFormed, Expr.wellFormed] at ih ih' ⊢
    simp [hplace, hname, ih, ih']
  case destructure hl hr hop hne hfew htargets hvalue ih ih' =>
    have hplain := plain_of_destructuringOp? hop
    have hvalue' : Expr.wellFormed _ = true := ih'
    simp only [Phrase.WellFormed, Stmt.wellFormed]
    simp [hne, hfew, hplain, ih.targets, hvalue']
  case exported word ts s hword hexportable hs ih =>
    have hdeclares : s.isDeclaration = true := by
      cases s <;> simp_all [Parser.isExportable, Stmt.isDeclaration]
    simpa [Phrase.WellFormed, Stmt.wellFormed, hdeclares] using ih
  case targetName t ht hname =>
    simpa [Phrase.WellFormed, Item.wellFormed, Target.isDiscardedName, Ident.isDiscard] using hname
  case targetDiscard => rfl
  case targetStarred => rfl
  case holesNil => exact ⟨rfl, rfl⟩
  case holesText value segments es hholes ih =>
    refine ⟨?_, ih.2⟩
    have hlength := ih.1
    simp only [Template.texts, List.filterMap_cons, List.length_cons] at hlength ⊢
    omega
  case holesHole source origin opening segments e es he hholes ih ih' =>
    have hexpr : e.wellFormed = true := ih
    have hlength := ih'.1
    refine ⟨?_, by simp [Expr.listWellFormed, hexpr, ih'.2]⟩
    simp only [Template.texts, List.filterMap_cons, List.length_cons] at hlength ⊢
    omega
  all_goals
    simp only [Phrase.WellFormed, Item.wellFormed, Expr.wellFormed, DictEntry.wellFormed,
      Block.wellFormed, Stmt.wellFormed, CatchClause.wellFormed, Expr.optionWellFormed,
      Block.optionWellFormed, Stmt.optionWellFormed, CatchClause.optionWellFormed,
      Stmt.listWellFormed, Expr.argsWellFormed, Bool.and_eq_true] at *
  all_goals grind

end Grammar

/-- The program of every text is well formed, also when its parse reports errors. -/
theorem Program.wellFormed_parse (text : String) : (Program.parse text).program.wellFormed = true := by
  obtain ⟨used, -, hread⟩ := Program.derives_ofTokens (Token.tokenize text)
  -- nothing is asked of the diagnostics
  have hderives := hread False (by simp)
  exact hderives.wellFormed

/-- A spread outside of a call is a tree, and no text is read as it. -/
example : (Stmt.expr ⟨1, 1⟩ (.spread ⟨1, 1⟩ (.nil ⟨1, 4⟩))).wellFormed = false := by
  decide

end Welle
