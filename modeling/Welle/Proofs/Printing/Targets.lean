import Welle.Proofs.Printing.Clauses

set_option autoImplicit false

/-! # Printed destructurings are read back

Targets in parentheses are read as targets, unless there is one only and it is not starred: no comma
is printed behind it, so its parentheses are those of an expression, to which the value is assigned. -/

namespace Welle.Parser

open Token (Shape mark shape commas further nameToken)

variable {g : Grammar} {ts us rest : List Token} {t next : Token}

/-! ## Written targets -/

theorem exists_writesTarget {target : Target} (h : target.Printable)
    (hts : ts.map shape = target.tokens) :
    ∃ target' star, WritesTarget ts target' star ∧ target'.unplaced = target.unplaced
      ∧ star.toList.length = ([target].filter (·.isStarred)).length := by
  cases target with
  | name id =>
    obtain ⟨t, rfl, ht⟩ := List.map_eq_singleton_iff.1 hts
    have hkind : t.kind = .ident := congrArg Prod.fst ht
    have hliteral : t.literal = id.name := congrArg Prod.snd ht
    have hne : t.literal ≠ "_" := by
      intro heq
      have hdiscard := h.2
      rw [Ident.isDiscard, ← hliteral, heq] at hdiscard
      simp at hdiscard
    refine ⟨_, _, .name hkind, ?_, rfl⟩
    rw [targetOf, if_neg hne]
    simp only [Target.unplaced, Ident.unplaced, hliteral]
  | discard pos =>
    obtain ⟨t, rfl, ht⟩ := List.map_eq_singleton_iff.1 hts
    have hliteral : t.literal = "_" := congrArg Prod.snd ht
    refine ⟨_, _, .name (congrArg Prod.fst ht), ?_, rfl⟩
    rw [targetOf, if_pos hliteral]
    rfl
  | starred id =>
    obtain ⟨star, us, rfl, hstar, hus⟩ := List.map_eq_cons_iff.1 hts
    obtain ⟨t, rfl, ht⟩ := List.map_eq_singleton_iff.1 hus
    have hliteral : t.literal = id.name := congrArg Prod.snd ht
    refine ⟨_, _, .starred (congrArg Prod.fst hstar) (congrArg Prod.fst ht), ?_, rfl⟩
    simp only [Target.unplaced, Ident.unplaced, hliteral]

/-- Printed targets are written targets without a comma behind them. -/
theorem exists_writesTargets {target : Target} {targets : List Target}
    (h : ∀ target' ∈ target :: targets, target'.Printable)
    (hts : ts.map shape = commas ((target :: targets).map Target.tokens)) :
    ∃ list : TargetList, WritesTargets ts list
      ∧ list.targets.map Target.unplaced = (target :: targets).map Target.unplaced
      ∧ list.stars.length = ((target :: targets).filter (·.isStarred)).length
      ∧ list.trailingComma = false := by
  induction targets generalizing target ts with
  | nil =>
    have hts : ts.map shape = target.tokens := by simpa [commas, further] using hts
    obtain ⟨target', star, hwrites, htarget, hstar⟩ := exists_writesTarget (h _ List.mem_cons_self) hts
    exact ⟨_, .last hwrites, by simp [htarget], hstar, rfl⟩
  | cons target' targets ih =>
    rw [List.forall_mem_cons] at h
    obtain ⟨ts, us, rfl, htarget, hbehind⟩ := List.map_eq_append_iff.1 hts
    obtain ⟨comma, us, rfl, hcomma, hus⟩ := List.map_eq_cons_iff.1 hbehind
    obtain ⟨first, star, hwrites, hfirst, hstar⟩ := exists_writesTarget h.1 htarget
    obtain ⟨list, hlist, htargets, hstars, hlast⟩ := ih h.2 hus
    refine ⟨_, .cons hwrites (congrArg Prod.fst hcomma) hlist, ?_, ?_, hlast⟩
    · simp only [List.map_cons, hfirst] at htargets ⊢
      rw [htargets]
    · rw [List.length_append, hstar, hstars, ← List.length_append, ← List.filter_append,
        List.singleton_append]

/-! ## Destructuring assignments -/

variable {pos : Position} {targets : List Target} {op : AssignOp} {value : Expr}

theorem isSign_of_not_isCompound (h : op.isCompound = false) :
    ((mark op.kind).1 = .assign ∧ op = .assign) ∨ ((mark op.kind).1 = .walrus ∧ op = .walrus) := by
  cases op <;> first
    | exact .inl ⟨rfl, rfl⟩
    | exact .inr ⟨rfl, rfl⟩
    | cases h

/-- Targets are more than a name in parentheses, unless there is one alone without a star. -/
theorem several_of_loneTarget?_none {targets : List Target} (hne : targets ≠ [])
    (hlone : loneTarget? targets = none) :
    1 < targets.length ∨ (targets.filter (·.isStarred)).length ≠ 0 := by
  match targets, hne, hlone with
  | [.starred id], _, _ => exact .inr Nat.one_ne_zero
  | _ :: _ :: _, _, _ => exact .inl (by simp)

/-- Targets in parentheses that are more than a name are read as targets. -/
theorem takes_destructure (hne : targets ≠ [])
    (hstars : (targets.filter (·.isStarred)).length ≤ 1) (hop : op.isCompound = false)
    (htargets : ∀ target ∈ targets, target.Printable) (hlone : loneTarget? targets = none)
    (hvalue : IsRead g value)
    (hts : ts.map shape = (Stmt.destructure pos targets op value).tokens)
    (hstop : stops .lowest next.kind = true) :
    Takes Stmt.unplaced (statement g) ts (next :: rest)
      (.destructure pos targets op value.reread) := by
  obtain ⟨l, us, rfl, hl, hbody⟩ := List.map_eq_cons_iff.1 hts
  obtain ⟨ts, us, rfl, hinner, hbehind⟩ := List.map_eq_append_iff.1 hbody
  obtain ⟨r, us, rfl, hr, hus⟩ := List.map_eq_cons_iff.1 hbehind
  obtain ⟨sign, us, rfl, hsign, hvalueTokens⟩ := List.map_eq_cons_iff.1 hus
  have hl : l.kind = .lparen := congrArg Prod.fst hl
  have hline : l.kind ≠ .newline := by simp [hl]
  obtain ⟨target, others, rfl⟩ := List.exists_cons_of_ne_nil hne
  obtain ⟨list, hwrites, hlist, hcount, hlast⟩ := exists_writesTargets htargets hinner
  have hlength : list.targets.length = (target :: others).length := by
    simpa using congrArg List.length hlist
  have hsignificant : significant ts = ts := by
    refine List.filter_eq_self.2 fun t ht => ?_
    have hkind := mem_targetKinds_of_writesTargets hwrites t ht
    have hne : ∀ kind ∈ targetKinds, decide (kind ≠ .newline) = true := by decide
    exact hne _ hkind
  have hvalue' : Takes Expr.unplaced (g.expression .lowest) us (next :: rest) value.reread :=
    hvalue.takes hvalueTokens (by decide) hstop
  intro n ds
  obtain ⟨value', hvalue', hrun⟩ := hvalue' n ds
  let st : State := ⟨l :: (ts ++ r :: sign :: us) ++ next :: rest, n, ds⟩
  have hat : At st l := .cons hline _ n ds
  -- the tokens are the header of a destructuring
  let header : Header st :=
    { opening := l
      inner := ts
      close := r
      gap := []
      sign := sign
      rest := us ++ next :: rest
      list := list
      op := op
      tokens := by simp [st]
      opening_kind := hl
      close_kind := congrArg Prod.fst hr
      targets := hsignificant.symm ▸ hwrites
      gap_hidden := List.forall_mem_nil _
      sign_kind := by
        have hkind : sign.kind = (mark op.kind).1 := congrArg Prod.fst hsign
        rw [hkind]
        exact isSign_of_not_isCompound hop
      several := by
        rcases several_of_loneTarget?_none (List.cons_ne_nil _ _) hlone with h | h
        · exact .inl (hlength ▸ h)
        · exact .inr (.inl fun hnil => h (by rw [← hcount, hnil]; rfl)) }
  have hsecond : list.stars[1]? = none := by
    rw [List.getElem?_eq_none_iff, hcount]
    exact hstars
  have hdestructuring := run_destructuring_of_header (g := g) header hat hl
  have houtcome : header.outcome g
      = (.ok (.destructure l.pos list.targets op value'), ⟨next :: rest, n, ds⟩) := by
    rw [Header.outcome, hsecond]
    exact run_bind_ok hrun _
  rw [houtcome] at hdestructuring
  refine ⟨.destructure l.pos list.targets op value', ?_, ?_⟩
  · simp only [Stmt.unplaced, hlist, hvalue']
  · rw [statement, run_bind, run_currentKind, hat.settled, hat.current, hl]
    exact run_bind_ok hdestructuring _

/-! ## A name in parentheses -/

/-- A name alone is no list of targets that is more than a name. -/
theorem not_isTuple_of_writesTargets {list : TargetList} (h : WritesTargets [t] list) :
    list.targets.length = 1 ∧ list.stars = [] ∧ list.trailingComma = false := by
  generalize hts : [t] = ts at h
  cases h with
  | last h =>
    cases h with
    | name => exact ⟨rfl, rfl, rfl⟩
    | starred => cases hts
  | lastComma h | cons h =>
    obtain ⟨_, _, rfl, -⟩ := h.exists_cons
    simp at hts

/-- A name in parentheses opens no list of targets. -/
theorem isEmpty_header_name {l r : Token} (ht : t.kind = .ident) (hr : r.kind = .rparen)
    (us : List Token) (n : Nat) (ds : List Diagnostic) :
    IsEmpty (Header ⟨l :: t :: r :: us, n, ds⟩) := by
  refine ⟨fun h => ?_⟩
  have htokens : t :: r :: us = h.inner ++ h.close :: (h.gap ++ h.sign :: h.rest) :=
    (List.cons.inj h.tokens).2
  have hwrites := h.targets
  match hinner : h.inner, htokens with
  | [], htokens =>
    -- the parenthesis would close at the name
    have hclose := h.close_kind
    rw [← (List.cons.inj htokens).1, ht] at hclose
    cases hclose
  | [u], htokens =>
    obtain rfl : t = u := (List.cons.inj htokens).1
    have hsignificant : significant [t] = [t] := List.filter_eq_self.2 (by simp [ht])
    rw [hinner, hsignificant] at hwrites
    obtain ⟨hlength, hstars, hcomma⟩ := not_isTuple_of_writesTargets hwrites
    simpa [hlength, hstars, hcomma] using h.several
  | _ :: u :: inner, htokens =>
    -- the closing parenthesis would be one of the targets' tokens
    obtain rfl : r = u := (List.cons.inj (List.cons.inj htokens).2).1
    have hmem : r ∈ significant h.inner :=
      List.mem_filter.2 ⟨by rw [hinner]; simp, by simp [hr]⟩
    have hkind := mem_targetKinds_of_writesTargets h.targets r hmem
    rw [hr] at hkind
    exact absurd hkind (by decide)

/-- A single target without a star is read as a name in parentheses, to which the value is
    assigned. -/
theorem takes_lone {id : Ident} (hlone : loneTarget? targets = some id)
    (hname : IsRead g (.ident id)) (hvalue : IsRead g value)
    (hts : ts.map shape = (Stmt.destructure pos targets op value).tokens)
    (hstop : stops .lowest next.kind = true) :
    Takes Stmt.unplaced (statement g) ts (next :: rest) (.assign id.pos id op value.reread) := by
  have htokens : commas (targets.map Target.tokens) = [nameToken id] := by
    match targets, hlone with
    | [.name _], hlone | [.discard _], hlone =>
      obtain rfl := Option.some.inj hlone
      rfl
  rw [Stmt.tokens, htokens] at hts
  obtain ⟨l, us, rfl, hl, hbody⟩ := List.map_eq_cons_iff.1 hts
  obtain ⟨t, us, rfl, ht, hbehind⟩ := List.map_eq_cons_iff.1 hbody
  obtain ⟨r, us, rfl, hr, hus⟩ := List.map_eq_cons_iff.1 hbehind
  obtain ⟨sign, us, rfl, hsign, -⟩ := List.map_eq_cons_iff.1 hus
  have hl : l.kind = .lparen := congrArg Prod.fst hl
  have hkind : t.kind = .ident := congrArg Prod.fst ht
  have hr : r.kind = .rparen := congrArg Prod.fst hr
  -- the parentheses are those of an expression, to which the value is assigned
  have hgrouped : Takes Expr.unplaced (operand g) (l :: ([t] ++ [r])) (sign :: (us ++ next :: rest))
      (.ident id) := by
    have hnameTokens : [t].map shape = (Expr.ident id).tokens := congrArg (fun s => [s]) ht
    have hplain : (nameToken id).1 ≠ .newline ∧ (nameToken id).1 ≠ .rparen :=
      ⟨Token.Kind.noConfusion, Token.Kind.noConfusion⟩
    refine takes_grouped hl hr hnameTokens hplain ?_
    exact hname.takes hnameTokens (by decide) (by rw [hr]; rfl)
  have hassign : Leads g .lowest (l :: ([t] ++ [r]) ++ sign :: us) (next :: rest)
      (.assign id.pos (.ident id) op value.reread) :=
    (Leads.of_operand hgrouped).assign rfl hvalue hus hstop
  have hline : l.kind ≠ .newline := by simp [hl]
  unfold statement
  refine .currentKind_bind (by simp [hl]) ?_
  simp only [List.cons_append, headKind_cons, hl]
  -- the targets that are tried first are none
  have hnone := fun n ds => run_destructuring_of_isEmpty (g := g)
    (isEmpty_header_name hkind hr (sign :: (us ++ next :: rest)) n ds) (.cons hline _ n ds) hl
  refine .look_bind hnone ?_
  unfold simpleStatement
  refine .current_bind hline ?_
  refine .bind_last (hassign.takes hstop) fun e' he' => .pure ?_
  rw [toStmt_congr he' l.pos l.pos]
  rfl

/-! ## Destructuring assignments as statements -/

/-- A destructuring assignment is a statement, of the names that its text assigns to. -/
theorem isStated_destructure (hne : targets ≠ [])
    (hstars : (targets.filter (·.isStarred)).length ≤ 1) (hop : op.isCompound = false)
    (htargets : ∀ target ∈ targets, target.Printable)
    (hnames : ∀ id, IsRead g (.ident id)) (hvalue : IsRead g value) :
    IsStated (statement g) (.destructure pos targets op value) := by
  refine ⟨⟨_, _, rfl, rfl⟩, fun {ts rest next} hts hends => ?_⟩
  have hstop : stops .lowest next.kind = true := by
    rcases Stmt.endsAt_cases hends with h | h | h | h <;> rw [h] <;> rfl
  unfold Stmt.reread
  split
  next id hlone => exact takes_lone hlone (hnames id) hvalue hts hstop
  next hlone => exact takes_destructure hne hstars hop htargets hlone hvalue hts hstop

end Welle.Parser
