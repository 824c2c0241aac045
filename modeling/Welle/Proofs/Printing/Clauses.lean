import Welle.Proofs.Printing.Blocks
import Welle.Proofs.Printing.Parentheses

set_option autoImplicit false

/-! # Printed expressions and assignments as statements

A clause is an expression or an assignment. It is read as an expression first, and an assignment to a
name, an index or a member becomes a statement of its own. As a statement it may start with a
parenthesis; what stands in it is tried as targets, in vain. -/

namespace Welle

open Token (Shape mark shape nameToken Fenced Starts)

/-- How a clause starts: with an operand, behind whose name no list goes on, and no name stands
    directly behind the word `func`. -/
def Token.StartsClause (ss : List Shape) : Prop :=
  ∃ s rest, ss = s :: rest ∧ s.1.isOperandStart = true
    ∧ (s.1 = .ident → ∀ next ∈ rest.head?, next.1 ∉ [.comma, .rparen, .kwIn, .newline])
    ∧ (s.1 = .kwFunc → ∃ next ∈ rest.head?, next.1 = .lparen)

theorem Token.Starts.startsClause {ss : List Shape} (h : Starts ss) : Token.StartsClause ss := by
  obtain ⟨s, rest, rfl, hs, hname, hfunc⟩ := h
  refine ⟨s, rest, rfl, hs, fun hident next hnext => ?_, hfunc⟩
  rcases hname hident next hnext with h | h | h <;> rw [h] <;> decide

/-- More tokens behind an operand do not matter if they go on with no list. -/
theorem Token.Starts.startsClause_append {ss : List Shape} (h : Starts ss) {next : Shape}
    (hnext : next.1 ∉ [.comma, .rparen, .kwIn, .newline]) (rest : List Shape) :
    Token.StartsClause (ss ++ next :: rest) := by
  obtain ⟨s, tail, rfl, hs, hname, hfunc⟩ := h.startsClause
  refine ⟨s, tail ++ next :: rest, rfl, hs, fun hident => ?_, fun hkind => ?_⟩
  · cases tail with
    | nil =>
      intro t ht
      rwa [← Option.some.inj ht]
    | cons t tail => exact hname hident
  · obtain ⟨t, ht, hparen⟩ := hfunc hkind
    obtain ⟨tail, rfl⟩ := List.head?_eq_some_iff.1 ht
    exact ⟨t, rfl, hparen⟩

namespace Parser

variable {g : Grammar} {ts us rest : List Token} {t next : Token} {e : Expr} {s : Stmt}

/-! ## The statement that an expression stands for -/

theorem toStmt_unplaced (p : Position) (e : Expr) :
    (toStmt p e).unplaced = toStmt .start e.unplaced := by
  cases e with
  | assign pos target op value => cases target <;> rfl
  | _ => rfl

theorem toStmt_congr {e e' : Expr} (h : e.unplaced = e'.unplaced) (p q : Position) :
    (toStmt p e).unplaced = (toStmt q e').unplaced := by
  rw [toStmt_unplaced, toStmt_unplaced, h]

theorem toStmt_reread (p : Position) (e : Expr) : toStmt p e.reread = (toStmt p e).reread := by
  cases e with
  | assign pos target op value => cases target <;> rfl
  | _ => rfl

/-! ## Clauses -/

/-- A grammar reads the tokens of a clause as what its text stands for. -/
structure IsClause (g : Grammar) (s : Stmt) : Prop where
  starts : Token.StartsClause s.tokens
  fences : Fenced s.tokens
  takes : ∀ {ts rest : List Token} {next : Token}, ts.map shape = s.tokens →
    stops .lowest next.kind = true →
    Takes Stmt.unplaced (simpleStatement g) ts (next :: rest) s.reread

/-- A clause is read as an expression. -/
theorem takes_simpleStatement {p : Position} (hstarts : Token.StartsClause s.tokens)
    (hts : ts.map shape = s.tokens) (h : Leads g .lowest ts (next :: rest) e)
    (hstop : stops .lowest next.kind = true) (hs : (toStmt p e).unplaced = s.reread.unplaced) :
    Takes Stmt.unplaced (simpleStatement g) ts (next :: rest) s.reread := by
  obtain ⟨head, tail, htokens, hhead, -⟩ := hstarts
  obtain ⟨t, us, rfl, ht, -⟩ := List.map_eq_cons_iff.1 (hts.trans htokens)
  have hline : t.kind ≠ .newline := by
    intro heq
    rw [← show t.kind = head.1 from congrArg Prod.fst ht, heq] at hhead
    cases hhead
  unfold simpleStatement
  refine .current_bind hline ?_
  refine .bind_last (h.takes hstop) fun e' he' => .pure ?_
  rw [← hs, toStmt_congr he' t.pos p]

theorem isClause_expr {pos : Position} (hsimple : toStmt pos e = .expr pos e)
    (hfenced : Fenced e.tokens) (he : IsLed g e) : IsClause g (.expr pos e) := by
  refine ⟨he.starts.startsClause, hfenced, fun hts hstop => ?_⟩
  refine takes_simpleStatement (p := pos) he.starts.startsClause hts (he.leads hts (by decide)) hstop ?_
  rw [toStmt_reread, hsimple]

/-- The operator and the value of an assignment behind its target. -/
theorem Leads.assign {pos : Position} {op : AssignOp} {target value : Expr} {us : List Token}
    (htarget : Leads g .lowest ts (t :: (us ++ next :: rest)) target)
    (hassignable : isAssignable op target = true) (hvalue : IsRead g value)
    (htokens : (t :: us).map shape = mark op.kind :: value.tokens)
    (hstop : stops .lowest next.kind = true) :
    Leads g .lowest (ts ++ t :: us) (next :: rest) (.assign pos target op value.reread) := by
  have hkind : t.kind = op.kind := congrArg Prod.fst (List.cons.inj htokens).1
  obtain ⟨hstrength, htemplate⟩ := op.ofKind?_precedence
  rw [← hkind] at hstrength htemplate
  refine htarget.operation hstrength (by decide) (fun h => absurd h htemplate) fun left' hleft' => ?_
  exact takes_assign hvalue hassignable hleft' (by decide) htokens hstop

/-- An assignment is read as the statement that it stands for. -/
theorem isClause_assign {pos : Position} {name : Ident} {op : AssignOp} {value : Expr}
    (hvalue : IsRead g value) : IsClause g (.assign pos name op value) := by
  have hstarts : Token.StartsClause (Stmt.assign pos name op value).tokens := by
    refine ⟨nameToken name, _, rfl, rfl, fun _ next hnext => ?_, fun hfunc => (by cases hfunc)⟩
    rw [← Option.some.inj hnext]
    cases op <;> decide
  refine ⟨hstarts, Token.fenced_of_ne Token.Kind.noConfusion _, fun {_ rest next} hts hstop => ?_⟩
  obtain ⟨t, us, rfl, ht, hus⟩ := List.map_eq_cons_iff.1 hts
  obtain ⟨sign, us, rfl, hsign, hvalueTokens⟩ := List.map_eq_cons_iff.1 hus
  have htarget : Leads g .lowest [t] (sign :: (us ++ next :: rest)) (.ident name) :=
    .of_operand (takes_ident ht)
  have hassign : Leads g .lowest (t :: sign :: us) (next :: rest)
      (.assign pos (.ident name) op value.reread) := htarget.assign rfl hvalue hus hstop
  exact takes_simpleStatement (p := pos) hstarts hts hassign hstop rfl

/-- An assignment to an index is read as the statement that it stands for. -/
theorem isClause_indexAssign {pos : Position} {object index value : Expr} {op : AssignOp}
    (hop : op ≠ .walrus) (hfenced : Fenced object.tokens) (hobject : IsLed g object)
    (hindex : IsRead g index) (hvalue : IsRead g value) :
    IsClause g (.indexAssign pos object index op value) := by
  have hstarts : Token.StartsClause (Stmt.indexAssign pos object index op value).tokens :=
    hobject.starts.startsClause_append (by decide) _
  refine ⟨hstarts, hfenced.append rfl _, fun {_ rest next} hts hstop => ?_⟩
  obtain ⟨ts, us, rfl, hobjectTokens, hbehind⟩ := List.map_eq_append_iff.1 hts
  obtain ⟨l, us, rfl, hl, hinside⟩ := List.map_eq_cons_iff.1 hbehind
  obtain ⟨is, us, rfl, hindexTokens, hclose⟩ := List.map_eq_append_iff.1 hinside
  obtain ⟨r, us, rfl, hr, hus⟩ := List.map_eq_cons_iff.1 hclose
  obtain ⟨sign, us, rfl, hsign, hvalueTokens⟩ := List.map_eq_cons_iff.1 hus
  have hl' : l.kind = .lbracket := congrArg Prod.fst hl
  have hinside : (l :: (is ++ [r])).map shape
      = mark .lbracket :: (index.tokens ++ [mark .rbracket]) := by
    rw [List.map_cons, List.map_append, hl, hindexTokens, List.map_singleton, hr]
  have hplace : Leads g .lowest (ts ++ l :: (is ++ [r])) (sign :: (us ++ next :: rest))
      (.index pos object.reread index.reread) := by
    have hstrength : Precedence.ofKind? l.kind = some .postfixOp := by
      rw [hl']
      rfl
    refine (hobject.leads hobjectTokens (by decide)).operation hstrength (by decide)
      (fun h => by simp [hl'] at h) fun left' hleft' => ?_
    exact takes_index hindex hleft' hinside
  have hassignable : isAssignable op (.index pos object.reread index.reread) = true := by
    simpa [isAssignable] using hop
  have hshape : ts ++ l :: (is ++ r :: sign :: us) = (ts ++ l :: (is ++ [r])) ++ sign :: us := by simp
  rw [hshape]
  rw [hshape] at hts
  have hassign : Leads g .lowest ((ts ++ l :: (is ++ [r])) ++ sign :: us) (next :: rest)
      (.assign pos (.index pos object.reread index.reread) op value.reread) :=
    hplace.assign hassignable hvalue hus hstop
  exact takes_simpleStatement (p := pos) hstarts hts hassign hstop rfl

/-- An assignment to a member is read as the statement that it stands for. -/
theorem isClause_memberAssign {pos : Position} {object value : Expr} {name : Ident} {op : AssignOp}
    (hop : op ≠ .walrus) (hfenced : Fenced object.tokens) (hobject : IsLed g object)
    (hvalue : IsRead g value) : IsClause g (.memberAssign pos object name op value) := by
  have hstarts : Token.StartsClause (Stmt.memberAssign pos object name op value).tokens :=
    hobject.starts.startsClause_append (by decide) _
  refine ⟨hstarts, hfenced.append rfl _, fun {_ rest next} hts hstop => ?_⟩
  obtain ⟨ts, us, rfl, hobjectTokens, hbehind⟩ := List.map_eq_append_iff.1 hts
  obtain ⟨dot, us, rfl, hdot, hname⟩ := List.map_eq_cons_iff.1 hbehind
  obtain ⟨t, us, rfl, ht, hus⟩ := List.map_eq_cons_iff.1 hname
  obtain ⟨sign, us, rfl, hsign, hvalueTokens⟩ := List.map_eq_cons_iff.1 hus
  have hdot' : dot.kind = .dot := congrArg Prod.fst hdot
  have hmember : [dot, t].map shape = [mark .dot, (Token.Kind.ofWord name.name, name.name)] := by
    rw [List.map_cons, List.map_singleton, hdot, ht]
  have hplace : Leads g .lowest (ts ++ [dot, t]) (sign :: (us ++ next :: rest))
      (.member pos object.reread name) := by
    have hstrength : Precedence.ofKind? dot.kind = some .postfixOp := by
      rw [hdot']
      rfl
    refine (hobject.leads hobjectTokens (by decide)).operation hstrength (by decide)
      (fun h => by simp [hdot'] at h) fun left' hleft' => ?_
    exact takes_member hleft' hmember
  have hassignable : isAssignable op (.member pos object.reread name) = true := by
    simpa [isAssignable] using hop
  have hshape : ts ++ dot :: t :: sign :: us = (ts ++ [dot, t]) ++ sign :: us := by simp
  rw [hshape]
  rw [hshape] at hts
  have hassign : Leads g .lowest ((ts ++ [dot, t]) ++ sign :: us) (next :: rest)
      (.assign pos (.member pos object.reread name) op value.reread) :=
    hplace.assign hassignable hvalue hus hstop
  exact takes_simpleStatement (p := pos) hstarts hts hassign hstop rfl

/-! ## Clauses as statements -/

/-- The kinds of the tokens of a target and of the commas behind targets. -/
def targetKinds : List Token.Kind := [.ident, .comma, .star]

theorem mem_targetKinds_of_writesTarget {target : Target} {star : Option Token}
    (h : WritesTarget ts target star) : ∀ t ∈ ts, t.kind ∈ targetKinds := by
  cases h with
  | name ht => simp [ht, targetKinds]
  | starred hstar ht => simp [hstar, ht, targetKinds]

theorem mem_targetKinds_of_writesTargets {list : TargetList} (h : WritesTargets ts list) :
    ∀ t ∈ ts, t.kind ∈ targetKinds := by
  have hmark {comma : Token} (hcomma : comma.kind = .comma) : comma.kind ∈ targetKinds := by
    rw [hcomma]
    decide
  induction h with
  | last h => exact mem_targetKinds_of_writesTarget h
  | lastComma h hcomma =>
    simp only [List.mem_append, List.mem_singleton]
    rintro t (ht | rfl)
    · exact mem_targetKinds_of_writesTarget h t ht
    · exact hmark hcomma
  | cons h hcomma _ ih =>
    simp only [List.mem_append, List.mem_cons]
    rintro t (ht | rfl | ht)
    · exact mem_targetKinds_of_writesTarget h t ht
    · exact hmark hcomma
    · exact ih t ht

theorem isListed_of_mem_targetKinds : ∀ kind ∈ targetKinds, kind.isListed = true := by
  decide

/-- The tokens of a clause open no destructuring assignment. -/
theorem isEmpty_header (hfenced : Fenced (ts.map shape)) (hnext : next.kind.isSign = false)
    (rest : List Token) (n : Nat) (ds : List Diagnostic) : IsEmpty (Header ⟨ts ++ next :: rest, n, ds⟩) := by
  refine ⟨fun h => ?_⟩
  have htokens := congrArg (List.map shape) h.tokens
  simp only [List.map_append, List.map_cons] at htokens
  have hlisted : ∀ s ∈ h.inner.map shape, s.1.isListed = true := by
    intro s hs
    obtain ⟨t, ht, rfl⟩ := List.mem_map.1 hs
    by_cases hline : t.kind = .newline
    · simp [shape, hline, Token.Kind.isListed]
    · exact isListed_of_mem_targetKinds _ (mem_targetKinds_of_writesTargets h.targets t
        (List.mem_filter.2 ⟨ht, by simpa using hline⟩))
  have hbehind := hfenced _ _ _ _ _ htokens h.opening_kind h.close_kind hlisted
    (by simpa [shape] using hnext)
  cases hgap : h.gap with
  | nil =>
    rw [hgap] at hbehind
    have hsign : h.sign.kind.isSign = false := by simpa [shape] using hbehind
    rcases h.sign_kind with ⟨hkind, -⟩ | ⟨hkind, -⟩ <;> simp [hkind, Token.Kind.isSign] at hsign
  | cons t gap =>
    have hline := (h.gap_hidden t (hgap ▸ List.mem_cons_self)).1
    rw [hgap] at hbehind
    have hsign : t.kind.isSign = false := by simpa [shape] using hbehind
    simp [hline, Token.Kind.isSign] at hsign

/-- A clause is a statement. -/
theorem IsClause.isStated (h : IsClause g s) : IsStated (statement g) s := by
  obtain ⟨head, tail, htokens, hstart, -, hfunc⟩ := h.starts
  refine ⟨⟨head, tail, htokens, Token.Kind.isStatementStart_of_operand hstart⟩,
    fun {ts rest next} hts hends => ?_⟩
  have hnext : stops .lowest next.kind = true ∧ next.kind.isSign = false := by
    rcases Stmt.endsAt_cases hends with h | h | h | h <;> rw [h] <;> exact ⟨rfl, rfl⟩
  have hsimple : Takes Stmt.unplaced (simpleStatement g) ts (next :: rest) s.reread :=
    h.takes hts hnext.1
  obtain ⟨t, us, rfl, ht, hus⟩ := List.map_eq_cons_iff.1 (hts.trans htokens)
  have hkind : t.kind = head.1 := congrArg Prod.fst ht
  have hline : t.kind ≠ .newline := by
    intro heq
    rw [← hkind, heq] at hstart
    cases hstart
  unfold statement
  refine .currentKind_bind hline ?_
  rw [List.cons_append, headKind_cons]
  rw [← hkind] at hstart hfunc
  by_cases hparen : t.kind = .lparen
  · -- the targets that are tried are none
    have hfenced : Fenced ((t :: us).map shape) := hts ▸ h.fences
    have hnone := fun n ds => run_destructuring_of_isEmpty (g := g)
      (isEmpty_header hfenced hnext.2 rest n ds) (.cons hline _ n ds) hparen
    simp only [hparen]
    exact .look_bind hnone hsimple
  by_cases hword : t.kind = .kwFunc
  · -- a parameter list stands behind the word
    obtain ⟨u, hu, hlparen⟩ := hfunc hword
    obtain ⟨tail, rfl⟩ := List.head?_eq_some_iff.1 hu
    obtain ⟨v, vs, rfl, hv, -⟩ := List.map_eq_cons_iff.1 hus
    have hv : v.kind = .lparen := (congrArg Prod.fst hv).trans hlparen
    simp only [hword]
    refine .nextKind_bind hline (by simp [hv]) ?_
    simpa [hv] using hsimple
  · generalize t.kind = kind at hstart hparen hword
    cases kind <;> first
      | exact hsimple
      | exact absurd rfl hparen
      | exact absurd rfl hword
      | cases hstart

end Parser

end Welle
