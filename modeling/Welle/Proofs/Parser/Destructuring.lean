import Welle.Proofs.Parser.Statement

set_option autoImplicit false

/-! # What opens a destructuring assignment

A parenthesis at the start of a statement opens a list of targets or an expression. The parser reads
a list of targets on trial and goes back if it finds none. `Header` says which tokens it takes for a
destructuring assignment; in front of all others a statement is an expression, and the trial leaves
no trace. -/

namespace Welle.Parser

open Welle.Grammar (identOf)

/-! ## Written targets -/

/-- The target that a name stands for. -/
def targetOf (t : Token) : Target :=
  if t.literal = "_" then .discard t.pos else .name (identOf t)

/-- The tokens of a target, and the star in front of it if there is one. -/
inductive WritesTarget : List Token → Target → Option Token → Prop
  | name {t : Token} : t.kind = .ident → WritesTarget [t] (targetOf t) none
  | starred {star t : Token} : star.kind = .star → t.kind = .ident →
      WritesTarget [star, t] (.starred (identOf t)) (some star)

/-- The tokens of one or more targets with commas between them; one more comma may stand behind the
    last one. -/
inductive WritesTargets : List Token → TargetList → Prop
  | last {ts : List Token} {target : Target} {star : Option Token} :
      WritesTarget ts target star → WritesTargets ts ⟨[target], star.toList, false⟩
  | lastComma {ts : List Token} {target : Target} {star : Option Token} {comma : Token} :
      WritesTarget ts target star → comma.kind = .comma →
      WritesTargets (ts ++ [comma]) ⟨[target], star.toList, true⟩
  | cons {ts us : List Token} {target : Target} {star : Option Token} {comma : Token}
      {list : TargetList} : WritesTarget ts target star → comma.kind = .comma →
      WritesTargets us list → WritesTargets (ts ++ comma :: us)
        { list with targets := target :: list.targets, stars := star.toList ++ list.stars }

theorem WritesTarget.exists_cons {ts : List Token} {target : Target} {star : Option Token}
    (h : WritesTarget ts target star) : ∃ t us, ts = t :: us ∧ t.kind ≠ .rparen ∧ t.kind ≠ .eof := by
  cases h with
  | name ht => exact ⟨_, _, rfl, by simp [ht], by simp [ht]⟩
  | starred hstar _ => exact ⟨_, _, rfl, by simp [hstar], by simp [hstar]⟩

theorem WritesTargets.exists_cons {ts : List Token} {list : TargetList} (h : WritesTargets ts list) :
    ∃ t us, ts = t :: us ∧ t.kind ≠ .rparen ∧ t.kind ≠ .eof := by
  cases h with
  | last h => exact h.exists_cons
  | lastComma h _ | cons h _ _ =>
    obtain ⟨t, us, rfl, ht⟩ := h.exists_cons
    exact ⟨t, _, rfl, ht⟩

/-! ## The cursor inside of brackets -/

section Nested

variable {n : Nat} {ds : List Diagnostic} {t : Token} {ts us inner rest : List Token} {st : State}

theorem significant_eq_cons (h : significant inner = t :: us) : ∃ gap inner', inner = gap ++ t :: inner'
    ∧ (∀ u ∈ gap, u.kind = .newline) ∧ t.kind ≠ .newline ∧ significant inner' = us := by
  obtain ⟨gap, inner', rfl, hgap, ht, hus⟩ := List.filter_eq_cons_iff.1 h
  exact ⟨gap, inner', rfl, by simpa using hgap, by simpa using ht, hus⟩

/-- Inside of brackets line feeds at the cursor are passed over. -/
theorem settle_nested (hn : 0 < n) {gap : List Token} (hgap : ∀ u ∈ gap, u.kind = .newline)
    (ht : t.kind ≠ .newline) (rest : List Token) (ds : List Diagnostic) :
    State.settle ⟨gap ++ t :: rest, n, ds⟩ = ⟨t :: rest, n, ds⟩ := by
  rw [State.settle, if_pos hn, State.dropNewlines]
  rw [List.dropWhile_append_of_pos (by simpa using hgap), List.dropWhile_cons_of_neg (by simpa using ht)]

/-- Line feeds at the cursor are passed over if it is inside of brackets. -/
theorem settle_gap {gap : List Token} (hgap : ∀ u ∈ gap, u.kind = .newline ∧ 0 < n)
    (ht : t.kind ≠ .newline) (rest : List Token) (ds : List Diagnostic) :
    State.settle ⟨gap ++ t :: rest, n, ds⟩ = ⟨t :: rest, n, ds⟩ := by
  by_cases hn : 0 < n
  · exact settle_nested hn (fun u hu => (hgap u hu).1) ht rest ds
  · have hnone : gap = [] := List.eq_nil_iff_forall_not_mem.2 fun u hu => hn (hgap u hu).2
    rw [hnone]
    exact if_neg hn

/-- The token behind line feeds is passed over. -/
theorem run_advance_gap (hn : 0 < n) {gap : List Token} (hgap : ∀ u ∈ gap, u.kind = .newline)
    (ht : t.kind ≠ .newline) (heof : t.kind ≠ .eof) (rest : List Token) (ds : List Diagnostic) :
    run advance ⟨gap ++ t :: rest, n, ds⟩ = (.ok t, ⟨rest, n, ds⟩) := by
  have hat := At.cons ht rest n ds
  have hadvance := run_advance hat heof
  rw [advance, run_bind, run_current, hat.settled] at hadvance
  rw [advance, run_bind, run_current, settle_nested hn hgap ht]
  exact hadvance

/-- The token behind line feeds is passed over if it is of the kind that is asked for. -/
theorem run_eat_gap (hn : 0 < n) {gap : List Token} (hgap : ∀ u ∈ gap, u.kind = .newline)
    (ht : t.kind ≠ .newline) (heof : t.kind ≠ .eof) (kind : Token.Kind) (rest : List Token)
    (ds : List Diagnostic) :
    run (eat kind) ⟨gap ++ t :: rest, n, ds⟩ = (.ok (decide (t.kind = kind)),
      if t.kind = kind then ⟨rest, n, ds⟩ else ⟨t :: rest, n, ds⟩) := by
  rw [eat, run_bind, run_atKind, settle_nested hn hgap ht]
  by_cases hkind : t.kind = kind
  · simp only [State.current, List.headD_cons, hkind, decide_true, if_true]
    rw [run_bind_ok (run_advance (At.cons ht rest n ds) heof)]
    rfl
  · simp [State.current, hkind]

theorem settle_nested_split (hn : 0 < n) (ts : List Token) (ds : List Diagnostic) :
    ∃ gap us, ts = gap ++ us ∧ (∀ u ∈ gap, u.kind = .newline)
      ∧ State.settle ⟨ts, n, ds⟩ = ⟨us, n, ds⟩
      ∧ At ⟨us, n, ds⟩ (State.current ⟨us, n, ds⟩) := by
  have hsettle : State.settle ⟨ts, n, ds⟩ = ⟨ts.dropWhile (·.kind = .newline), n, ds⟩ := if_pos hn
  have hidem := State.settle_settle ⟨ts, n, ds⟩
  rw [hsettle] at hidem
  refine ⟨ts.takeWhile (·.kind = .newline), ts.dropWhile (·.kind = .newline),
    List.takeWhile_append_dropWhile.symm, fun u hu => ?_, hsettle, hidem, rfl⟩
  simpa using List.mem_takeWhile_imp hu

/-- The token that is passed over, or the end of the text, where the cursor stays. -/
theorem run_advance_nested (hn : 0 < n) (ts : List Token) (ds : List Diagnostic) :
    ∃ t us, run advance ⟨ts, n, ds⟩ = (.ok t, ⟨us, n, ds⟩) ∧ (t.kind ≠ .eof →
      ∃ gap, ts = gap ++ t :: us ∧ ∀ u ∈ gap, u.kind = .newline) := by
  obtain ⟨gap, us, rfl, hgap, hsettle, hat⟩ := settle_nested_split hn ts ds
  rw [advance, run_bind, run_current, hsettle]
  by_cases heof : (State.current ⟨us, n, ds⟩).kind = .eof
  · exact ⟨_, us, by simp [heof], fun h => absurd heof h⟩
  · have hread := run_advance hat heof
    rw [advance, run_bind, run_current, hat.settled] at hread
    refine ⟨_, us.drop 1, hread, fun _ => ⟨gap, ?_, hgap⟩⟩
    exact congrArg (gap ++ ·) (hat.tokens heof)

/-- The token that is asked for is passed over if it is there. -/
theorem run_eat_nested (hn : 0 < n) {kind : Token.Kind} (heof : kind ≠ .eof) (ts : List Token)
    (ds : List Diagnostic) :
    ∃ found us, run (eat kind) ⟨ts, n, ds⟩ = (.ok found, ⟨us, n, ds⟩)
      ∧ (found = true → ∃ gap t, ts = gap ++ t :: us ∧ (∀ u ∈ gap, u.kind = .newline)
        ∧ t.kind = kind)
      ∧ (found = false → ∃ gap, ts = gap ++ us ∧ ∀ u ∈ gap, u.kind = .newline) := by
  obtain ⟨gap, us, rfl, hgap, hsettle, hat⟩ := settle_nested_split hn ts ds
  rw [eat, run_bind, run_atKind, hsettle]
  by_cases hkind : (State.current ⟨us, n, ds⟩).kind = kind
  · have hend : (State.current ⟨us, n, ds⟩).kind ≠ .eof := hkind ▸ heof
    refine ⟨true, us.drop 1, ?_, fun _ => ⟨gap, _, ?_, hgap, hkind⟩, by simp⟩
    · simp only [hkind, decide_true, if_true]
      exact run_bind_ok (run_advance hat hend) _
    · exact congrArg (gap ++ ·) (hat.tokens hend)
  · exact ⟨false, us, by simp [hkind], by simp, fun _ => ⟨gap, rfl, hgap⟩⟩

/-- The next significant token is passed over. -/
theorem run_advance_significant (hn : 0 < n) (h : significant inner = t :: us) (heof : t.kind ≠ .eof)
    (rest : List Token) (ds : List Diagnostic) :
    ∃ inner', significant inner' = us ∧ inner'.length < inner.length
      ∧ run advance ⟨inner ++ rest, n, ds⟩ = (.ok t, ⟨inner' ++ rest, n, ds⟩) := by
  obtain ⟨gap, inner', rfl, hgap, ht, hus⟩ := significant_eq_cons h
  refine ⟨inner', hus, by simp; omega, ?_⟩
  rw [List.append_assoc, List.cons_append, run_advance_gap hn hgap ht heof]

end Nested

/-! ## Reading targets on trial -/

section Trial

variable {n : Nat} {ds : List Diagnostic} {t close : Token} {ts us vs inner rest : List Token}
variable {target : Target} {star : Option Token} {list : TargetList} {st : State} {limit : Nat}

theorem run_scanTarget_of_writes (hn : 0 < n) (h : WritesTarget us target star)
    (hinner : significant inner = us ++ vs) (rest : List Token) (ds : List Diagnostic) :
    ∃ inner', significant inner' = vs ∧ inner'.length < inner.length
      ∧ run scanTarget ⟨inner ++ rest, n, ds⟩
        = (.ok (some (target, star)), ⟨inner' ++ rest, n, ds⟩) := by
  cases h with
  | @name t ht =>
    obtain ⟨inner', hvs, hlength, hrun⟩ := run_advance_significant hn hinner (by simp [ht]) rest ds
    refine ⟨inner', hvs, hlength, ?_⟩
    rw [scanTarget, run_bind_ok hrun]
    simp only [ht, targetOf]
    split <;> rfl
  | @starred star t hstar ht =>
    obtain ⟨middle, hmiddle, hlength, hrun⟩ :=
      run_advance_significant hn hinner (by simp [hstar]) rest ds
    obtain ⟨inner', hvs, hlength', hrun'⟩ :=
      run_advance_significant hn hmiddle (by simp [ht]) rest ds
    refine ⟨inner', hvs, hlength'.trans hlength, ?_⟩
    rw [scanTarget, run_bind_ok hrun]
    simp only [hstar]
    rw [run_bind_ok hrun', if_pos ht]
    rfl

theorem newlines_of_significant (h : significant inner = []) : ∀ u ∈ inner, u.kind = .newline := by
  simpa [significant] using h

/-- Written targets are found. -/
theorem run_scanTargets_of_writes (hn : 0 < n) (h : WritesTargets us list)
    (hclose : close.kind = .rparen) (rest : List Token) (ds : List Diagnostic)
    (hinner : significant inner = us) (hlimit : inner.length < limit) :
    run (scanTargets limit) ⟨inner ++ close :: rest, n, ds⟩ = (.ok (some list), ⟨rest, n, ds⟩) := by
  have hclose' : close.kind ≠ .newline ∧ close.kind ≠ .eof := by simp [hclose]
  induction h generalizing inner limit with
  | @last us target star htarget =>
    obtain ⟨limit, rfl⟩ : ∃ k, limit = k + 1 := ⟨limit - 1, by omega⟩
    obtain ⟨gap, hgap, -, hrun⟩ := run_scanTarget_of_writes hn htarget
      (hinner.trans (List.append_nil us).symm) (close :: rest) ds
    rw [scanTargets, run_bind_ok hrun]
    dsimp only
    rw [run_bind_ok (run_advance_gap hn (newlines_of_significant hgap) hclose'.1 hclose'.2 rest ds)]
    simp only [hclose]
    rfl
  | @lastComma us target star comma htarget hcomma =>
    obtain ⟨limit, rfl⟩ : ∃ k, limit = k + 1 := ⟨limit - 1, by omega⟩
    obtain ⟨middle, hmiddle, -, hrun⟩ := run_scanTarget_of_writes hn htarget hinner (close :: rest) ds
    obtain ⟨gap, hgap, -, hrun'⟩ :=
      run_advance_significant hn hmiddle (by simp [hcomma]) (close :: rest) ds
    have heat := run_eat_gap hn (newlines_of_significant hgap) hclose'.1 hclose'.2 .rparen rest ds
    rw [if_pos hclose, decide_eq_true hclose] at heat
    rw [scanTargets, run_bind_ok hrun]
    dsimp only
    rw [run_bind_ok hrun']
    simp only [hcomma]
    rw [run_bind_ok heat]
    rfl
  | @cons us vs target star comma list htarget hcomma hlist ih =>
    obtain ⟨limit, rfl⟩ : ∃ k, limit = k + 1 := ⟨limit - 1, by omega⟩
    obtain ⟨middle, hmiddle, hlength, hrun⟩ :=
      run_scanTarget_of_writes hn htarget hinner (close :: rest) ds
    obtain ⟨others, hothers, hlength', hrun'⟩ :=
      run_advance_significant hn hmiddle (by simp [hcomma]) (close :: rest) ds
    obtain ⟨t, ws, rfl, hparen, heof⟩ := hlist.exists_cons
    obtain ⟨gap, behind, rfl, hgap, ht, hws⟩ := significant_eq_cons hothers
    -- another target follows, so the parenthesis is not taken yet
    have heat := run_eat_gap hn hgap ht heof .rparen (behind ++ close :: rest) ds
    rw [if_neg hparen, decide_eq_false hparen] at heat
    have hbehind : significant (t :: behind) = t :: ws := by
      rw [← hws]
      exact List.filter_cons_of_pos (by simpa using ht)
    rw [List.length_append, List.length_cons] at hlength'
    have hlimit' : (t :: behind).length < limit := by
      rw [List.length_cons]
      omega
    have hrest := ih hbehind hlimit'
    rw [scanTargets, run_bind_ok hrun]
    dsimp only
    rw [run_bind_ok hrun']
    simp only [hcomma]
    rw [List.append_assoc, List.cons_append, run_bind_ok heat]
    simp only [Bool.false_eq_true, if_false]
    exact run_bind_ok hrest _

theorem significant_gap_cons {gap : List Token} (hgap : ∀ u ∈ gap, u.kind = .newline)
    (ht : t.kind ≠ .newline) (ts : List Token) :
    significant (gap ++ t :: ts) = t :: significant ts := by
  rw [significant_append, significant_newlines hgap, List.nil_append]
  exact List.filter_cons_of_pos (by simpa using ht)

/-- A trial does not fail and changes nothing but the cursor, and what it finds is written there. -/
theorem run_scanTarget_nested (hn : 0 < n) (ts : List Token) (ds : List Diagnostic) :
    ∃ found us, run scanTarget ⟨ts, n, ds⟩ = (.ok found, ⟨us, n, ds⟩)
      ∧ ∀ target star, found = some (target, star) →
        ∃ inner, ts = inner ++ us ∧ WritesTarget (significant inner) target star := by
  obtain ⟨t, us, hrun, hread⟩ := run_advance_nested hn ts ds
  rw [scanTarget, run_bind_ok hrun]
  split
  next hstar =>
    obtain ⟨name, vs, hrun', hread'⟩ := run_advance_nested hn us ds
    rw [run_bind_ok hrun']
    by_cases hname : name.kind = .ident
    · rw [if_pos hname]
      refine ⟨_, vs, rfl, fun target star hfound => ?_⟩
      obtain ⟨rfl, rfl⟩ := Prod.mk.inj (Option.some.inj hfound)
      obtain ⟨gap, rfl, hgap⟩ := hread (by simp [hstar])
      obtain ⟨gap', rfl, hgap'⟩ := hread' (by simp [hname])
      refine ⟨gap ++ t :: (gap' ++ [name]), by simp, ?_⟩
      rw [significant_gap_cons hgap (by simp [hstar]), significant_gap_cons hgap' (by simp [hname])]
      exact .starred hstar hname
    · rw [if_neg hname]
      exact ⟨none, vs, rfl, fun _ _ hfound => by cases hfound⟩
  next hname =>
    have hfound : run (if t.literal = "_" then pure (some (Target.discard t.pos, none)) else
        pure (some (Target.name (identOf t), none))) ⟨us, n, ds⟩
          = (.ok (some (targetOf t, (none : Option Token))), ⟨us, n, ds⟩) := by
      rw [targetOf]
      split <;> rfl
    refine ⟨_, us, hfound, fun target star hfound => ?_⟩
    obtain ⟨rfl, rfl⟩ := Prod.mk.inj (Option.some.inj hfound)
    obtain ⟨gap, rfl, hgap⟩ := hread (by simp [hname])
    refine ⟨gap ++ [t], by simp, ?_⟩
    rw [significant_gap_cons hgap (by simp [hname])]
    exact .name hname
  next => exact ⟨none, us, rfl, fun _ _ hfound => by cases hfound⟩

theorem run_scanTargets_nested (hn : 0 < n) (limit : Nat) (ts : List Token) (ds : List Diagnostic) :
    ∃ found us, run (scanTargets limit) ⟨ts, n, ds⟩ = (.ok found, ⟨us, n, ds⟩)
      ∧ ∀ list, found = some list → ∃ inner close, ts = inner ++ close :: us
        ∧ close.kind = .rparen ∧ WritesTargets (significant inner) list := by
  induction limit generalizing ts with
  | zero => exact ⟨none, ts, rfl, fun _ hfound => by cases hfound⟩
  | succ limit ih =>
    obtain ⟨found, us, hrun, htarget⟩ := run_scanTarget_nested hn ts ds
    rw [scanTargets, run_bind_ok hrun]
    rcases found with _ | ⟨target, star⟩
    · exact ⟨none, us, rfl, fun _ hfound => by cases hfound⟩
    obtain ⟨inner, rfl, hwrites⟩ := htarget target star rfl
    obtain ⟨t, vs, hrun', hread⟩ := run_advance_nested hn us ds
    dsimp only
    rw [run_bind_ok hrun']
    split
    next hparen =>
      refine ⟨_, vs, rfl, fun list hfound => ?_⟩
      obtain rfl := Option.some.inj hfound
      obtain ⟨gap, rfl, hgap⟩ := hread (by simp [hparen])
      refine ⟨inner ++ gap, t, by simp, hparen, ?_⟩
      rw [significant_append, significant_newlines hgap, List.append_nil]
      exact .last hwrites
    next hcomma =>
      obtain ⟨gap, rfl, hgap⟩ := hread (by simp [hcomma])
      obtain ⟨closed, ws, heat, hclosed, hopen⟩ :=
        run_eat_nested hn (show Token.Kind.rparen ≠ .eof by decide) vs ds
      rw [run_bind_ok heat]
      -- the comma may be the last one, or stand in front of another target
      cases closed with
      | true =>
        refine ⟨_, ws, rfl, fun list hfound => ?_⟩
        obtain rfl := Option.some.inj hfound
        obtain ⟨gap', r, rfl, hgap', hr⟩ := hclosed rfl
        refine ⟨inner ++ (gap ++ t :: gap'), r, by simp, hr, ?_⟩
        rw [significant_append, significant_gap_cons hgap (by simp [hcomma]), significant_newlines hgap']
        exact .lastComma hwrites hcomma
      | false =>
        obtain ⟨gap', rfl, hgap'⟩ := hopen rfl
        obtain ⟨found, xs, hrest, hlist⟩ := ih ws
        simp only [Bool.false_eq_true, if_false]
        rw [run_bind_ok hrest]
        rcases found with _ | others
        · exact ⟨none, xs, rfl, fun _ hfound => by cases hfound⟩
        obtain ⟨inner', close, rfl, hclose, hothers⟩ := hlist others rfl
        refine ⟨_, xs, rfl, fun list hfound => ?_⟩
        obtain rfl := Option.some.inj hfound
        refine ⟨inner ++ (gap ++ t :: (gap' ++ inner')), close, by simp, hclose, ?_⟩
        rw [significant_append, significant_gap_cons hgap (by simp [hcomma]), significant_append,
          significant_newlines hgap', List.nil_append]
        exact .cons hwrites hcomma hothers
    next => exact ⟨none, vs, rfl, fun _ hfound => by cases hfound⟩

end Trial

/-! ## The header of a destructuring assignment -/

/-- What opens a destructuring assignment: targets in parentheses, more than a name alone, and the
    operator directly behind them. Line feeds may stand inside of the parentheses, and in front of
    the operator where brackets around the statement hide them. -/
structure Header (st : State) where
  opening : Token
  inner : List Token
  close : Token
  gap : List Token
  sign : Token
  rest : List Token
  list : TargetList
  op : AssignOp
  tokens : st.tokens = opening :: (inner ++ close :: (gap ++ sign :: rest))
  opening_kind : opening.kind = .lparen
  close_kind : close.kind = .rparen
  targets : WritesTargets (significant inner) list
  gap_hidden : ∀ t ∈ gap, t.kind = .newline ∧ 0 < st.nesting
  sign_kind : (sign.kind = .assign ∧ op = .assign) ∨ (sign.kind = .walrus ∧ op = .walrus)
  several : 1 < list.targets.length ∨ list.stars ≠ [] ∨ list.trailingComma = true

/-- A destructuring assignment from its operator on: a second star is an error, and the value may be
    one. -/
def Header.outcome {st : State} (h : Header st) (g : Grammar) : Except SyntaxError Stmt × State :=
  match h.list.stars[1]? with
  | some second => (.error (.atToken Cause.severalStars.message second),
      ⟨h.sign :: h.rest, st.nesting, st.diagnostics⟩)
  | none => run (do return .destructure h.opening.pos h.list.targets h.op (← g.expression .lowest))
      ⟨h.rest, st.nesting, st.diagnostics⟩

theorem destructuringOp?_eq_some {kind : Token.Kind} {op : AssignOp} :
    destructuringOp? kind = some op
      ↔ (kind = .assign ∧ op = .assign) ∨ (kind = .walrus ∧ op = .walrus) := by
  constructor
  · intro h
    obtain ⟨hkind, hplain⟩ := Option.filter_eq_some_iff.1 h
    unfold AssignOp.ofKind? at hkind
    split at hkind <;> cases hkind
    all_goals first
      | exact .inl ⟨rfl, rfl⟩
      | exact .inr ⟨rfl, rfl⟩
      | cases hplain
  · rintro (⟨rfl, rfl⟩ | ⟨rfl, rfl⟩) <;> rfl

theorem TargetList.isTuple_iff (list : TargetList) : list.isTuple = true
    ↔ 1 < list.targets.length ∨ list.stars ≠ [] ∨ list.trailingComma = true := by
  simp [isTuple, or_assoc]

section Header

variable {g : Grammar} {st : State} {t : Token}

/-- The targets in parentheses, read on trial. -/
def trial : Parse (Option TargetList) := nested (do scanTargets (← get).tokens.length)

theorem run_trial (ts : List Token) (n : Nat) (ds : List Diagnostic) :
    ∃ found us, run trial ⟨ts, n, ds⟩ = (.ok found, ⟨us, n, ds⟩)
      ∧ ∀ list, found = some list → ∃ inner close, ts = inner ++ close :: us
        ∧ close.kind = .rparen ∧ WritesTargets (significant inner) list := by
  obtain ⟨found, us, hrun, hfound⟩ := run_scanTargets_nested n.succ_pos ts.length ts ds
  refine ⟨found, us, ?_, hfound⟩
  rw [trial, run_nested, run_bind_ok (run_get _), hrun]
  rfl

theorem run_trial_of_writes {inner rest : List Token} {list : TargetList} {close : Token}
    (h : WritesTargets (significant inner) list) (hclose : close.kind = .rparen) (n : Nat)
    (ds : List Diagnostic) :
    run trial ⟨inner ++ close :: rest, n, ds⟩ = (.ok (some list), ⟨rest, n, ds⟩) := by
  have hlimit : inner.length < (inner ++ close :: rest).length := by simp
  have hrun := run_scanTargets_of_writes n.succ_pos h hclose rest ds rfl hlimit
  rw [trial, run_nested, run_bind_ok (run_get _), hrun]
  rfl

/-- Line feeds at the cursor are passed over inside of brackets only. -/
theorem settle_split (ts : List Token) (n : Nat) (ds : List Diagnostic) :
    ∃ gap us, ts = gap ++ us ∧ (∀ u ∈ gap, u.kind = .newline ∧ 0 < n)
      ∧ State.settle ⟨ts, n, ds⟩ = ⟨us, n, ds⟩ := by
  by_cases hn : 0 < n
  · obtain ⟨gap, us, hts, hgap, hsettle, -⟩ := settle_nested_split hn ts ds
    exact ⟨gap, us, hts, fun u hu => ⟨hgap u hu, hn⟩, hsettle⟩
  · exact ⟨[], ts, rfl, by simp, if_neg hn⟩

/-- What decides about a trial: the targets and the token behind them. -/
theorem run_destructuring (hat : At st t) (ht : t.kind = .lparen) {found : Option TargetList}
    {us : List Token} (htrial : run trial st.dropToken = (.ok found, ⟨us, st.nesting, st.diagnostics⟩)) :
    run (destructuring g) st
      = run (finishDestructuring g st t found
          (State.settle ⟨us, st.nesting, st.diagnostics⟩).current.kind)
        (State.settle ⟨us, st.nesting, st.diagnostics⟩) := by
  have hadvance := run_advance hat (by simp [ht])
  rw [destructuring_eq, run_bind_ok (run_get _), destructuringHeader]
  simp only [bind_assoc, pure_bind]
  rw [run_bind_ok hadvance]
  exact (run_bind_ok htrial _).trans (run_bind_ok (run_currentKind _) _)

/-- The cursor behind the targets is on the operator. -/
theorem Header.settle (h : Header st) :
    At ⟨h.sign :: h.rest, st.nesting, st.diagnostics⟩ h.sign ∧
      State.settle ⟨h.gap ++ h.sign :: h.rest, st.nesting, st.diagnostics⟩
        = ⟨h.sign :: h.rest, st.nesting, st.diagnostics⟩ := by
  have hsign : h.sign.kind ≠ .newline := by
    rcases h.sign_kind with ⟨hsign, -⟩ | ⟨hsign, -⟩ <;> simp [hsign]
  exact ⟨At.cons hsign h.rest st.nesting st.diagnostics,
    settle_gap h.gap_hidden hsign h.rest st.diagnostics⟩

theorem Header.opening_eq (h : Header st) (hat : At st t) : h.opening = t := by
  have hcurrent := hat.current
  rwa [State.current, h.tokens] at hcurrent

/-- The header of a destructuring assignment leads to one. -/
theorem run_destructuring_of_header (h : Header st) (hat : At st t) (ht : t.kind = .lparen) :
    run (destructuring g) st = ((h.outcome g).1.map some, (h.outcome g).2) := by
  have hdrop : st.dropToken
      = ⟨h.inner ++ h.close :: (h.gap ++ h.sign :: h.rest), st.nesting, st.diagnostics⟩ := by
    rw [State.dropToken, h.tokens]
    rfl
  have hop := destructuringOp?_eq_some.2 h.sign_kind
  have heof : h.sign.kind ≠ .eof := by
    rcases h.sign_kind with ⟨hsign, -⟩ | ⟨hsign, -⟩ <;> simp [hsign]
  obtain ⟨hsign, hsettle⟩ := h.settle
  rw [run_destructuring hat ht (hdrop ▸ run_trial_of_writes h.targets h.close_kind _ _), hsettle,
    hsign.current]
  unfold finishDestructuring Header.outcome
  rcases hsecond : h.list.stars[1]? with _ | second
  · simp only [hop, h.list.isTuple_iff.2 h.several, if_true, h.opening_eq hat, hsecond]
    rw [run_bind_ok (run_advance hsign heof), run_bind, run_bind]
    simp only [State.dropToken, List.drop_succ_cons, List.drop_zero]
    rcases run (g.expression .lowest) ⟨h.rest, st.nesting, st.diagnostics⟩ with ⟨_ | value, st'⟩ <;>
      rfl
  · simp only [hop, h.list.isTuple_iff.2 h.several, if_true, hsecond]
    rfl

/-- Where there is no header, the trial leaves everything as it was. -/
theorem run_destructuring_of_isEmpty (hnone : IsEmpty (Header st)) (hat : At st t)
    (ht : t.kind = .lparen) : run (destructuring g) st = (.ok none, st) := by
  have htokens : st.tokens = t :: st.dropToken.tokens := hat.tokens (by simp [ht])
  obtain ⟨found, us, htrial, hfound⟩ := run_trial st.dropToken.tokens st.nesting st.diagnostics
  have hback (st' : State) (hnesting : st'.nesting = st.nesting)
      (hdiagnostics : st'.diagnostics = st.diagnostics) :
      run (do
        modify fun st' => { st' with tokens := st.tokens }
        return (none : Option Stmt)) st' = (.ok none, st) := by
    rw [run_bind_ok (run_modify _ _), run_pure, hnesting, hdiagnostics]
  obtain ⟨gap, vs, hus, hgap, hsettle⟩ := settle_split us st.nesting st.diagnostics
  rw [run_destructuring hat ht htrial, hsettle]
  unfold finishDestructuring
  rcases found with _ | list
  · exact hback _ rfl rfl
  dsimp only
  rcases hop : destructuringOp? (State.current ⟨vs, st.nesting, st.diagnostics⟩).kind with _ | op
  · exact hback _ rfl rfl
  dsimp only
  by_cases htuple : list.isTuple
  · obtain ⟨inner, close, hinner, hclose, htargets⟩ := hfound list rfl
    have hsign := destructuringOp?_eq_some.1 hop
    have hvs : vs = State.current ⟨vs, st.nesting, st.diagnostics⟩ :: vs.drop 1 := by
      cases vs with
      | nil => rcases hsign with ⟨hsign, -⟩ | ⟨hsign, -⟩ <;> cases hsign
      | cons sign rest => rfl
    refine (hnone.false ⟨t, inner, close, gap, _, vs.drop 1, list, op, ?_, ht, hclose, htargets, hgap,
      hsign, list.isTuple_iff.1 htuple⟩).elim
    rw [htokens, hinner, hus, ← hvs]
  · rw [if_neg htuple]
    exact hback _ rfl rfl

/-- A statement that starts with a parenthesis is a destructuring assignment exactly where there is
    the header of one. Everywhere else it is an expression, as if nothing had been tried. -/
theorem statement_destructures_iff (g : Grammar) (hat : At st t) (ht : t.kind = .lparen) :
    ((run (destructuring g) st).1 = .ok none ↔ IsEmpty (Header st))
      ∧ (∀ h : Header st, run (statement g) st = h.outcome g)
      ∧ (IsEmpty (Header st) → run (statement g) st = run (simpleStatement g) st) := by
  -- what the trial finds is the statement; if it finds nothing, a simple one is read
  have hstatement : run (statement g) st
      = run (do (← destructuring g).elim (simpleStatement g) pure) st := by
    rewrite [statement, run_bind, run_currentKind, hat.settled, hat.current, ht]
    refine congrArg (fun next => run (destructuring g >>= next) st) (funext fun found => ?_)
    cases found <;> rfl
  refine ⟨⟨fun hrun => ⟨fun h => ?_⟩, fun hnone => ?_⟩, fun h => ?_, fun hnone => ?_⟩
  · rw [run_destructuring_of_header h hat ht] at hrun
    rcases hvalue : (h.outcome g).1 with e | stmt <;> rw [hvalue] at hrun <;> cases hrun
  · rw [run_destructuring_of_isEmpty hnone hat ht]
  · rw [hstatement, run_bind, run_destructuring_of_header h hat ht]
    rcases h.outcome g with ⟨_ | stmt, st'⟩ <;> rfl
  · rw [hstatement, run_bind_ok (run_destructuring_of_isEmpty hnone hat ht), Option.elim_none]

/-- The statement `(a,` and, on the next line, `*b) = c`. -/
theorem statement_destructures_starred :
    run (statement (.ofDepth 1))
        ⟨[⟨.lparen, "(", none, ⟨1, 1⟩⟩, ⟨.ident, "a", none, ⟨1, 2⟩⟩, ⟨.comma, ",", none, ⟨1, 3⟩⟩,
          ⟨.newline, "", none, ⟨1, 4⟩⟩, ⟨.star, "*", none, ⟨2, 1⟩⟩, ⟨.ident, "b", none, ⟨2, 2⟩⟩,
          ⟨.rparen, ")", none, ⟨2, 3⟩⟩, ⟨.assign, "=", none, ⟨2, 5⟩⟩, ⟨.ident, "c", none, ⟨2, 7⟩⟩,
          .endOfText ⟨2, 8⟩], 0, []⟩
      = (.ok (.destructure ⟨1, 1⟩ [.name ⟨"a", ⟨1, 2⟩⟩, .starred ⟨"b", ⟨2, 2⟩⟩] .assign
          (.ident ⟨"c", ⟨2, 7⟩⟩)), ⟨[.endOfText ⟨2, 8⟩], 0, []⟩) := by
  rw [(statement_destructures_iff (.ofDepth 1) ⟨rfl, rfl⟩ rfl).2.1
    ⟨⟨.lparen, "(", none, ⟨1, 1⟩⟩,
      [⟨.ident, "a", none, ⟨1, 2⟩⟩, ⟨.comma, ",", none, ⟨1, 3⟩⟩, ⟨.newline, "", none, ⟨1, 4⟩⟩,
        ⟨.star, "*", none, ⟨2, 1⟩⟩, ⟨.ident, "b", none, ⟨2, 2⟩⟩],
      ⟨.rparen, ")", none, ⟨2, 3⟩⟩, [], ⟨.assign, "=", none, ⟨2, 5⟩⟩,
      [⟨.ident, "c", none, ⟨2, 7⟩⟩, .endOfText ⟨2, 8⟩], _, .assign, rfl, rfl, rfl,
      .cons (.name rfl) rfl (.last (.starred rfl rfl)), by simp, .inl ⟨rfl, rfl⟩,
      .inl (by decide)⟩]
  rfl

end Header

end Welle.Parser
