import Welle.Proofs.Append.Statement

set_option autoImplicit false

/-! # Programs in front of other ones

A program that is read without a report is read the same when a line feed and more text follow it,
and then the text behind it is read as if it stood alone. The statements are read one by one: as long
as the first text lasts, both sides do the same, and at its end the separators do not matter. -/

namespace Welle.Parser

open Welle.Grammar (content)

variable {g : Grammar} {st : State}

/-! ## Separators -/

/-- Separators in front of a list of statements do not matter. -/
theorem run_collect_congr {stop : Token.Kind} {st' : State} {limit : Nat}
    (h : st.dropSeparators = st'.dropSeparators) (hlimit : 0 < limit) :
    run (collect (listedStatement g stop) limit) st
      = run (collect (listedStatement g stop) limit) st' := by
  obtain _ | limit := limit
  · omega
  have hround : run (listedStatement g stop) st = run (listedStatement g stop) st' := by
    unfold listedStatement
    rw [run_bind_ok (run_skipSeparators st), run_bind_ok (run_skipSeparators st'), h]
  rw [collect, run_bind, run_bind, hround]

theorem settle_dropSeparators (hnesting : st.nesting = 0) :
    st.dropSeparators.settle = st.dropSeparators := by
  rw [State.settle, if_neg (by simp [State.dropSeparators, hnesting])]

/-- A list of statements ends where only separators are left. -/
theorem run_listedStatement_end (hnesting : st.nesting = 0)
    (heof : st.dropSeparators.current.kind = .eof) :
    run (listedStatement g .eof) st = (.ok none, st.dropSeparators) := by
  unfold listedStatement
  rw [run_bind_ok (run_skipSeparators st), run_bind_ok (run_atKind _ _),
    settle_dropSeparators hnesting, heof]
  rfl

/-- It does not end where something else is left. -/
theorem isSome_of_listedStatement (hg : g.Sound) (hnesting : st.nesting = 0)
    (heof : st.dropSeparators.current.kind ≠ .eof) {found : Option (Option Stmt)} {st' : State}
    (hrun : run (listedStatement g .eof) st = (.ok found, st')) : found.isSome = true := by
  have hat : At st.dropSeparators st.dropSeparators.current := ⟨settle_dropSeparators hnesting, rfl⟩
  have hkind : run (atKind .eof) st.dropSeparators = (.ok false, st.dropSeparators) := by
    rw [run_atKind, hat.settled, decide_eq_false heof]
  unfold listedStatement at hrun
  rw [run_bind_ok (run_skipSeparators st), run_bind_ok hkind, if_neg (by simp), run_bind_ok hkind,
    if_neg (by simp), run_bind_ok (run_get _), run_bind_ok (run_observing _ _)] at hrun
  obtain ⟨used, hmoves⟩ := (hg.statement st.dropSeparators).moves
  rcases hstmt : run g.statement st.dropSeparators with ⟨e | s, st₁⟩
  · rw [hstmt] at hmoves hrun
    exact (forward_recovery hat heof hmoves hrun).1
  · rw [hstmt] at hrun
    cases hrun
    rfl

/-! ## The end of the first text -/

/-- The state in which the text behind a junction is read on its own. -/
def Tail.state (tail : Tail) : State := ⟨tail.rest, 0, []⟩

/-- Where only separators are left of the first text, the cursor is in front of the other one. -/
theorem dropSeparators_state (tail : Tail) (lines : Nat) (hnesting : st.nesting = 0)
    (hclean : st.diagnostics = []) (heof : st.dropSeparators.current.kind = .eof) :
    (Junction.state ⟨lines, some tail⟩ st).dropSeparators = tail.state.dropSeparators := by
  have hfront : ∀ t ∈ Token.beforeEnd st.tokens, t.kind.isSeparator = true := by
    have hmoves := moves_dropSeparators st
    have hnil : Token.beforeEnd st.dropSeparators.tokens = [] := by
      unfold State.current at heof
      cases htokens : st.dropSeparators.tokens with
      | nil => rfl
      | cons t ts => simp_all [Token.beforeEnd]
    intro t ht
    rw [hmoves.beforeEnd, hnil, List.append_nil] at ht
    simpa using List.mem_takeWhile_imp ht
  have hdrop : (Junction.tokens ⟨lines, some tail⟩ st.tokens).dropWhile (·.kind.isSeparator)
      = tail.rest.dropWhile (·.kind.isSeparator) := by
    rw [Junction.tokens, List.dropWhile_append_of_pos, Tail.tokens, List.dropWhile_cons_of_pos]
    · rw [tail.newline_kind]
      rfl
    · intro t ht
      obtain ⟨u, hu, rfl⟩ := List.mem_map.1 ht
      exact hfront u hu
  simp [State.dropSeparators, Junction.state, Tail.state, hdrop, hnesting, hclean]

/-- Where more than separators is left of a text, its statements go on. -/
theorem regular_dropSeparators {j : Junction} (heof : st.dropSeparators.current.kind ≠ .eof) :
    j.Regular st.dropSeparators.tokens := by
  intro _ hnil
  have hhead := List.head?_dropWhile_not (·.kind.isSeparator) st.tokens
  unfold State.current at heof
  cases htokens : st.dropSeparators.tokens with
  | nil => simp [htokens, Token.endOfText] at heof
  | cons t ts =>
    rw [htokens, List.headD_cons] at heof
    rw [show st.tokens.dropWhile (·.kind.isSeparator) = t :: ts from htokens, List.head?_cons] at hhead
    have hnewline : t.kind ≠ .newline := by
      intro hnewline
      simp [hnewline, Token.Kind.isSeparator] at hhead
    simp [content, Token.beforeEnd, htokens, heof, hnewline] at hnil

/-! ## Statement by statement -/

theorem Junction.length_state_lt {st' : State} (j : Junction) (h : Forward st st') :
    (j.state st').tokens.length < (j.state st).tokens.length := by
  obtain ⟨used, hused, hmoves⟩ := h
  have hpos := List.length_pos_iff.2 hused
  have htokens : (j.state st).tokens = _ := j.tokens_of_moves hmoves
  rw [htokens, List.length_append, List.length_map]
  exact Nat.lt_add_of_pos_left hpos

theorem moving_collect (hg : g.Sound) {stop : Token.Kind} (limit : Nat) :
    Moving (collect (listedStatement g stop) limit) := by
  intro st
  refine (Reads.collect (I := fun _ _ _ => True) (fun _ => trivial) (fun st => ?_) limit st).moves
  refine (reads_listedStatement hg stop).mono fun _ _ next _ _ => ?_
  cases next
  · trivial
  · exact fun _ _ _ => trivial

/-- Where only separators are left of the first text, the statements of the other one are read. -/
theorem run_collect_at_end (hg : g.Joins) (lines : Nat) {tail : Tail} (htail : tail.state.EndsOnce)
    {limit : Nat} (hnesting : st.nesting = 0) (hclean : st.diagnostics = [])
    (heof : st.dropSeparators.current.kind = .eof)
    (hlimit : (Junction.state ⟨lines, some tail⟩ st).tokens.length ≤ limit) :
    run (collect (listedStatement g .eof) limit) (Junction.state ⟨lines, some tail⟩ st)
      = run (many (listedStatement g .eof)) tail.state := by
  have hsame := dropSeparators_state tail lines hnesting hclean heof
  have hlength : tail.rest.length < (Junction.state ⟨lines, some tail⟩ st).tokens.length := by
    simp [Junction.state, Junction.tokens, Tail.tokens]
    omega
  rw [run_collect_congr hsame (by omega), many, run_bind_ok (run_get _)]
  exact (run_collect_of_le (steps_listedStatement hg.sound _) htail.ends (Nat.le_refl _)
    (Nat.le_of_lt (hlength.trans_le hlimit))).symm

/-- The statements of a text that is read without a report are read the same in front of another
    text, and then the statements of that one. -/
theorem run_collect_tail (hg : g.Joins) (lines : Nat) {tail : Tail} (htail : tail.state.EndsOnce)
    {limit limit' : Nat} {found : List (Option Stmt)} {st' : State} (hst : st.EndsOnce)
    (hnesting : st.nesting = 0) (hlimit : st.tokens.length ≤ limit)
    (hlimit' : (Junction.state ⟨lines, some tail⟩ st).tokens.length ≤ limit')
    (hrun : run (collect (listedStatement g .eof) limit) st = (.ok found, st'))
    (hclean : st'.diagnostics = []) :
    run (collect (listedStatement g .eof) limit') (Junction.state ⟨lines, some tail⟩ st)
      = ((run (many (listedStatement g .eof)) tail.state).1.map
          (found.map (Option.map (Stmt.lowered lines)) ++ ·),
        (run (many (listedStatement g .eof)) tail.state).2) := by
  -- the rounds of the first text one by one
  induction limit generalizing limit' found st with
  | zero =>
    have hpos := hst.ends.length_pos
    omega
  | succ limit ih =>
    by_cases heof : st.dropSeparators.current.kind = .eof
    · -- nothing is left of it
      rw [collect, run_bind_ok (run_listedStatement_end hnesting heof)] at hrun
      obtain ⟨hfound, rfl⟩ := Prod.mk.inj hrun
      obtain rfl := Except.ok.inj hfound
      rw [run_collect_at_end hg lines htail hnesting hclean heof hlimit']
      rcases run (many (listedStatement g .eof)) tail.state with ⟨_ | _, _⟩ <;> rfl
    · obtain ⟨next, st₁, hnext, hrun⟩ := run_bind_eq_ok hrun
      rcases next with _ | a
      · cases isSome_of_listedStatement hg.sound hnesting heof hnext
      obtain ⟨as, st₂, hrest, hrun⟩ := run_bind_eq_ok hrun
      obtain ⟨hfound, rfl⟩ := Prod.mk.inj hrun
      obtain rfl := Except.ok.inj hfound
      obtain ⟨-, hsame⟩ := follows_listedStatement (j := ⟨lines, some tail⟩) (d := False) hg hnesting
        (.inr (regular_dropSeparators heof)) hst
      rw [hnext] at hsame
      have hforward : Forward st st₁ :=
        (steps_listedStatement hg.sound _ st _ st₁ hnext).resolve_left (by simp)
      have hlt := hforward.length_lt
      have hlt' := Junction.length_state_lt ⟨lines, some tail⟩ hforward
      obtain ⟨used, -, hmoves⟩ := hforward
      obtain ⟨used', hmoves'⟩ := moving_collect hg.sound limit st₁
      rw [hrest] at hmoves'
      obtain ⟨hround, -⟩ := hsame fun _ => ⟨⟨_, rfl⟩, hmoves'.clean hclean, False.elim⟩
      obtain _ | limit' := limit'
      · omega
      have hrest' := @ih st₁ limit' as (hmoves.endsOnce hst) (hmoves.nesting.trans hnesting)
        (by omega) (by omega) hrest
      rw [collect, run_bind_ok hround]
      show run (collect (listedStatement g .eof) limit' >>= _) _ = _
      rw [run_bind, hrest']
      rcases run (many (listedStatement g .eof)) tail.state with ⟨_ | _, _⟩ <;> rfl

/-! ## Programs -/

/-- The weight of the tokens of a text does not depend on where the text stands. -/
theorem weightOf_lowered (n : Nat) (ts : List Token) :
    weightOf (ts.map (Token.lowered n)) = weightOf ts := by
  induction ts with
  | nil => rfl
  | cons t ts ih =>
    rw [List.map_cons, weightOf_cons, weightOf_cons, ih]
    rfl

/-- A text is read the same further down. -/
theorem run_parseProgram_below (n : Nat) (hst : st.EndsOnce) (hnesting : st.nesting = 0) :
    run parseProgram ((Junction.below n).state st)
      = (Junction.below n).outcome (Program.lowered n) (run parseProgram st) := by
  have hfollows : Follows (.below n) True st parseProgram parseProgram (Program.lowered n) := by
    refine .get_bind ?_
    have hweight : ((Junction.below n).state st).weight = st.weight := weightOf_lowered n st.tokens
    rw [hweight]
    exact (follows_statementsUntil (Grammar.joins_ofDepth _) hnesting).bind fun stmts _ _ =>
      .pure (by simp [Program.lowered, Junction.below])
  exact ((hfollows hst).2 fun htail => by cases htail).1

/-- A text that is read without a report is read the same in front of another text, which is then read
    as if it stood alone. -/
theorem run_parseProgram_tail {lines : Nat} {tail : Tail} (htail : tail.state.EndsOnce)
    (hst : st.EndsOnce) (hnesting : st.nesting = 0) {program : Program} {st' : State}
    (hrun : run parseProgram st = (.ok program, st')) (hclean : st'.diagnostics = []) :
    run parseProgram (Junction.state ⟨lines, some tail⟩ st)
      = ((run parseProgram tail.state).1.map fun rest =>
          ⟨program.stmts.map (Stmt.lowered lines) ++ rest.stmts⟩,
        (run parseProgram tail.state).2) := by
  -- all three are read with the same number of levels
  obtain ⟨depth, hleft, hright, hrest⟩ : ∃ depth, st.weight ≤ depth
      ∧ (Junction.state ⟨lines, some tail⟩ st).weight ≤ depth ∧ tail.state.weight ≤ depth :=
    ⟨st.weight + (Junction.state ⟨lines, some tail⟩ st).weight + tail.state.weight,
      by omega, by omega, by omega⟩
  have hends : (Junction.state ⟨lines, some tail⟩ st).Ends := by
    obtain ⟨t, ht, heof⟩ := htail.ends
    refine ⟨t, ?_, heof⟩
    exact List.mem_append_right _ (List.mem_cons_of_mem _ ht)
  rw [← run_parseWithin hst.ends hleft (Nat.le_refl _)] at hrun
  rw [← run_parseWithin hends hright (Nat.le_refl _),
    ← run_parseWithin htail.ends hrest (Nat.le_refl _)]
  obtain ⟨found, st₁, hfound, hrun⟩ := run_bind_eq_ok hrun
  obtain ⟨hprogram, rfl⟩ := Prod.mk.inj hrun
  obtain rfl := Except.ok.inj hprogram
  have hall := run_collect_tail (Grammar.joins_ofDepth depth) lines htail hst hnesting (Nat.le_refl _)
    (Nat.le_refl _) hfound hclean
  have hmany : run (many (listedStatement (.ofDepth depth) .eof)) tail.state
      = run (collect (listedStatement (.ofDepth depth) .eof) tail.state.tokens.length) tail.state :=
    run_bind_ok (run_get _) _
  rw [hmany] at hall
  rw [parseWithin, parseWithin, run_bind, run_bind, hall]
  rcases run (collect (listedStatement (.ofDepth depth) .eof) tail.state.tokens.length) tail.state
    with ⟨_ | _, _⟩
  · rfl
  · simp [Except.map, List.filterMap_map, List.map_filterMap]

end Welle.Parser
