import Welle.Parser

set_option autoImplicit false

/-! # Running parsers

A parser is run on a state and gives a result and the state behind it. The equations of this module
say what the monadic parts of a parser do to a state; no other module unfolds them. -/

namespace Welle.Parser

variable {α β : Type} (st : State)

/-! ## Sequencing -/

@[simp] theorem run_pure (a : α) : run (pure a) st = (.ok a, st) := rfl

theorem run_bind (p : Parse α) (f : α → Parse β) :
    run (p >>= f) st = match run p st with
      | (.ok a, st') => run (f a) st'
      | (.error e, st') => (.error e, st') := by
  rcases h : run p st with ⟨_ | a, st'⟩
  · rw [run] at h
    simp only [run, ExceptT.run_bind, StateT.run_bind, Id.run_bind, h]
    rfl
  · rw [run] at h
    simp only [run, ExceptT.run_bind, StateT.run_bind, Id.run_bind, h]

/-- A parser that succeeds hands its value and its state on. -/
theorem run_bind_ok {p : Parse α} {st st' : State} {a : α} (h : run p st = (.ok a, st'))
    (f : α → Parse β) : run (p >>= f) st = run (f a) st' := by
  rw [run_bind, h]

/-- What follows a failure is not run. -/
theorem run_bind_error {p : Parse α} {st st' : State} {e : SyntaxError}
    (h : run p st = (.error e, st')) (f : α → Parse β) : run (p >>= f) st = (.error e, st') := by
  rw [run_bind, h]

/-- Two parsers that succeed in a row do so one after the other. -/
theorem run_bind_eq_ok {p : Parse α} {f : α → Parse β} {st st'' : State} {b : β}
    (h : run (p >>= f) st = (.ok b, st'')) :
    ∃ a st', run p st = (.ok a, st') ∧ run (f a) st' = (.ok b, st'') := by
  rcases hp : run p st with ⟨e | a, st'⟩
  · rw [run_bind_error hp] at h
    cases h
  · rw [run_bind_ok hp] at h
    exact ⟨a, st', rfl, h⟩

theorem run_map (f : α → β) (p : Parse α) :
    run (f <$> p) st = ((run p st).1.map f, (run p st).2) := by
  rw [map_eq_pure_bind, run_bind]
  rcases run p st with ⟨_ | a, st'⟩ <;> rfl

/-! ## State -/

@[simp] theorem run_get : run get st = (.ok st, st) := rfl

@[simp] theorem run_modify (f : State → State) : run (modify f) st = (.ok (), f st) := rfl

@[simp] theorem run_skipNewlines : run skipNewlines st = (.ok (), st.dropNewlines) := rfl

@[simp] theorem run_current : run current st = (.ok st.settle.current, st.settle) := rfl

@[simp] theorem run_currentKind : run currentKind st = (.ok st.settle.current.kind, st.settle) :=
  rfl

@[simp] theorem run_atKind (kind : Token.Kind) :
    run (atKind kind) st = (.ok (decide (st.settle.current.kind = kind)), st.settle) := rfl

@[simp] theorem run_record (error : SyntaxError) :
    run (record error) st
      = (.ok (), { st with diagnostics := st.diagnostics ++ [.ofSyntaxError error] }) := rfl

@[simp] theorem run_fail (cause : Cause) (token : Token) :
    run (fail cause token : Parse α) st = (.error (.atToken cause.message token), st) := rfl

@[simp] theorem run_throw (error : SyntaxError) :
    run (throw error : Parse α) st = (.error error, st) := rfl

/-- `observing` turns the outcome of a parser into a value. -/
@[simp] theorem run_observing (p : Parse α) :
    run (observing p) st = (.ok (run p st).1, (run p st).2) := by
  have hrun : run (observing p) st
      = match run (p >>= fun a => pure (Except.ok a)) st with
        | (.ok a, st') => (.ok a, st')
        | (.error e, st') => (.ok (.error e), st') := by
    simp only [run, observing, MonadExcept.tryCatch, ExceptT.tryCatch, tryCatchThe,
      MonadExceptOf.tryCatch]
    rcases h : ((p >>= fun a => pure (Except.ok a) : Parse (Except SyntaxError α)).run.run st).run
      with ⟨_ | a, st'⟩ <;>
    · rw [ExceptT.run] at h
      simp only [ExceptT.run_mk, StateT.run_bind, Id.run_bind, h]
      rfl
  rw [hrun, run_bind]
  rcases run p st with ⟨e | a, st'⟩ <;> rfl

@[simp] theorem run_liftExcept (result : Except SyntaxError α) :
    run (liftExcept result : Parse α) st = (result, st) := by
  cases result <;> rfl

/-! ## Brackets -/

@[simp] theorem run_nested (p : Parse α) :
    run (nested p) st = ((run p { st with nesting := st.nesting + 1 }).1,
      { (run p { st with nesting := st.nesting + 1 }).2 with
        nesting := (run p { st with nesting := st.nesting + 1 }).2.nesting - 1 }) := rfl

@[simp] theorem run_asStatements (p : Parse α) :
    run (asStatements p) st = ((run p { st with nesting := 0 }).1,
      { (run p { st with nesting := 0 }).2 with nesting := st.nesting }) := rfl

theorem run_nested_ok {p : Parse α} {us vs : List Token} {n : Nat} {ds ds' : List Diagnostic} {a : α}
    (h : run p ⟨us, n + 1, ds⟩ = (.ok a, ⟨vs, n + 1, ds'⟩)) :
    run (nested p) ⟨us, n, ds⟩ = (.ok a, ⟨vs, n, ds'⟩) := by
  rw [run_nested]
  simp only [h, Nat.add_sub_cancel]

theorem run_asStatements_ok {p : Parse α} {us vs : List Token} {n : Nat} {ds ds' : List Diagnostic}
    {a : α} (h : run p ⟨us, 0, ds⟩ = (.ok a, ⟨vs, 0, ds'⟩)) :
    run (asStatements p) ⟨us, n, ds⟩ = (.ok a, ⟨vs, n, ds'⟩) := by
  rw [run_asStatements]
  simp only [h]

end Welle.Parser
