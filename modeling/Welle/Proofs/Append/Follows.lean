import Welle.Proofs.Append.Junction

set_option autoImplicit false

/-! # Parsers on both sides of a junction

`Follows` says of two parsers that the second one, run on the other side of a junction, does what the
first one does. Where the two sides end differently, they may go different ways at the end of the
shorter text. So there only runs that succeed and report nothing are compared, and where `d` holds
only those behind which the text goes on. Within brackets `d` always holds, because the brackets have
to be closed; a parser that closes them is one that `Closes`. -/

namespace Welle.Parser

open Welle.Grammar (content)

variable {α β γ δ : Type}

/-! ## The judgements -/

/-- The outcome on the other side. -/
def Junction.outcome (j : Junction) (φ : α → β) (outcome : Except SyntaxError α × State) :
    Except SyntaxError β × State :=
  ((outcome.1.mapError (SyntaxError.lowered j.lines)).map φ, j.state outcome.2)

/-- Whether an outcome is compared. -/
def Junction.Counts (j : Junction) (d : Prop) (outcome : Except SyntaxError α × State) : Prop :=
  j.tail.isSome = true →
    (∃ a, outcome.1 = .ok a) ∧ outcome.2.diagnostics = [] ∧ (d → content outcome.2.tokens ≠ [])

/-- The parser `q` does on the other side what `p` does on `st`, if that counts. Errors have a
    place. -/
def Follows (j : Junction) (d : Prop) (st : State) (p : Parse α) (q : Parse β) (φ : α → β) : Prop :=
  st.EndsOnce → (∃ used, Moves st used (run p st).2) ∧
    (j.Counts d (run p st) → run q (j.state st) = j.outcome φ (run p st) ∧
      ∀ e, (run p st).1 = .error e → e.span.isSome = true)

/-- A parser that follows another one, which reads something significant where it succeeds and
    reports nothing. -/
structure Closes (j : Junction) (st : State) (p : Parse α) (q : Parse β) (φ : α → β) : Prop where
  follows : Follows j False st p q φ
  reads : st.EndsOnce → ∀ a st', run p st = (.ok a, st') → st'.diagnostics = [] →
    content st.tokens ≠ []

theorem Moves.report (st : State) (ds : List Diagnostic) :
    Moves st [] { st with diagnostics := st.diagnostics ++ ds } :=
  ⟨rfl, by simp, rfl, List.prefix_append ..⟩

/-- A parser that moves on and has reported something in the end. -/
def Reports (st : State) (p : Parse α) : Prop :=
  (∃ used, Moves st used (run p st).2) ∧ (run p st).2.diagnostics ≠ []

theorem reports_record {f : Unit → Parse α} (h : Moving (f ())) (e : SyntaxError) (st : State) :
    Reports st (record e >>= f) := by
  rw [Reports, run_bind_ok (run_record st e)]
  obtain ⟨used, hmoves⟩ := h { st with diagnostics := st.diagnostics ++ [.ofSyntaxError e] }
  refine ⟨⟨_, (Moves.report st _).trans hmoves⟩, fun hclean => ?_⟩
  simpa using hmoves.clean hclean

namespace Junction.Counts

variable {j : Junction} {d d' : Prop} {outcome : Except SyntaxError α × State}

theorem weaken (h : j.Counts d outcome) (himp : d' → d) : j.Counts d' outcome := by
  intro htail
  obtain ⟨hok, hclean, hcontent⟩ := h htail
  exact ⟨hok, hclean, fun hd => hcontent (himp hd)⟩

/-- Where something has to follow, there is something. -/
theorem regular {st : State} {used : List Token} (h : j.Counts d outcome)
    (hmoves : Moves st used outcome.2) (hd : d) : j.Regular st.tokens := by
  intro htail hnil
  obtain ⟨-, -, hcontent⟩ := h htail
  rw [hmoves.content] at hnil
  exact hcontent hd (List.append_eq_nil_iff.1 hnil).2

end Junction.Counts

namespace Follows

variable {j : Junction} {d d' : Prop} {st : State} {p : Parse α} {q : Parse β} {φ : α → β}
variable {f : α → Parse γ} {f' : β → Parse δ} {ψ : γ → δ}

theorem weaken (h : Follows j d st p q φ) (himp : d → d') : Follows j d' st p q φ := by
  intro hst
  obtain ⟨hmoves, hsame⟩ := h hst
  exact ⟨hmoves, fun hcounts => hsame (hcounts.weaken himp)⟩

theorem moves (h : Follows j d st p q φ) (hst : st.EndsOnce) :
    ∃ used, Moves st used (run p st).2 := (h hst).1

/-! ## Sequencing -/

theorem pure {a : α} {b : β} (h : φ a = b) : Follows j d st (Pure.pure a) (Pure.pure b) φ := by
  intro _
  refine ⟨⟨[], .refl st⟩, fun _ => ⟨?_, fun e he => by cases he⟩⟩
  subst h
  rfl

theorem fail {cause cause' : Cause} {t : Token} (h : cause'.message = cause.message) :
    Follows j d st (Parser.fail cause t : Parse α) (Parser.fail cause' (t.lowered j.lines)) φ := by
  intro _
  refine ⟨⟨[], .refl st⟩, fun _ => ⟨?_, fun e he => ?_⟩⟩
  · rw [run_fail, run_fail, h]
    rfl
  · rw [run_fail] at he
    obtain rfl := Except.error.inj he
    rfl

/-- Where the first of two parsers fails, both fail. -/
theorem error_bind (hp : Follows j d' st p q φ) (hst : st.EndsOnce) {e : SyntaxError} {st' : State}
    (hrun : run p st = (.error e, st')) (hcounts : j.Counts d (run (p >>= f) st)) :
    run (q >>= f') (j.state st) = j.outcome ψ (run (p >>= f) st) ∧
      ∀ e', (run (p >>= f) st).1 = .error e' → e'.span.isSome = true := by
  rw [run_bind_error hrun] at hcounts ⊢
  have hcounts' : j.Counts d' (run p st) := by
    intro htail
    obtain ⟨⟨a, ha⟩, -⟩ := hcounts htail
    cases ha
  obtain ⟨hrun', hplaced⟩ := (hp hst).2 hcounts'
  rw [hrun] at hrun' hplaced
  refine ⟨run_bind_error hrun' f', fun e' he' => ?_⟩
  obtain rfl := Except.error.inj he'
  exact hplaced e rfl

/-- Two parsers in a row follow two parsers in a row. What the first one demands of the text behind
    it has to be there when the second one succeeds. -/
theorem bind_of (hp : Follows j d' st p q φ)
    (hf : ∀ a st', run p st = (.ok a, st') → st'.nesting = st.nesting →
      Follows j d st' (f a) (f' (φ a)) ψ)
    (hdemand : ∀ a st' used, run p st = (.ok a, st') → st'.EndsOnce →
      Moves st' used (run (f a) st').2 → j.Counts d (run (f a) st') → d' → j.Regular st'.tokens) :
    Follows j d st (p >>= f) (q >>= f') ψ := by
  intro hst
  obtain ⟨⟨used, hmoves⟩, hsame⟩ := hp hst
  rcases hrun : run p st with ⟨e | a, st'⟩
  · refine ⟨⟨used, ?_⟩, hp.error_bind hst hrun⟩
    rw [run_bind_error hrun]
    rwa [hrun] at hmoves
  · rw [hrun] at hmoves hsame
    rw [run_bind_ok hrun]
    have hst' := hmoves.endsOnce hst
    obtain ⟨⟨used', hmoves'⟩, hsame'⟩ := hf a st' hrun hmoves.nesting hst'
    refine ⟨⟨used ++ used', hmoves.trans hmoves'⟩, fun hcounts => ?_⟩
    -- the first outcome counts as well: whatever it had reported would still be there
    have hcounts' : j.Counts d' ((.ok a, st') : Except SyntaxError α × State) := fun htail =>
      ⟨⟨a, rfl⟩, hmoves'.clean (hcounts htail).2.1, fun hd =>
        hdemand a st' used' hrun hst' hmoves' hcounts hd htail⟩
    rw [run_bind_ok (hsame hcounts').1]
    exact hsame' hcounts

theorem bind_run (hp : Follows j d st p q φ)
    (hf : ∀ a st', run p st = (.ok a, st') → st'.nesting = st.nesting →
      Follows j d st' (f a) (f' (φ a)) ψ) : Follows j d st (p >>= f) (q >>= f') ψ :=
  hp.bind_of hf fun _ _ _ _ _ hmoves hcounts hd => hcounts.regular hmoves hd

theorem bind (hp : Follows j d st p q φ)
    (hf : ∀ a st', st'.nesting = st.nesting → Follows j d st' (f a) (f' (φ a)) ψ) :
    Follows j d st (p >>= f) (q >>= f') ψ :=
  hp.bind_run fun a st' _ => hf a st'

theorem map {g : α → γ} {g' : β → δ} (h : Follows j d st p q φ) (hg : ∀ a, ψ (g a) = g' (φ a)) :
    Follows j d st (g <$> p) (g' <$> q) ψ := by
  rw [map_eq_pure_bind, map_eq_pure_bind]
  exact h.bind fun a st' _ => pure (hg a)

theorem mapSome (h : Follows j d st p q φ) :
    Follows j d st (some <$> p) (some <$> q) (Option.map φ) := h.map fun _ => rfl

/-- Parsers that do the same can be exchanged. -/
theorem congr {p' : Parse α} {q' : Parse β} (h : Follows j d st p' q' φ)
    (hp : st.EndsOnce → run p st = run p' st)
    (hq : st.EndsOnce → run q (j.state st) = run q' (j.state st)) : Follows j d st p q φ := by
  intro hst
  rw [hp hst, hq hst]
  exact h hst

/-- A parser that reads something needs to be compared only where there is something. -/
theorem of_reads {R : Prop → List Token → α → State → Prop} (hreads : Reads st p R)
    (hne : ∀ us a st', R False us a st' → us ≠ [])
    (h : j.Regular st.tokens → Follows j d st p q φ) : Follows j d st p q φ := by
  intro hst
  refine ⟨hreads.moves, fun hcounts => ?_⟩
  have hregular : j.Regular st.tokens := by
    intro htail hnil
    obtain ⟨⟨a, ha⟩, -⟩ := hcounts htail
    obtain ⟨used, hmoves, hread⟩ := hreads.read (Prod.ext ha rfl)
    rw [hmoves.content] at hnil
    exact hne _ _ _ (hread False (by simp)) (List.append_eq_nil_iff.1 hnil).1
  exact (h hregular hst).2 hcounts

/-- Where something has to follow, a parser that reads something needs to be compared only where
    there is more than one token. -/
theorem of_reads_further {R : Prop → List Token → α → State → Prop} (hd : d) (hreads : Reads st p R)
    (hne : ∀ us a st', R False us a st' → us ≠ [])
    (h : (j.tail.isSome = true → 1 < (content st.tokens).length) → Follows j d st p q φ) :
    Follows j d st p q φ := by
  intro hst
  refine ⟨hreads.moves, fun hcounts => ?_⟩
  refine (h (fun htail => ?_) hst).2 hcounts
  obtain ⟨⟨a, ha⟩, -, hcontent⟩ := hcounts htail
  obtain ⟨used, hmoves, hread⟩ := hreads.read (Prod.ext ha rfl)
  have hused : 0 < (significant used).length :=
    List.length_pos_iff.2 (hne _ _ _ (hread False (by simp)))
  have hbehind := List.length_pos_iff.2 (hcontent hd)
  rw [hmoves.content, List.length_append]
  exact Nat.add_le_add hused hbehind

/-- A parser that fails or reports something is compared only where both sides end alike. -/
theorem of_void (hmoves : ∃ used, Moves st used (run p st).2)
    (hvoid : ∀ a, (run p st).1 = .ok a → (run p st).2.diagnostics ≠ [])
    (h : j.tail = none → Follows j d st p q φ) : Follows j d st p q φ := by
  intro hst
  refine ⟨hmoves, fun hcounts => ?_⟩
  cases htail : j.tail with
  | none => exact (h htail hst).2 hcounts
  | some tail =>
    obtain ⟨⟨a, ha⟩, hclean, -⟩ := hcounts (by rw [htail]; rfl)
    exact absurd hclean (hvoid a ha)

/-- A step that does on the other side what it does on this one, at least where what follows
    counts. -/
theorem step_of {a : α} {b : β} {st' : State} {used : List Token} (hrun : run p st = (.ok a, st'))
    (hmoves : Moves st used st') (h : Follows j d st' (f a) (f' b) ψ)
    (hother : ∀ used', st.EndsOnce → Moves st' used' (run (f a) st').2 →
      j.Counts d (run (f a) st') → run q (j.state st) = (.ok b, j.state st')) :
    Follows j d st (p >>= f) (q >>= f') ψ := by
  intro hst
  rw [run_bind_ok hrun]
  obtain ⟨⟨used', hmoves'⟩, hsame⟩ := h (hmoves.endsOnce hst)
  refine ⟨⟨used ++ used', hmoves.trans hmoves'⟩, fun hcounts => ?_⟩
  rw [run_bind_ok (hother used' hst hmoves' hcounts)]
  exact hsame hcounts

theorem step {a : α} {b : β} {st' : State} {used : List Token} (hrun : run p st = (.ok a, st'))
    (hmoves : Moves st used st') (h : Follows j d st' (f a) (f' b) ψ)
    (hother : st.EndsOnce → (d → j.Regular st'.tokens) →
      run q (j.state st) = (.ok b, j.state st')) :
    Follows j d st (p >>= f) (q >>= f') ψ :=
  step_of hrun hmoves h fun _ hst hmoves' hcounts =>
    hother hst fun hd => hcounts.regular hmoves' hd

/-- Two parsers in a row, the second of which may go back behind the first one. -/
theorem bind_back (hmoves : ∃ used, Moves st used (run (p >>= f) st).2) (hp : Follows j False st p q φ)
    (hclean : ∀ a st', (run (f a) st').2.diagnostics = [] → st'.diagnostics = [])
    (hf : ∀ a st' used, Moves st used st' → run p st = (.ok a, st') → st.EndsOnce →
      j.Counts d (run (f a) st') → run (f' (φ a)) (j.state st') = j.outcome ψ (run (f a) st') ∧
        ∀ e, (run (f a) st').1 = .error e → e.span.isSome = true) :
    Follows j d st (p >>= f) (q >>= f') ψ := by
  intro hst
  refine ⟨hmoves, fun hcounts => ?_⟩
  obtain ⟨⟨used, hused⟩, hsame⟩ := hp hst
  rcases hrun : run p st with ⟨e | a, st'⟩
  · exact hp.error_bind hst hrun hcounts
  · rw [hrun] at hused hsame
    rw [run_bind_ok hrun] at hcounts ⊢
    have hcounts' : j.Counts False ((.ok a, st') : Except SyntaxError α × State) := fun htail =>
      ⟨⟨a, rfl⟩, hclean a st' (hcounts htail).2.1, False.elim⟩
    rw [run_bind_ok (hsame hcounts').1]
    exact hf a st' used hused hrun hst hcounts

/-- An outcome that is looked at. Where there is an error, something is reported. -/
theorem observing_bind {f : Except SyntaxError α → Parse γ} {f' : Except SyntaxError β → Parse δ}
    (hp : Follows j d st p q φ)
    (hok : ∀ a st', st'.nesting = st.nesting → Follows j d st' (f (.ok a)) (f' (.ok (φ a))) ψ)
    (hreports : ∀ e st', Reports st' (f (.error e)))
    (herror : ∀ e st', e.span.isSome = true → st'.nesting = st.nesting →
      Follows j d st' (f (.error e)) (f' (.error (e.lowered j.lines))) ψ) :
    Follows j d st (observing p >>= f) (observing q >>= f') ψ := by
  intro hst
  obtain ⟨⟨used, hused⟩, hsame⟩ := hp hst
  rcases hrun : run p st with ⟨e | a, st'⟩
  · have hobserved : run (observing p) st = (.ok (.error e), st') := by rw [run_observing, hrun]
    rw [hrun] at hused hsame
    rw [run_bind_ok hobserved]
    obtain ⟨⟨used', hused'⟩, hreported⟩ := hreports e st'
    refine ⟨⟨used ++ used', hused.trans hused'⟩, fun hcounts => ?_⟩
    -- the report keeps the outcome from being compared unless both sides end alike
    cases htail : j.tail with
    | some tail => exact absurd (hcounts (by rw [htail]; rfl)).2.1 hreported
    | none =>
      obtain ⟨hrun', hplaced⟩ := hsame fun h => by simp [htail] at h
      have hobserved' : run (observing q) (j.state st)
          = (.ok (.error (e.lowered j.lines)), j.state st') := by
        rw [run_observing, hrun']
        rfl
      rw [run_bind_ok hobserved']
      exact (herror e st' (hplaced e rfl) hused.nesting (hused.endsOnce hst)).2 hcounts
  · have hobserved : run (observing p) st = (.ok (.ok a), st') := by rw [run_observing, hrun]
    rw [hrun] at hused hsame
    rw [run_bind_ok hobserved]
    have hst' := hused.endsOnce hst
    obtain ⟨⟨used', hused'⟩, hsame'⟩ := hok a st' hused.nesting hst'
    refine ⟨⟨used ++ used', hused.trans hused'⟩, fun hcounts => ?_⟩
    have hcounts' : j.Counts d ((.ok a, st') : Except SyntaxError α × State) := fun htail =>
      ⟨⟨a, rfl⟩, hused'.clean (hcounts htail).2.1, fun hd => hcounts.regular hused' hd htail⟩
    have hobserved' : run (observing q) (j.state st) = (.ok (.ok (φ a)), j.state st') := by
      rw [run_observing, (hsame hcounts').1]
      rfl
    rw [run_bind_ok hobserved']
    exact hsame' hcounts

end Follows

/-! ## The cursor -/

/-- Looking at the cursor shows the same on both sides: outside of brackets, where something has to
    follow, or where something does. -/
def Looks (j : Junction) (d : Prop) (st : State) : Prop :=
  0 < st.nesting → d ∨ j.Regular st.tokens

theorem Looks.settle {j : Junction} {d : Prop} {st : State} (h : Looks j d st)
    (hregular : d → j.Regular st.settle.tokens) (hst : st.EndsOnce) :
    (j.state st).settle = j.state st.settle := by
  obtain ⟨used, hmoves, -⟩ := Moves.settle st
  exact Junction.settle_state hst fun hnesting =>
    (h hnesting).elim (fun hd => (hregular hd).before hmoves) id

theorem nesting_settle (st : State) : st.settle.nesting = st.nesting := by
  unfold State.settle
  split <;> rfl

/-- Looking behind a token shows what is at the cursor when the token is passed. -/
theorem run_nextKind {st : State} {t : Token} (hat : At st t) :
    run nextKind st = (.ok st.dropToken.settle.current.kind, st) := by
  have hrun : run nextKind st = (.ok ((if 0 < st.settle.nesting
      then (st.settle.tokens.drop 1).find? (·.kind ≠ .newline)
      else (st.settle.tokens.drop 1).head?).map (·.kind) |>.getD .eof), st.settle) := rfl
  rw [hrun, hat.settled]
  unfold State.settle State.current
  congr 2
  split
  next hnesting =>
    rw [if_pos (show 0 < st.dropToken.nesting from hnesting), List.find?_eq_head?_dropWhile_not]
    simp only [State.dropNewlines, State.dropToken, ne_eq, decide_not, Bool.not_not]
    cases (st.tokens.drop 1).dropWhile (·.kind = .newline) <;> rfl
  next hnesting =>
    rw [if_neg (show ¬0 < st.dropToken.nesting from hnesting)]
    simp only [State.dropToken]
    cases st.tokens.drop 1 <;> rfl

/-- The state behind the separators at the cursor. -/
def State.dropSeparators (st : State) : State :=
  { st with tokens := st.tokens.dropWhile (·.kind.isSeparator) }

theorem run_skipSeparators (st : State) : run skipSeparators st = (.ok (), st.dropSeparators) := rfl

theorem moves_dropSeparators (st : State) :
    Moves st (st.tokens.takeWhile (·.kind.isSeparator)) st.dropSeparators := by
  refine Moves.dropWhile st _ fun t ht heof => ?_
  simp [heof, Token.Kind.isSeparator] at ht

/-- Passing over separators is the same on both sides where something else follows. -/
theorem run_skipSeparators_state {j : Junction} {st : State} (hst : st.EndsOnce)
    (h : j.Regular st.dropSeparators.tokens) :
    run skipSeparators (j.state st) = (.ok (), j.state st.dropSeparators) := by
  have htokens := Junction.tokens_dropWhile (p := Token.Kind.isSeparator) hst rfl h.current
  rw [run_skipSeparators]
  simp only [State.dropSeparators, Junction.state, htokens]

namespace Follows

variable {j : Junction} {d : Prop} {st : State} {α β : Type} {ψ : α → β}

theorem skipSeparators_bind {f : Unit → Parse α} {f' : Unit → Parse β}
    (hd : d ∨ j.Regular st.dropSeparators.tokens)
    (h : Follows j d st.dropSeparators (f ()) (f' ()) ψ) :
    Follows j d st (skipSeparators >>= f) (skipSeparators >>= f') ψ :=
  step (run_skipSeparators st) (moves_dropSeparators st) h fun hst hregular =>
    run_skipSeparators_state hst (hd.elim hregular id)

theorem skipNewlines_bind {f : Unit → Parse α} {f' : Unit → Parse β}
    (hregular : j.Regular st.tokens) (h : Follows j d st.dropNewlines (f ()) (f' ()) ψ) :
    Follows j d st (skipNewlines >>= f) (skipNewlines >>= f') ψ := by
  refine step (run_skipNewlines st) (.dropNewlines st) h ?_
  intro hst _
  rw [run_skipNewlines, Junction.dropNewlines_state hst hregular]

theorem get_bind {f : State → Parse α} {f' : State → Parse β}
    (h : Follows j d st (f st) (f' (j.state st)) ψ) : Follows j d st (get >>= f) (get >>= f') ψ :=
  step (run_get st) (.refl st) h fun _ _ => run_get _

/-- A report that has a place. -/
theorem record_bind {e : SyntaxError} {f : Unit → Parse α} {f' : Unit → Parse β}
    (he : e.span.isSome = true)
    (h : ∀ st', st'.tokens = st.tokens → st'.nesting = st.nesting →
      Follows j d st' (f ()) (f' ()) ψ) :
    Follows j d st (record e >>= f) (record (e.lowered j.lines) >>= f') ψ := by
  refine step (run_record st e) (.report st _) (h _ rfl rfl) ?_
  intro _ _
  rw [run_record, Diagnostic.ofSyntaxError_lowered _ he]
  simp [Junction.state]

/-- A token that is there is also there on the other side. -/
theorem current_bind {f : Token → Parse α} {f' : Token → Parse β} (hregular : j.Regular st.tokens)
    (h : ∀ t st', At st' t → st'.nesting = st.nesting → (j.tail.isSome = true → t.kind ≠ .eof) →
      j.Regular st'.tokens → Follows j d st' (f t) (f' (t.lowered j.lines)) ψ) :
    Follows j d st (current >>= f) (current >>= f') ψ := by
  obtain ⟨used, hmoves, -⟩ := Moves.settle st
  refine step (run_current st) hmoves (h _ _ (.ofSettle st) (nesting_settle st)
    hregular.settle.current hregular.settle) fun hst _ => ?_
  rw [run_current, Junction.settle_state hst fun _ => hregular,
    Junction.current_state (hmoves.endsOnce hst) hregular.settle.current]

/-- A token is there on both sides, or there is none and the parser fails over that. -/
theorem current_bind_or_fail {f : Token → Parse α} {f' : Token → Parse β}
    (hend : ∀ t, t.kind = .eof → ∃ cause, f t = Parser.fail cause t)
    (h : ∀ t st', At st' t → st'.nesting = st.nesting → (j.tail.isSome = true → t.kind ≠ .eof) →
      Follows j d st' (f t) (f' (t.lowered j.lines)) ψ) :
    Follows j d st (current >>= f) (current >>= f') ψ := by
  obtain ⟨used, hmoves, -⟩ := Moves.settle st
  by_cases hkind : j.tail.isSome = true → st.settle.current.kind ≠ .eof
  · refine step (run_current st) hmoves (h _ _ (.ofSettle st) (nesting_settle st) hkind) ?_
    intro hst _
    rw [run_current, Junction.settle_state_of_current hst hkind,
      Junction.current_state (hmoves.endsOnce hst) hkind]
  · obtain ⟨htail, heof⟩ := Classical.not_imp.1 hkind
    obtain ⟨cause, hfail⟩ := hend _ (not_not.1 heof)
    have hrun : run (current >>= f) st
        = (.error (.atToken cause.message st.settle.current), st.settle) := by
      rw [run_bind_ok (run_current st), hfail, run_fail]
    refine of_void (by rw [hrun]; exact ⟨used, hmoves⟩) (by simp [hrun]) fun hnone => ?_
    simp [hnone] at htail

/-- A failure at the cursor. -/
theorem current_fail {cause : Token → Cause}
    (h : ∀ t, (cause (t.lowered j.lines)).message = (cause t).message) :
    Follows j d st (current >>= fun t => Parser.fail (cause t) t)
      (current >>= fun t => Parser.fail (cause t) t) ψ := by
  obtain ⟨used, hmoves, -⟩ := Moves.settle st
  have hrun : run (current >>= fun t => (Parser.fail (cause t) t : Parse α)) st
      = (.error _, st.settle) := run_bind_ok (run_current st) _
  refine of_void (by rw [hrun]; exact ⟨used, hmoves⟩) (by simp [hrun]) fun htail => ?_
  exact current_bind (Junction.regular_of_none htail _) fun t st' _ _ _ _ => fail (h t)

/-- The kind at the cursor. Where the text ends, the other side may go on with a line feed. -/
theorem currentKind_bind {f : Token.Kind → Parse α} {f' : Token.Kind → Parse β}
    (hlook : Looks j d st)
    (h : ∀ t st', At st' t → st'.nesting = st.nesting → Follows j d st' (f t.kind) (f' t.kind) ψ)
    (hend : ∀ st', st'.nesting = st.nesting → Follows j d st' (f .eof) (f' .newline) ψ) :
    Follows j d st (currentKind >>= f) (currentKind >>= f') ψ := by
  obtain ⟨used, hmoves, -⟩ := Moves.settle st
  have hother (hst : st.EndsOnce) (hregular : d → j.Regular st.settle.tokens) :
      run currentKind (j.state st) = (.ok (j.state st.settle).current.kind, j.state st.settle) := by
    rw [run_currentKind, hlook.settle hregular hst]
  -- at the end of the shorter text the other side is in front of the line feed
  by_cases hkind : j.tail.isSome = true → st.settle.current.kind ≠ .eof
  · refine step (run_currentKind st) hmoves (h _ _ (.ofSettle st) (nesting_settle st)) ?_
    intro hst hregular
    rw [hother hst hregular, Junction.current_state (hmoves.endsOnce hst) hkind]
    rfl
  · obtain ⟨htail, heof⟩ := Classical.not_imp.1 hkind
    obtain ⟨tail, htail⟩ := Option.isSome_iff_exists.1 htail
    have heof := not_not.1 heof
    have hrun := run_currentKind st
    rw [heof] at hrun
    refine step hrun hmoves (hend _ (nesting_settle st)) fun hst hregular => ?_
    rw [hother hst hregular, Junction.current_state_end htail heof, tail.newline_kind]

/-- The kind at the cursor where something has to follow or does. -/
theorem currentKind_bind_inside {f : Token.Kind → Parse α} {f' : Token.Kind → Parse β}
    (hd : d ∨ j.Regular st.tokens)
    (h : ∀ t, At st.settle t → Follows j d st.settle (f t.kind) (f' t.kind) ψ) :
    Follows j d st (currentKind >>= f) (currentKind >>= f') ψ := by
  obtain ⟨used, hmoves, -⟩ := Moves.settle st
  refine step (run_currentKind st) hmoves (h _ (.ofSettle st)) ?_
  intro hst hregular
  have hregular : j.Regular st.settle.tokens := hd.elim hregular (·.settle)
  rw [run_currentKind, Junction.settle_state hst fun _ => hregular.before hmoves,
    Junction.current_state (hmoves.endsOnce hst) hregular.current]
  rfl

theorem atKind_bind_inside {kind : Token.Kind} {f : Bool → Parse α} {f' : Bool → Parse β}
    (hd : d ∨ j.Regular st.tokens)
    (htrue : ∀ t, At st.settle t → t.kind = kind → Follows j d st.settle (f true) (f' true) ψ)
    (hfalse : ∀ t, At st.settle t → t.kind ≠ kind →
      Follows j d st.settle (f false) (f' false) ψ) :
    Follows j d st (atKind kind >>= f) (atKind kind >>= f') ψ := by
  unfold atKind
  rw [bind_assoc, bind_assoc]
  refine currentKind_bind_inside hd fun t hat => ?_
  simp only [pure_bind]
  by_cases h : t.kind = kind
  · rw [decide_eq_true h]
    exact htrue t hat h
  · rw [decide_eq_false h]
    exact hfalse t hat h

/-- The kind of a token that is there. -/
theorem atKind_bind_of_regular {kind : Token.Kind} {f : Bool → Parse α} {f' : Bool → Parse β}
    (hregular : j.Regular st.tokens)
    (htrue : ∀ t st', At st' t → t.kind = kind → st'.nesting = st.nesting →
      Follows j d st' (f true) (f' true) ψ)
    (hfalse : ∀ t st', At st' t → t.kind ≠ kind → st'.nesting = st.nesting →
      Follows j d st' (f false) (f' false) ψ) :
    Follows j d st (atKind kind >>= f) (atKind kind >>= f') ψ := by
  unfold atKind currentKind
  simp only [bind_assoc, pure_bind]
  refine current_bind hregular fun t st' hat hnesting _ _ => ?_
  by_cases h : t.kind = kind
  · rw [decide_eq_true h, decide_eq_true (show (t.lowered j.lines).kind = kind from h)]
    exact htrue t st' hat h hnesting
  · rw [decide_eq_false h, decide_eq_false (show ¬(t.lowered j.lines).kind = kind from h)]
    exact hfalse t st' hat h hnesting

theorem atKind_bind {kind : Token.Kind} {f : Bool → Parse α} {f' : Bool → Parse β}
    (hlook : Looks j d st) (heof : kind ≠ .eof) (hnewline : kind ≠ .newline)
    (htrue : ∀ t st', At st' t → t.kind = kind → st'.nesting = st.nesting →
      Follows j d st' (f true) (f' true) ψ)
    (hfalse : ∀ st', st'.nesting = st.nesting → Follows j d st' (f false) (f' false) ψ) :
    Follows j d st (atKind kind >>= f) (atKind kind >>= f') ψ := by
  unfold atKind
  rw [bind_assoc, bind_assoc]
  refine currentKind_bind hlook (fun t st' hat hnesting => ?_) fun st' hnesting => ?_
  · simp only [pure_bind]
    by_cases h : t.kind = kind
    · rw [decide_eq_true h]
      exact htrue t st' hat h hnesting
    · rw [decide_eq_false h]
      exact hfalse st' hnesting
  · simp only [pure_bind]
    rw [decide_eq_false heof.symm, decide_eq_false hnewline.symm]
    exact hfalse st' hnesting

theorem advance_bind {t : Token} {f : Token → Parse α} {f' : Token → Parse β} (hat : At st t)
    (heof : t.kind ≠ .eof)
    (h : ∀ st', st'.nesting = st.nesting → Follows j d st' (f t) (f' (t.lowered j.lines)) ψ) :
    Follows j d st (advance >>= f) (advance >>= f') ψ := by
  refine step (run_advance hat heof) (hat.moves heof) (h _ rfl) fun hst _ => ?_
  rw [run_advance (Junction.at_state hst hat fun _ => heof) heof, Junction.dropToken_state hat heof]

/-- Moving on by whatever token there is, where something is there. -/
theorem advance (hregular : j.Regular st.tokens) :
    Follows j d st advance advance (Token.lowered j.lines) := by
  unfold Parser.advance
  refine current_bind hregular fun t st' hat hnesting _ _ => ?_
  by_cases heof : t.kind = .eof
  · rw [if_neg (by simpa using heof), if_neg (by simpa using heof)]
    exact pure rfl
  · rw [if_pos heof, if_pos (show (t.lowered j.lines).kind ≠ .eof from heof)]
    refine step (b := ()) (run_modify st' _) (hat.moves heof) (pure rfl) fun _ _ => ?_
    rw [run_modify, Junction.dropToken_state hat heof]

theorem eat_bind {kind : Token.Kind} {f : Bool → Parse α} {f' : Bool → Parse β}
    (hlook : Looks j d st) (heof : kind ≠ .eof) (hnewline : kind ≠ .newline)
    (htrue : ∀ st', st'.nesting = st.nesting → Follows j d st' (f true) (f' true) ψ)
    (hfalse : ∀ st', st'.nesting = st.nesting → Follows j d st' (f false) (f' false) ψ) :
    Follows j d st (eat kind >>= f) (eat kind >>= f') ψ := by
  unfold eat
  rw [bind_assoc, bind_assoc]
  refine atKind_bind hlook heof hnewline (fun t st' hat hkind hnesting => ?_) fun st' hnesting => ?_
  · simp only [if_true, bind_assoc, pure_bind]
    exact advance_bind hat (hkind ▸ heof) fun st'' hnesting' => htrue st'' (hnesting'.trans hnesting)
  · simpa using hfalse st' hnesting

theorem eat {kind : Token.Kind} (hlook : Looks j d st) (heof : kind ≠ .eof)
    (hnewline : kind ≠ .newline) : Follows j d st (eat kind) (eat kind) id := by
  rw [← bind_pure (Parser.eat kind)]
  exact eat_bind hlook heof hnewline (fun _ _ => pure rfl) fun _ _ => pure rfl

/-- The kind behind a token, where there is another one. -/
theorem nextKind_bind {t : Token} {f : Token.Kind → Parse α} {f' : Token.Kind → Parse β}
    (hat : At st t) (heof : t.kind ≠ .eof) (hregular : j.Regular st.dropToken.tokens)
    (h : ∀ kind, Follows j d st (f kind) (f' kind) ψ) :
    Follows j d st (nextKind >>= f) (nextKind >>= f') ψ := by
  refine step (run_nextKind hat) (.refl st) (h _) fun hst _ => ?_
  have hbehind := (hat.moves heof).endsOnce hst
  obtain ⟨used, hmoves, -⟩ := Moves.settle st.dropToken
  rw [run_nextKind (Junction.at_state hst hat fun _ => heof), Junction.dropToken_state hat heof,
    Junction.settle_state hbehind fun _ => hregular,
    Junction.current_state (hmoves.endsOnce hbehind) hregular.settle.current]
  rfl

/-- The kind behind a token that does not matter. -/
theorem nextKind_bind_unused {t : Token} {f : Token.Kind → Parse α} {f' : Token.Kind → Parse β}
    (hd : d) (hat : At st t) (h : ∀ kind kind', Follows j d st (f kind) (f' kind') ψ) :
    Follows j d st (nextKind >>= f) (nextKind >>= f') ψ := by
  obtain ⟨kind', hrun⟩ : ∃ kind', run nextKind (j.state st) = (.ok kind', (j.state st).settle) :=
    ⟨_, rfl⟩
  refine step (run_nextKind hat) (.refl st) (h _ kind') fun hst hregular => ?_
  rw [hrun, (Junction.at_state hst hat (hat.current ▸ (hregular hd).current)).settled]

/-- The kind behind a token outside of brackets. Where the text ends, the other side may go on with a
    line feed. -/
theorem nextKind_bind_outside {t : Token} {f : Token.Kind → Parse α} {f' : Token.Kind → Parse β}
    (hnesting : st.nesting = 0) (hat : At st t) (heof : t.kind ≠ .eof)
    (h : ∀ kind, Follows j d st (f kind) (f' kind) ψ)
    (hend : Follows j d st (f .eof) (f' .newline) ψ) :
    Follows j d st (nextKind >>= f) (nextKind >>= f') ψ := by
  have hsettled : st.dropToken.settle = st.dropToken := by
    simp [State.settle, State.dropToken, hnesting]
  have hother (hst : st.EndsOnce) :
      run nextKind (j.state st) = (.ok (j.state st.dropToken).current.kind, j.state st) := by
    rw [run_nextKind (Junction.at_state hst hat fun _ => heof), Junction.dropToken_state hat heof]
    simp [State.settle, Junction.state, State.dropToken, hnesting]
  have hrun := run_nextKind hat
  rw [hsettled] at hrun
  by_cases hkind : j.tail.isSome = true → st.dropToken.current.kind ≠ .eof
  · refine step hrun (.refl st) (h _) fun hst _ => ?_
    rw [hother hst, Junction.current_state ((hat.moves heof).endsOnce hst) hkind]
    rfl
  · obtain ⟨htail, hnext⟩ := Classical.not_imp.1 hkind
    obtain ⟨tail, htail⟩ := Option.isSome_iff_exists.1 htail
    rw [not_not.1 hnext] at hrun
    refine step hrun (.refl st) hend fun hst _ => ?_
    rw [hother hst, Junction.current_state_end htail (not_not.1 hnext), tail.newline_kind]

/-- A token that is asked for. -/
theorem expect {kind : Token.Kind} {context : String} (heof : kind ≠ .eof)
    (hnewline : kind ≠ .newline) :
    Follows j d st (expect kind context) (expect kind context) (Token.lowered j.lines) := by
  refine of_reads (Reads.expect heof hnewline) (fun us t st' h => by simp [h.1]) fun hregular => ?_
  unfold Parser.expect
  refine atKind_bind (fun _ => .inr hregular) heof hnewline (fun t st' hat hkind _ => ?_)
    fun st' hnesting => ?_
  · simp only [if_true]
    rw [← bind_pure Parser.advance]
    exact advance_bind hat (hkind ▸ heof) fun _ _ => pure rfl
  · exact current_fail fun _ => rfl

theorem expect_bind {kind : Token.Kind} {context : String} {f : Token → Parse α}
    {f' : Token → Parse β} (heof : kind ≠ .eof) (hnewline : kind ≠ .newline)
    (h : ∀ t st', t.kind = kind → st'.nesting = st.nesting →
      Follows j d st' (f t) (f' (t.lowered j.lines)) ψ) :
    Follows j d st (Parser.expect kind context >>= f) (Parser.expect kind context >>= f') ψ := by
  refine (expect heof hnewline).bind_run fun t st' hrun hnesting => ?_
  obtain ⟨used, -, hread⟩ := (Reads.expect heof hnewline).read hrun
  exact h t st' (hread False (by simp)).2 hnesting

theorem expectIdent {context : String} :
    Follows j d st (expectIdent context) (expectIdent context) (Ident.lowered j.lines) := by
  unfold Parser.expectIdent
  exact expect_bind (by decide) (by decide) fun t st' _ _ => pure rfl

theorem expectIdent_bind {context : String} {f : Ident → Parse α} {f' : Ident → Parse β}
    (h : ∀ id st', st'.nesting = st.nesting → Follows j d st' (f id) (f' (id.lowered j.lines)) ψ) :
    Follows j d st (Parser.expectIdent context >>= f) (Parser.expectIdent context >>= f') ψ :=
  expectIdent.bind h

/-! ## Brackets around a parser -/

section Brackets

variable {p : Parse α} {q : Parse β} {φ : α → β}

theorem nested (h : Follows j d { st with nesting := st.nesting + 1 } p q φ) :
    Follows j d st (nested p) (nested q) φ := by
  intro hst
  obtain ⟨⟨used, hmoves⟩, hsame⟩ := h hst
  rw [run_nested, run_nested]
  refine ⟨⟨used, hmoves.tokens, hmoves.inside, ?_, hmoves.diagnostics⟩, fun hcounts => ?_⟩
  · simp [hmoves.nesting]
  · obtain ⟨hrun, hplaced⟩ := hsame hcounts
    refine ⟨?_, hplaced⟩
    have hstate : ({ j.state st with nesting := (j.state st).nesting + 1 } : State)
        = j.state { st with nesting := st.nesting + 1 } := rfl
    rw [hstate, hrun]
    rfl

theorem asStatements (h : Follows j d { st with nesting := 0 } p q φ) :
    Follows j d st (asStatements p) (asStatements q) φ := by
  intro hst
  obtain ⟨⟨used, hmoves⟩, hsame⟩ := h hst
  rw [run_asStatements, run_asStatements]
  refine ⟨⟨used, hmoves.tokens, hmoves.inside, rfl, hmoves.diagnostics⟩, fun hcounts => ?_⟩
  obtain ⟨hrun, hplaced⟩ := hsame hcounts
  refine ⟨?_, hplaced⟩
  have hstate : ({ j.state st with nesting := 0 } : State) = j.state { st with nesting := 0 } := rfl
  rw [hstate, hrun]
  rfl

end Brackets

/-! ## Repetition -/

section Repetition

variable {γ δ : Type} {φ : γ → δ}

theorem collect {step : Parse (Option γ)} {step' : Parse (Option δ)} (limit : Nat)
    (h : ∀ st', st'.nesting = st.nesting → Follows j d st' step step' (Option.map φ)) :
    Follows j d st (collect step limit) (collect step' limit) (List.map φ) := by
  induction limit generalizing st with
  | zero => exact pure rfl
  | succ limit ih =>
    refine (h st rfl).bind ?_
    rintro (_ | a) st' hnesting
    · exact pure rfl
    · refine (ih fun st'' hnesting' => h st'' (hnesting'.trans hnesting)).bind fun as _ _ => ?_
      exact pure rfl

/-- A loop. The other side may be longer, but the rounds are the same. -/
theorem many {step : Parse (Option γ)} {step' : Parse (Option δ)} (hsteps : Steps step)
    (h : ∀ st', st'.nesting = st.nesting → Follows j d st' step step' (Option.map φ)) :
    Follows j d st (many step) (many step') (List.map φ) := by
  refine (collect (j.state st).tokens.length h).congr (fun hst => ?_) fun _ => ?_
  · rw [Parser.many, run_bind_ok (run_get st)]
    exact run_collect_of_le hsteps hst.ends (Nat.le_refl _) (j.length_le hst)
  · rw [Parser.many, run_bind_ok (run_get _)]

variable {item : Parse γ} {item' : Parse δ}

theorem furtherItems (hd : 0 < st.nesting → d) (hmoving : Moving item)
    (h : ∀ st', st'.nesting = st.nesting → Follows j d st' item item' φ) :
    Follows j d st (furtherItems item) (furtherItems item') (List.map φ) := by
  refine many (steps_itemRound hmoving) fun st' hnesting => ?_
  refine eat_bind (fun h => .inl (hd (hnesting ▸ h))) (by decide) (by decide)
    (fun st'' hnesting' => ?_) fun st'' _ => ?_
  · simp only [if_true]
    exact (h st'' (hnesting'.trans hnesting)).map fun _ => rfl
  · exact pure rfl

theorem commaSeparated (hd : 0 < st.nesting → d) (hmoving : Moving item)
    (h : ∀ st', st'.nesting = st.nesting → Follows j d st' item item' φ) :
    Follows j d st (commaSeparated item) (commaSeparated item') (List.map φ) := by
  refine (h st rfl).bind fun first st' hnesting => ?_
  refine (furtherItems (fun h => hd (hnesting ▸ h)) hmoving fun st'' hnesting' =>
    h st'' (hnesting'.trans hnesting)).bind fun items _ _ => ?_
  exact pure rfl

theorem furtherItemsUntil {close : Token.Kind} (hclose : close ≠ .eof) (hline : close ≠ .newline)
    (hd : 0 < st.nesting → d) (hmoving : Moving item)
    (h : ∀ st', st'.nesting = st.nesting → Follows j d st' item item' φ) :
    Follows j d st (furtherItemsUntil close item) (furtherItemsUntil close item') (List.map φ) := by
  refine many (steps_itemUntilRound close hmoving) fun st' hnesting => ?_
  refine eat_bind (fun h => .inl (hd (hnesting ▸ h))) (by decide) (by decide)
    (fun st'' hnesting' => ?_) fun st'' _ => ?_
  · simp only [if_true]
    have hnesting := hnesting'.trans hnesting
    refine atKind_bind (fun h => .inl (hd (hnesting ▸ h))) hclose hline (fun _ _ _ _ _ => ?_)
      fun st₃ hnesting₃ => ?_
    · exact pure rfl
    · exact (h st₃ (hnesting₃.trans hnesting)).map fun _ => rfl
  · exact pure rfl

theorem itemsUntil {close : Token.Kind} (hclose : close ≠ .eof) (hline : close ≠ .newline)
    (hd : 0 < st.nesting → d) (hmoving : Moving item)
    (h : ∀ st', st'.nesting = st.nesting → Follows j d st' item item' φ) :
    Follows j d st (itemsUntil close item) (itemsUntil close item') (List.map φ) := by
  refine atKind_bind (fun h => .inl (hd h)) hclose hline (fun _ _ _ _ _ => pure rfl)
    fun st' hnesting => ?_
  refine (h st' hnesting).bind fun first st'' hnesting' => ?_
  have hnesting := hnesting'.trans hnesting
  refine (furtherItemsUntil hclose hline (fun h => hd (hnesting ▸ h)) hmoving fun st₃ hnesting₃ =>
    h st₃ (hnesting₃.trans hnesting)).bind fun items _ _ => ?_
  exact pure rfl

end Repetition

end Follows

/-! ## Brackets -/

namespace Closes

variable {j : Junction} {st : State} {α β γ δ : Type} {p : Parse α} {q : Parse β} {φ : α → β}
variable {f : α → Parse γ} {f' : β → Parse δ} {ψ : γ → δ}

/-- Something that closes needs nothing behind it. -/
theorem free {d : Prop} (h : Closes j st p q φ) : Follows j d st p q φ :=
  h.follows.weaken False.elim

/-- Where something that closes counts, there is something. -/
theorem regular (h : Closes j st p q φ) (hst : st.EndsOnce) (hcounts : j.Counts False (run p st)) :
    j.Regular st.tokens := by
  intro htail
  obtain ⟨⟨a, ha⟩, hclean, -⟩ := hcounts htail
  exact h.reads hst a _ (Prod.ext ha rfl) hclean

/-- Something that closes follows something behind which the text goes on. -/
theorem bind (hp : Follows j True st p q φ)
    (hf : ∀ a st', st'.nesting = st.nesting → Closes j st' (f a) (f' (φ a)) ψ) :
    Closes j st (p >>= f) (q >>= f') ψ where
  follows := by
    intro hst
    refine hp.bind_of (fun a st' _ hnesting => (hf a st' hnesting).follows) ?_ hst
    intro a st' used hrun hst' _ hcounts _
    obtain ⟨_, hmoves⟩ := hp.moves hst
    rw [hrun] at hmoves
    exact (hf a st' hmoves.nesting).regular hst' hcounts
  reads := by
    intro hst c st'' hrun hclean hnil
    obtain ⟨a, st', hrun', hrun⟩ := run_bind_eq_ok hrun
    obtain ⟨used, hmoves⟩ := hp.moves hst
    rw [hrun'] at hmoves
    rw [hmoves.content] at hnil
    exact (hf a st' hmoves.nesting).reads (hmoves.endsOnce hst) c st'' hrun hclean
      (List.append_eq_nil_iff.1 hnil).2

/-- What stands behind something that closes is free. -/
theorem then_bind (hp : Closes j st p q φ)
    (hf : ∀ a st', st'.nesting = st.nesting → Follows j False st' (f a) (f' (φ a)) ψ) :
    Closes j st (p >>= f) (q >>= f') ψ where
  follows := hp.follows.bind hf
  reads := by
    intro hst c st'' hrun hclean
    obtain ⟨a, st', hrun', hrun⟩ := run_bind_eq_ok hrun
    obtain ⟨used, hmoves⟩ := hp.follows.moves hst
    rw [hrun'] at hmoves
    obtain ⟨used', hmoves'⟩ := (hf a st' hmoves.nesting).moves (hmoves.endsOnce hst)
    rw [hrun] at hmoves'
    exact hp.reads hst a st' hrun' (hmoves'.clean hclean)

/-- A step that does the same on both sides in front of something that closes. -/
theorem step {a : α} {b : β} {st' : State} {used : List Token} (hrun : run p st = (.ok a, st'))
    (hmoves : Moves st used st') (h : Closes j st' (f a) (f' b) ψ)
    (hother : st.EndsOnce → j.Regular st'.tokens → run q (j.state st) = (.ok b, j.state st')) :
    Closes j st (p >>= f) (q >>= f') ψ where
  follows := Follows.step_of hrun hmoves h.follows fun _ hst _ hcounts =>
    hother hst (h.regular (hmoves.endsOnce hst) hcounts)
  reads := by
    intro hst c st'' hrun' hclean hnil
    rw [run_bind_ok hrun] at hrun'
    rw [hmoves.content] at hnil
    exact h.reads (hmoves.endsOnce hst) c st'' hrun' hclean (List.append_eq_nil_iff.1 hnil).2

/-- Passing over separators in front of something that closes. -/
theorem skipSeparators_bind {f : Unit → Parse γ} {f' : Unit → Parse δ}
    (h : ∀ st', st'.nesting = st.nesting → Closes j st' (f ()) (f' ()) ψ) :
    Closes j st (skipSeparators >>= f) (skipSeparators >>= f') ψ := by
  exact step (run_skipSeparators st) (moves_dropSeparators st) (h _ rfl) run_skipSeparators_state

theorem currentKind_bind {f : Token.Kind → Parse γ} {f' : Token.Kind → Parse δ}
    (h : ∀ t st', At st' t → st'.nesting = st.nesting → Closes j st' (f t.kind) (f' t.kind) ψ) :
    Closes j st (currentKind >>= f) (currentKind >>= f') ψ := by
  obtain ⟨used, hmoves, -⟩ := Moves.settle st
  refine step (run_currentKind st) hmoves (h _ _ (.ofSettle st) (nesting_settle st)) ?_
  intro hst hregular
  rw [run_currentKind, Junction.settle_state hst fun _ => hregular.before hmoves,
    Junction.current_state (hmoves.endsOnce hst) hregular.current]
  rfl

theorem atKind_bind {kind : Token.Kind} {f : Bool → Parse γ} {f' : Bool → Parse δ}
    (htrue : ∀ t st', At st' t → t.kind = kind → st'.nesting = st.nesting →
      Closes j st' (f true) (f' true) ψ)
    (hfalse : ∀ st', st'.nesting = st.nesting → Closes j st' (f false) (f' false) ψ) :
    Closes j st (atKind kind >>= f) (atKind kind >>= f') ψ := by
  unfold atKind
  rw [bind_assoc, bind_assoc]
  refine currentKind_bind fun t st' hat hnesting => ?_
  simp only [pure_bind]
  by_cases h : t.kind = kind
  · rw [decide_eq_true h]
    exact htrue t st' hat h hnesting
  · rw [decide_eq_false h]
    exact hfalse st' hnesting

/-- A part that is left out in front of a token of a given kind. -/
theorem unless_bind {kind : Token.Kind} {f : Option α → Parse γ} {f' : Option β → Parse δ}
    (hp : ∀ st', Follows j True st' p q φ)
    (hf : ∀ part st', Closes j st' (f part) (f' (part.map φ)) ψ) :
    Closes j st (do
      if ← atKind kind then
        let part ← Pure.pure none
        f part
      else
        let part ← some <$> p
        f part) (do
      if ← atKind kind then
        let part ← Pure.pure none
        f' part
      else
        let part ← some <$> q
        f' part) ψ := by
  refine atKind_bind (fun _ st' _ _ _ => ?_) fun st' _ => ?_
  · simp only [if_true, pure_bind]
    exact hf none st'
  · simp only [Bool.false_eq_true, if_false]
    exact bind (hp st').mapSome fun part st' _ => hf part st'

theorem advance_bind {t : Token} {f : Token → Parse γ} {f' : Token → Parse δ} (hat : At st t)
    (heof : t.kind ≠ .eof) (hnewline : t.kind ≠ .newline)
    (h : ∀ st', st'.nesting = st.nesting → Follows j False st' (f t) (f' (t.lowered j.lines)) ψ) :
    Closes j st (advance >>= f) (advance >>= f') ψ where
  follows := .advance_bind hat heof h
  reads := by
    intro _ _ _ _ _
    rw [(hat.moves heof).content, significant_singleton hnewline]
    simp

theorem eat_bind {kind : Token.Kind} {f : Bool → Parse γ} {f' : Bool → Parse δ}
    (heof : kind ≠ .eof) (hnewline : kind ≠ .newline)
    (htrue : ∀ st', st'.nesting = st.nesting → Follows j False st' (f true) (f' true) ψ)
    (hfalse : ∀ st', st'.nesting = st.nesting → Closes j st' (f false) (f' false) ψ) :
    Closes j st (eat kind >>= f) (eat kind >>= f') ψ := by
  unfold eat
  rw [bind_assoc, bind_assoc]
  refine atKind_bind (fun t st' hat hkind hnesting => ?_) fun st' hnesting => ?_
  · simp only [if_true, bind_assoc, pure_bind]
    exact advance_bind hat (hkind ▸ heof) (hkind ▸ hnewline) fun st'' hnesting' =>
      htrue st'' (hnesting'.trans hnesting)
  · simpa using hfalse st' hnesting

theorem expect {kind : Token.Kind} {context : String} (heof : kind ≠ .eof)
    (hnewline : kind ≠ .newline) :
    Closes j st (expect kind context) (expect kind context) (Token.lowered j.lines) where
  follows := .expect heof hnewline
  reads := by
    intro _ t st' hrun _
    obtain ⟨used, hmoves, hread⟩ := (Reads.expect heof hnewline).read hrun
    rw [hmoves.content, (hread False (by simp)).1]
    simp

theorem expect_bind {kind : Token.Kind} {context : String} {f : Token → Parse γ}
    {f' : Token → Parse δ} (heof : kind ≠ .eof) (hnewline : kind ≠ .newline)
    (h : ∀ t st', st'.nesting = st.nesting →
      Follows j False st' (f t) (f' (t.lowered j.lines)) ψ) :
    Closes j st (Parser.expect kind context >>= f) (Parser.expect kind context >>= f') ψ :=
  (expect heof hnewline).then_bind h

/-- An outcome that is looked at. Where there is an error, something is reported. -/
theorem observing_bind {f : Except SyntaxError α → Parse γ} {f' : Except SyntaxError β → Parse δ}
    (hp : Closes j st p q φ)
    (hok : ∀ a st', st'.nesting = st.nesting → Follows j False st' (f (.ok a)) (f' (.ok (φ a))) ψ)
    (hreports : ∀ e st', Reports st' (f (.error e)))
    (herror : ∀ e st', e.span.isSome = true → st'.nesting = st.nesting →
      Follows j False st' (f (.error e)) (f' (.error (e.lowered j.lines))) ψ) :
    Closes j st (observing p >>= f) (observing q >>= f') ψ where
  follows := hp.follows.observing_bind hok hreports herror
  reads := by
    intro hst c st'' hrun hclean
    rw [run_bind_ok (run_observing st p)] at hrun
    rcases hp' : run p st with ⟨e | a, st'⟩ <;> rw [hp'] at hrun
    · obtain ⟨-, hreported⟩ := hreports e st'
      rw [hrun] at hreported
      exact absurd hclean hreported
    · obtain ⟨used, hused⟩ := hp.follows.moves hst
      rw [hp'] at hused
      obtain ⟨used', hused'⟩ := (hok a st' hused.nesting).moves (hused.endsOnce hst)
      rw [hrun] at hused'
      exact hp.reads hst a st' hp' (hused'.clean hclean)

theorem nested (h : Closes j { st with nesting := st.nesting + 1 } p q φ) :
    Closes j st (nested p) (nested q) φ where
  follows := h.follows.nested
  reads := by
    intro hst a st' hrun hclean
    rw [run_nested] at hrun
    obtain ⟨hresult, rfl⟩ := Prod.mk.inj hrun
    exact h.reads hst a _ (Prod.ext hresult rfl) hclean

theorem asStatements (h : Closes j { st with nesting := 0 } p q φ) :
    Closes j st (asStatements p) (asStatements q) φ where
  follows := h.follows.asStatements
  reads := by
    intro hst a st' hrun hclean
    rw [run_asStatements] at hrun
    obtain ⟨hresult, rfl⟩ := Prod.mk.inj hrun
    exact h.reads hst a _ (Prod.ext hresult rfl) hclean

end Closes

end Welle.Parser
