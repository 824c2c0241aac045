import Welle.Proofs.Append.Follows
import Welle.Proofs.Newlines.Context

set_option autoImplicit false

/-! # Parsers in front of the same visible tokens

Two states are twins if the same tokens are visible in them. `Mirrors` says that a parser does the
same in all twins of a state, as long as it succeeds and nothing is reported: it gives the same value
and ends in twins again. In between the brackets change that are open, so the judgement says which
ones are open in front of the parser and which ones behind it. Parsers look at the cursor only where
they skip the line feeds that do not count. -/

namespace Welle.Parser

open Welle.Newlines (Bracket Context visible ending)

variable {α β : Type}

/-! ## Twins -/

/-- Two states in which the same tokens are visible, and in which nothing is reported. -/
structure Twins (n : Nat) (c : Context) (st st' : State) : Prop where
  visible_eq : visible c st.tokens = visible c st'.tokens
  nesting : st.nesting = n ∧ st'.nesting = n
  clean : st.diagnostics = [] ∧ st'.diagnostics = []
  ends : st.Ends ∧ st'.Ends

/-- Outside of all brackets within which the parser skips line feeds, line feeds count. -/
def Heeds (n : Nat) (c : Context) : Prop := n = 0 → c.hides = false

theorem heeds_succ (n : Nat) (c : Context) : Heeds (n + 1) c := fun h => by cases h

theorem heeds_block (n : Nat) (bs : List Bracket) : Heeds n ⟨.block :: bs, false⟩ := fun _ => rfl

section Visible

variable {n : Nat} {c : Context} {st st' : State}

/-- The token at the cursor is the first visible one, but for the end of the text. -/
theorem visible_current (h : st.current.kind = .newline → c.hides = false) :
    visible c st.tokens = if st.current.kind = .eof then [ending]
      else st.current :: visible (c.step st.current.kind) st.dropToken.tokens := by
  unfold State.current at h ⊢
  cases htokens : st.tokens with
  | nil => rfl
  | cons t ts =>
    rw [htokens, List.headD_cons] at h
    rw [List.headD_cons, State.dropToken, htokens, List.drop_succ_cons, List.drop_zero]
    split
    next heof => exact Newlines.visible_eof heof ts
    next heof => exact Newlines.visible_cons heof h ts

theorem current_dropNewlines (st : State) : st.dropNewlines.current.kind ≠ .newline := by
  have hhead := List.head?_dropWhile_not (fun t : Token => decide (t.kind = .newline)) st.tokens
  unfold State.current State.dropNewlines
  dsimp only
  cases htokens : st.tokens.dropWhile (·.kind = .newline) with
  | nil => simp [Token.endOfText]
  | cons t ts =>
    rw [htokens] at hhead
    simpa using hhead

/-- A line feed at the cursor counts. -/
theorem hides_of_current (hn : Heeds n c) (hst : st.nesting = n)
    (h : st.settle.current.kind = .newline) : c.hides = false := by
  unfold State.settle at h
  split at h
  · exact absurd h (current_dropNewlines st)
  next hpos => exact hn (by omega)

namespace Twins

theorem symm (h : Twins n c st st') : Twins n c st' st :=
  ⟨h.visible_eq.symm, h.nesting.symm, h.clean.symm, h.ends.symm⟩

/-- The line feeds and the other tokens that a predicate holds of are passed over alike. -/
theorem dropWhile {p : Token.Kind → Bool} (h : Twins n c st st') (hline : p .newline = true)
    (hp : ∀ kind, p kind = true → kind ≠ .eof ∧ c.step kind = c) :
    Twins n c { st with tokens := st.tokens.dropWhile fun t => p t.kind }
      { st' with tokens := st'.tokens.dropWhile fun t => p t.kind } where
  visible_eq := by
    rw [Newlines.visible_dropWhile hline hp, Newlines.visible_dropWhile hline hp, h.visible_eq]
  nesting := h.nesting
  clean := h.clean
  ends := ⟨(Moves.dropWhile st _ fun t ht => (hp _ ht).1).ends h.ends.1,
    (Moves.dropWhile st' _ fun t ht => (hp _ ht).1).ends h.ends.2⟩

theorem dropNewlines (h : Twins n c st st') : Twins n c st.dropNewlines st'.dropNewlines := by
  refine h.dropWhile (p := fun kind => decide (kind = .newline)) rfl fun kind hkind => ?_
  obtain rfl := of_decide_eq_true hkind
  exact ⟨by simp, rfl⟩

theorem settle (h : Twins n c st st') : Twins n c st.settle st'.settle := by
  unfold State.settle
  rw [h.nesting.1, h.nesting.2]
  split
  · exact h.dropNewlines
  · exact h

/-- The same tokens with another number of open brackets. -/
theorem nest (h : Twins n c st st') {m k k' : Nat} (hk : k = m) (hk' : k' = m) :
    Twins m c { st with nesting := k } { st' with nesting := k' } :=
  ⟨h.visible_eq, ⟨hk, hk'⟩, h.clean, h.ends⟩

/-- A token at the cursor is at the cursor of all twins, and twins are behind it; at the end of the
    text so are all twins. -/
theorem current (h : Twins n c st st') (hn : Heeds n c) {t : Token} (hat : At st t) :
    (t.kind = .eof ∧ st'.settle.current.kind = .eof)
      ∨ (t.kind ≠ .eof ∧ At st'.settle t
        ∧ Twins n (c.step t.kind) st.dropToken st'.settle.dropToken) := by
  have hsettle := h.settle
  rw [hat.settled] at hsettle
  have hat' := At.ofSettle st'
  have hcounts : st.current.kind = .newline → c.hides = false := fun hline =>
    hides_of_current hn h.nesting.1 (by rwa [hat.settled])
  have hvisible := hsettle.visible_eq
  rw [visible_current hcounts, visible_current (hides_of_current hn h.nesting.2), hat.current]
    at hvisible
  by_cases heof : t.kind = .eof <;> by_cases heof' : st'.settle.current.kind = .eof
  · exact .inl ⟨heof, heof'⟩
  · rw [if_pos heof, if_neg heof'] at hvisible
    rw [← (List.cons.inj hvisible).1] at heof'
    exact absurd rfl heof'
  · rw [if_neg heof, if_pos heof'] at hvisible
    rw [(List.cons.inj hvisible).1] at heof
    exact absurd rfl heof
  · rw [if_neg heof, if_neg heof'] at hvisible
    obtain ⟨hcurrent, hbehind⟩ := List.cons.inj hvisible
    rw [← hcurrent] at hbehind hat'
    exact .inr ⟨heof, hat', hbehind, hsettle.nesting, hsettle.clean,
      (hat.moves heof).ends hsettle.ends.1, (hat'.moves heof).ends hsettle.ends.2⟩

/-- The kind at the cursor is the same. -/
theorem kind (h : Twins n c st st') (hn : Heeds n c) {t : Token} (hat : At st t) :
    st'.settle.current.kind = t.kind := by
  rcases h.current hn hat with ⟨heof, heof'⟩ | ⟨-, hat', -⟩
  · rw [heof, heof']
  · rw [hat'.current]

end Twins

end Visible

/-! ## The judgement -/

/-- The parser succeeds in all twins of a state in which it succeeds without a report, with the same
    value, and ends in twins, between other brackets. -/
def Mirrors (n : Nat) (c c' : Context) (st : State) (p : Parse α) : Prop :=
  ∀ a s, run p st = (.ok a, s) → s.diagnostics = [] → st.diagnostics = [] ∧
    ∀ st', Twins n c st st' → ∃ s', run p st' = (.ok a, s') ∧ Twins n c' s s'

namespace Mirrors

variable {n : Nat} {c c' c'' : Context} {st : State} {p : Parse α} {f : α → Parse β} {t : Token}

theorem pure {a : α} : Mirrors n c c st (Pure.pure a) := by
  intro b s hrun hclean
  cases hrun
  exact ⟨hclean, fun st' h => ⟨st', rfl, h⟩⟩

/-- A parser that does not succeed without a report. -/
theorem void (h : ∀ a s, run p st = (.ok a, s) → s.diagnostics ≠ []) : Mirrors n c c' st p :=
  fun a s hrun hclean => absurd hclean (h a s hrun)

theorem fail {cause : Cause} : Mirrors n c c' st (Parser.fail cause t : Parse α) :=
  void fun _ _ hrun => by cases hrun

/-! ### Sequencing -/

theorem bind_run (hp : Mirrors n c c' st p)
    (hf : ∀ a s, run p st = (.ok a, s) → Mirrors n c' c'' s (f a)) :
    Mirrors n c c'' st (p >>= f) := by
  intro b s hrun hclean
  obtain ⟨a, s₁, hp', hf'⟩ := run_bind_eq_ok hrun
  obtain ⟨hclean₁, hbehind⟩ := hf a s₁ hp' b s hf' hclean
  obtain ⟨hclean₀, hfirst⟩ := hp a s₁ hp' hclean₁
  refine ⟨hclean₀, fun st' h => ?_⟩
  obtain ⟨s₁', hrun₁, h₁⟩ := hfirst st' h
  obtain ⟨s', hrun₂, h₂⟩ := hbehind s₁' h₁
  exact ⟨s', (run_bind_ok hrun₁ f).trans hrun₂, h₂⟩

theorem bind (hp : Mirrors n c c' st p) (hf : ∀ a s, Mirrors n c' c'' s (f a)) :
    Mirrors n c c'' st (p >>= f) :=
  hp.bind_run fun a s _ => hf a s

theorem map {g : α → β} (h : Mirrors n c c' st p) : Mirrors n c c' st (g <$> p) := by
  rw [map_eq_pure_bind]
  exact h.bind fun _ _ => pure

/-- A step that goes from all twins to twins. -/
theorem step {a : α} {s : State} (hrun : run p st = (.ok a, s)) (hmoves : ∃ used, Moves st used s)
    (hother : ∀ st', Twins n c st st' → ∃ s', run p st' = (.ok a, s') ∧ Twins n c' s s')
    (h : Mirrors n c' c'' s (f a)) : Mirrors n c c'' st (p >>= f) := by
  obtain ⟨used, hmoves⟩ := hmoves
  have hp : Mirrors n c c' st p := by
    intro b s' hrun' hclean
    obtain ⟨hb, rfl⟩ := Prod.mk.inj (hrun.symm.trans hrun')
    obtain rfl := Except.ok.inj hb
    exact ⟨hmoves.clean hclean, hother⟩
  refine hp.bind_run fun b s' hrun' => ?_
  obtain ⟨hb, rfl⟩ := Prod.mk.inj (hrun.symm.trans hrun')
  obtain rfl := Except.ok.inj hb
  exact h

/-- A step that looks at the state and leaves it as it is. -/
theorem get_bind {f : State → Parse β} (h : Mirrors n c c' st (f st))
    (hsame : ∀ st', Twins n c st st' → ∀ b s, run (f st) st' = (.ok b, s) → s.diagnostics = [] →
      run (f st') st' = (.ok b, s)) : Mirrors n c c' st (get >>= f) := by
  intro b s hrun hclean
  rw [run_bind_ok (run_get st)] at hrun
  obtain ⟨hclean₀, hother⟩ := h b s hrun hclean
  refine ⟨hclean₀, fun st' hst' => ?_⟩
  obtain ⟨s', hrun', hs'⟩ := hother st' hst'
  exact ⟨s', (run_bind_ok (run_get st') f).trans (hsame st' hst' b s' hrun' hs'.clean.2), hs'⟩

theorem get_bind_eq {f : State → Parse β} (h : Mirrors n c c' st (f st))
    (hsame : ∀ st', Twins n c st st' → f st' = f st) : Mirrors n c c' st (get >>= f) :=
  get_bind h fun st' hst' b s hrun _ => by rw [hsame st' hst', hrun]

/-- A parser that takes the number of tokens as a limit that it does not reach. -/
theorem get_limit {q : Nat → Parse β} (h : ∀ limit, Mirrors n c c' st (q limit))
    (hsame : ∀ st limit, st.Ends → st.tokens.length ≤ limit →
      run (q st.tokens.length) st = run (q limit) st) :
    Mirrors n c c' st (get >>= fun st => q st.tokens.length) := by
  intro b s hrun hclean
  rw [run_bind_ok (run_get st)] at hrun
  refine ⟨(h _ b s hrun hclean).1, fun st' hst' => ?_⟩
  rw [hsame st _ hst'.ends.1 (Nat.le_max_left _ st'.tokens.length)] at hrun
  obtain ⟨s', hrun', hs'⟩ := (h _ b s hrun hclean).2 st' hst'
  refine ⟨s', ?_, hs'⟩
  rw [run_bind_ok (run_get st'), hsame st' _ hst'.ends.2 (Nat.le_max_right st.tokens.length _), hrun']

/-- An outcome that is looked at. Where there is an error, something is reported. -/
theorem observing_bind {f : Except SyntaxError α → Parse β} (hp : Mirrors n c c' st p)
    (hreports : ∀ e s, Reports s (f (.error e)))
    (hf : ∀ a s, run p st = (.ok a, s) → Mirrors n c' c'' s (f (.ok a))) :
    Mirrors n c c'' st (observing p >>= f) := by
  intro b s hrun hclean
  rw [run_bind_ok (run_observing st p)] at hrun
  rcases hp' : run p st with ⟨e | a, s₁⟩ <;> rw [hp'] at hrun
  · have hreported := (hreports e s₁).2
    rw [hrun] at hreported
    exact absurd hclean hreported
  · obtain ⟨hclean₁, hbehind⟩ := hf a s₁ hp' b s hrun hclean
    obtain ⟨hclean₀, hfirst⟩ := hp a s₁ hp' hclean₁
    refine ⟨hclean₀, fun st' h => ?_⟩
    obtain ⟨s₁', hrun₁, h₁⟩ := hfirst st' h
    obtain ⟨s', hrun₂, h₂⟩ := hbehind s₁' h₁
    refine ⟨s', ?_, h₂⟩
    rw [run_bind_ok (run_observing st' p), hrun₁]
    exact hrun₂

/-! ### The cursor -/

section Cursor

variable {f : Token → Parse β} {k : Token.Kind → Parse β} {b : Bool → Parse β}

theorem moves_settle (st : State) : ∃ used, Moves st used st.settle :=
  (Moves.settle st).imp fun _ h => h.1

theorem skipNewlines_bind {f : Unit → Parse β} (h : Mirrors n c c' st.dropNewlines (f ())) :
    Mirrors n c c' st (skipNewlines >>= f) :=
  step (run_skipNewlines st) ⟨_, .dropNewlines st⟩
    (fun st' h => ⟨_, run_skipNewlines st', h.dropNewlines⟩) h

theorem skipSeparators_bind {bs : List Bracket} {f : Unit → Parse β}
    (h : Mirrors n ⟨bs, false⟩ c' st.dropSeparators (f ())) :
    Mirrors n ⟨bs, false⟩ c' st (skipSeparators >>= f) := by
  refine step (run_skipSeparators st) ⟨_, moves_dropSeparators st⟩ (fun st' h => ?_) h
  refine ⟨_, run_skipSeparators st', h.dropWhile rfl fun kind hkind => ?_⟩
  cases kind <;> simp_all [Token.Kind.isSeparator, Context.step]

/-- The token at the cursor is the same, unless the text ends there. -/
theorem current_bind (hn : Heeds n c)
    (h : ∀ t, At st.settle t → t.kind ≠ .eof → Mirrors n c c' st.settle (f t))
    (hend : ∀ t, At st.settle t → t.kind = .eof →
      ∀ a s, run (f t) st.settle = (.ok a, s) → s.diagnostics ≠ []) :
    Mirrors n c c' st (current >>= f) := by
  by_cases heof : st.settle.current.kind = .eof
  · refine void fun a s hrun => ?_
    rw [run_bind_ok (run_current st)] at hrun
    exact hend _ (.ofSettle st) heof a s hrun
  · refine step (run_current st) (moves_settle st) (fun st' hst' => ?_) (h _ (.ofSettle st) heof)
    refine ⟨st'.settle, ?_, hst'.settle⟩
    obtain ⟨heof', -⟩ | ⟨-, hat, -⟩ := hst'.settle.current hn (.ofSettle st)
    · exact absurd heof' heof
    · rw [st'.settle_settle] at hat
      rw [run_current, hat.current]

/-- The token at the cursor, where the parser fails over the end of the text. -/
theorem current_bind_or_fail (hn : Heeds n c)
    (h : ∀ t, At st.settle t → t.kind ≠ .eof → Mirrors n c c' st.settle (f t))
    (hend : ∀ t, t.kind = .eof → ∃ cause, f t = Parser.fail cause t) :
    Mirrors n c c' st (Parser.current >>= f) := by
  refine current_bind hn h fun t _ heof a s hrun => ?_
  obtain ⟨cause, hcause⟩ := hend t heof
  rw [hcause] at hrun
  cases hrun

theorem current_fail {cause : Token → Cause} :
    Mirrors n c c' st (Parser.current >>= fun t => (Parser.fail (cause t) t : Parse α)) :=
  void fun a s hrun => by
    rw [run_bind_ok (run_current st)] at hrun
    cases hrun

theorem currentKind_bind (hn : Heeds n c)
    (h : ∀ t, At st.settle t → Mirrors n c c' st.settle (k t.kind)) :
    Mirrors n c c' st (currentKind >>= k) := by
  refine step (run_currentKind st) (moves_settle st) (fun st' hst' => ?_) (h _ (.ofSettle st))
  refine ⟨st'.settle, ?_, hst'.settle⟩
  have hkind := hst'.settle.kind hn (.ofSettle st)
  rw [st'.settle_settle] at hkind
  rw [run_currentKind, hkind]

theorem atKind_bind {kind : Token.Kind} (hn : Heeds n c)
    (htrue : ∀ t, At st.settle t → t.kind = kind → Mirrors n c c' st.settle (b true))
    (hfalse : ∀ t, At st.settle t → t.kind ≠ kind → Mirrors n c c' st.settle (b false)) :
    Mirrors n c c' st (atKind kind >>= b) := by
  unfold atKind
  rw [bind_assoc]
  refine currentKind_bind hn fun t hat => ?_
  rw [pure_bind]
  by_cases h : t.kind = kind
  · rw [decide_eq_true h]
    exact htrue t hat h
  · rw [decide_eq_false h]
    exact hfalse t hat h

/-- Moving on changes which brackets are open. -/
theorem advance_bind {kind : Token.Kind} (hn : Heeds n c) (hat : At st t) (hkind : t.kind = kind)
    (heof : kind ≠ .eof) (h : Mirrors n (c.step kind) c' st.dropToken (f t)) :
    Mirrors n c c' st (advance >>= f) := by
  subst hkind
  refine step (run_advance hat heof) ⟨_, hat.moves heof⟩ (fun st' hst' => ?_) h
  obtain ⟨heof', -⟩ | ⟨-, hat', hbehind⟩ := hst'.current hn hat
  · exact absurd heof' heof
  · refine ⟨st'.settle.dropToken, ?_, hbehind⟩
    have hsettled : run advance st' = run advance st'.settle := by
      unfold advance
      rw [run_bind, run_bind, run_current, run_current, st'.settle_settle]
    rw [hsettled, run_advance hat' heof]

theorem eat_bind {kind : Token.Kind} (hn : Heeds n c) (heof : kind ≠ .eof)
    (htrue : ∀ s, Mirrors n (c.step kind) c' s (b true)) (hfalse : ∀ s, Mirrors n c c' s (b false)) :
    Mirrors n c c' st (eat kind >>= b) := by
  unfold eat
  rw [bind_assoc]
  refine atKind_bind hn (fun t hat hkind => ?_) fun t _ _ => ?_
  · simp only [if_true, bind_assoc, pure_bind]
    exact advance_bind hn hat hkind heof (htrue _)
  · simpa using hfalse _

theorem expect_bind {kind : Token.Kind} {context : String} (hn : Heeds n c) (heof : kind ≠ .eof)
    (h : ∀ t s, t.kind = kind → Mirrors n (c.step kind) c' s (f t)) :
    Mirrors n c c' st (expect kind context >>= f) := by
  unfold expect
  rw [bind_assoc]
  refine atKind_bind hn (fun t hat hkind => ?_) fun t _ _ => ?_
  · simp only [if_true]
    exact advance_bind hn hat hkind heof (h t _ hkind)
  · refine void fun a s hrun => ?_
    simp only [Bool.false_eq_true, if_false, bind_assoc] at hrun
    rw [run_bind_ok (run_current _)] at hrun
    cases hrun

theorem expect {kind : Token.Kind} {context : String} (hn : Heeds n c) (heof : kind ≠ .eof) :
    Mirrors n c (c.step kind) st (Parser.expect kind context) := by
  rw [← bind_pure (Parser.expect kind context)]
  exact expect_bind hn heof fun _ _ _ => pure

theorem expectIdent {bs : List Bracket} {context : String} (hn : Heeds n ⟨bs, false⟩) :
    Mirrors n ⟨bs, false⟩ ⟨bs, false⟩ st (expectIdent context) :=
  expect_bind hn (by decide) fun _ _ _ => pure

/-- The kind behind a token that is no bracket. -/
theorem nextKind_bind {kind : Token.Kind} (hn : Heeds n c) (hat : At st t) (hkind : t.kind = kind)
    (heof : kind ≠ .eof) (hstep : c.step kind = c) (h : ∀ kind, Mirrors n c c' st (k kind)) :
    Mirrors n c c' st (nextKind >>= k) := by
  subst hkind
  refine step (run_nextKind hat) ⟨_, .refl st⟩ (fun st' hst' => ?_) (h _)
  obtain ⟨heof', -⟩ | ⟨-, hat', hbehind⟩ := hst'.current hn hat
  · exact absurd heof' heof
  refine ⟨st'.settle, ?_, hat.settled ▸ hst'.settle⟩
  rw [hstep] at hbehind
  have hkind := hbehind.settle.kind hn (.ofSettle _)
  rw [State.settle_settle] at hkind
  have hsettled : run nextKind st' = run nextKind st'.settle := by
    unfold nextKind
    rw [run_bind_ok (run_modify _ _), run_bind_ok (run_modify _ _), st'.settle_settle]
  rw [hsettled, run_nextKind hat', hkind]

/-- The kind behind a token where it does not matter. -/
theorem nextKind_bind_unused (h : ∀ kind, Mirrors n c c' st.settle (k kind))
    (hsame : ∀ kind kind', k kind = k kind') : Mirrors n c c' st (nextKind >>= k) := by
  have hlook (st : State) : ∃ kind, run nextKind st = (.ok kind, st.settle) := ⟨_, rfl⟩
  intro a s hrun hclean
  obtain ⟨kind, hkind⟩ := hlook st
  rw [run_bind_ok hkind] at hrun
  obtain ⟨hclean₀, hother⟩ := h kind a s hrun hclean
  obtain ⟨used, hmoves⟩ := moves_settle st
  refine ⟨hmoves.clean hclean₀, fun st' hst' => ?_⟩
  obtain ⟨kind', hkind'⟩ := hlook st'
  obtain ⟨s', hrun', hs'⟩ := hother st'.settle hst'.settle
  exact ⟨s', by rw [run_bind_ok hkind', hsame kind' kind, hrun'], hs'⟩

end Cursor

/-! ### Brackets and repetition -/

theorem nested (h : Mirrors (n + 1) c c' { st with nesting := st.nesting + 1 } p) :
    Mirrors n c c' st (Parser.nested p) := by
  intro a s hrun hclean
  rw [run_nested] at hrun
  obtain ⟨ha, rfl⟩ := Prod.mk.inj hrun
  obtain ⟨hclean₀, hother⟩ := h a _ (Prod.ext ha rfl) hclean
  refine ⟨hclean₀, fun st' hst' => ?_⟩
  obtain ⟨s', hrun', hs'⟩ := hother { st' with nesting := st'.nesting + 1 }
    (hst'.nest (congrArg (· + 1) hst'.nesting.1) (congrArg (· + 1) hst'.nesting.2))
  exact ⟨{ s' with nesting := s'.nesting - 1 }, by rw [run_nested, hrun'],
    hs'.nest (congrArg (· - 1) hs'.nesting.1) (congrArg (· - 1) hs'.nesting.2)⟩

theorem asStatements (h : Mirrors 0 c c' { st with nesting := 0 } p) :
    Mirrors n c c' st (Parser.asStatements p) := by
  intro a s hrun hclean
  rw [run_asStatements] at hrun
  obtain ⟨ha, rfl⟩ := Prod.mk.inj hrun
  obtain ⟨hclean₀, hother⟩ := h a _ (Prod.ext ha rfl) hclean
  refine ⟨hclean₀, fun st' hst' => ?_⟩
  obtain ⟨s', hrun', hs'⟩ := hother { st' with nesting := 0 } (hst'.nest rfl rfl)
  exact ⟨{ s' with nesting := st'.nesting }, by rw [run_asStatements, hrun'],
    hs'.nest hst'.nesting.1 hst'.nesting.2⟩

theorem collect {step : Parse (Option α)} (limit : Nat) (h : ∀ s, Mirrors n c c s step) :
    Mirrors n c c st (collect step limit) := by
  induction limit generalizing st with
  | zero => exact pure
  | succ limit ih =>
    refine (h st).bind ?_
    rintro (_ | a) s
    · exact pure
    · exact ih.bind fun as s => pure

theorem many {step : Parse (Option α)} (hsteps : Steps step) (h : ∀ s, Mirrors n c c s step) :
    Mirrors n c c st (many step) :=
  get_limit (fun limit => collect limit h) fun _ _ hends hlimit =>
    run_collect_of_le hsteps hends (Nat.le_refl _) hlimit

section Items

variable {bs : List Bracket} {item : Parse α} {close : Token.Kind}

theorem commaSeparated (hn : Heeds n ⟨bs, false⟩) (hmoving : Moving item)
    (h : ∀ s, Mirrors n ⟨bs, false⟩ ⟨bs, false⟩ s item) :
    Mirrors n ⟨bs, false⟩ ⟨bs, false⟩ st (commaSeparated item) := by
  refine (h st).bind fun first s => ?_
  refine bind (many (steps_itemRound hmoving) fun s => ?_) fun items s => pure
  refine eat_bind hn (by decide) (fun s => ?_) fun s => pure
  exact (h s).map

theorem furtherItemsUntil (hn : Heeds n ⟨bs, false⟩) (hmoving : Moving item)
    (h : ∀ s, Mirrors n ⟨bs, false⟩ ⟨bs, false⟩ s item) :
    Mirrors n ⟨bs, false⟩ ⟨bs, false⟩ st (furtherItemsUntil close item) := by
  refine many (steps_itemUntilRound close hmoving) fun s => ?_
  refine eat_bind hn (by decide) (fun s => ?_) fun s => pure
  exact atKind_bind hn (fun _ _ _ => pure) fun _ _ _ => (h _).map

theorem itemsUntil (hn : Heeds n ⟨bs, false⟩) (hmoving : Moving item)
    (h : ∀ s, Mirrors n ⟨bs, false⟩ ⟨bs, false⟩ s item) :
    Mirrors n ⟨bs, false⟩ ⟨bs, false⟩ st (itemsUntil close item) := by
  refine atKind_bind hn (fun _ _ _ => pure) fun _ _ _ => (h _).bind fun first s => ?_
  exact (furtherItemsUntil hn hmoving h).bind fun items s => pure

end Items

end Mirrors

end Welle.Parser
