import Welle.Proofs.Parser.Progress

set_option autoImplicit false

/-! # The cursor stays in bounds

A state has a token at the cursor only if tokens are left, and brackets can only be left where some
are open. `InBounds tokens p st` says that a run of `p` from `st` never comes into a state in which
something is missing: it follows the parts that the parser is made of, through every state on the
way. The parser of an interpolation has tokens of its own, which its run stays in.

`Contained p` says so of all states from which a run may start. It is kept by everything that parsers
are made of, so that a proof about a parser has the shape of the parser. -/

namespace Welle.Parser

/-! ## States within a list of tokens -/

/-- The cursor is on a token of the list: none of the tokens behind it ends the text, and one of those
    from the cursor on does. -/
structure State.Within (tokens : List Token) (st : State) : Prop where
  inside : ∃ used, tokens = used ++ st.tokens ∧ ∀ t ∈ used, t.kind ≠ .eof
  ends : st.Ends

namespace State.Within

variable {tokens used : List Token} {st st' : State}

/-- The cursor has an index in the list, and it is not greater than that of the first token that ends
    the text. -/
theorem exists_index (h : st.Within tokens) : ∃ index, tokens[index]? = some st.current
    ∧ st.tokens = tokens.drop index ∧ index ≤ tokens.findIdx (·.kind = .eof) := by
  obtain ⟨used, htokens, hused⟩ := h.inside
  obtain ⟨t, ht, -⟩ := h.ends
  refine ⟨used.length, ?_, ?_, ?_⟩
  · rw [htokens, List.getElem?_append_right (Nat.le_refl _), Nat.sub_self, current]
    cases hst : st.tokens with
    | nil =>
      rw [hst] at ht
      cases ht
    | cons u us => rfl
  · rw [htokens, List.drop_left]
  · rw [htokens, List.findIdx_append]
    have hlength : used.findIdx (·.kind = .eof) = used.length :=
      List.findIdx_eq_length_of_false (by simpa using hused)
    rw [if_neg (by omega)]
    exact Nat.le_add_left _ _

theorem moves (h : st.Within tokens) (hmoves : Moves st used st') : st'.Within tokens where
  inside := by
    obtain ⟨before, htokens, hbefore⟩ := h.inside
    refine ⟨before ++ used, ?_, fun t ht => ?_⟩
    · rw [htokens, hmoves.tokens, List.append_assoc]
    · rcases List.mem_append.1 ht with ht | ht
      · exact hbefore t ht
      · exact hmoves.inside t ht
  ends := hmoves.ends h.ends

/-- Only the tokens of a state matter. -/
theorem congr (h : st.Within tokens) (htokens : st'.tokens = st.tokens) : st'.Within tokens where
  inside := htokens ▸ h.inside
  ends := by
    obtain ⟨t, ht, heof⟩ := h.ends
    exact ⟨t, htokens ▸ ht, heof⟩

end State.Within

/-- The start of an interpolation. -/
abbrev holeStart (source : String) (origin : Position) : State :=
  { State.ofTokens (Token.tokenizeAt source origin) with nesting := 1 }

theorem within_ofTokens (tokens : List Token) :
    (State.ofTokens tokens).Within (State.ofTokens tokens).tokens :=
  ⟨⟨[], rfl, by simp⟩, State.ends_ofTokens tokens⟩

theorem within_holeStart (source : String) (origin : Position) :
    (holeStart source origin).Within (holeStart source origin).tokens :=
  (within_ofTokens _).congr rfl

/-! ## Runs in bounds -/

/-- A run of a parser that stays within a list of tokens. In every state on the way the cursor is on a
    token of the list, and only brackets change how many brackets are open. Where brackets are left,
    some are open. -/
inductive InBounds : List Token → {α : Type} → Parse α → State → Prop where
  | pure {tokens : List Token} {α : Type} {st : State} (a : α) :
      st.Within tokens → InBounds tokens (Pure.pure a : Parse α) st
  | throw {tokens : List Token} {α : Type} {st : State} (error : SyntaxError) :
      st.Within tokens → InBounds tokens (MonadExcept.throw error : Parse α) st
  | get {tokens : List Token} {st : State} : st.Within tokens → InBounds tokens MonadState.get st
  | modify {tokens : List Token} {st : State} (f : State → State) :
      st.Within tokens → (f st).Within tokens → (f st).nesting = st.nesting →
      InBounds tokens (modify f) st
  | bind {tokens : List Token} {α β : Type} {st : State} {p : Parse α} {f : α → Parse β} :
      InBounds tokens p st →
      (∀ a st', run p st = (.ok a, st') → InBounds tokens (f a) st') → InBounds tokens (p >>= f) st
  | observing {tokens : List Token} {α : Type} {st : State} {p : Parse α} :
      InBounds tokens p st → InBounds tokens (observing p) st
  | nested {tokens : List Token} {α : Type} {st : State} {p : Parse α} :
      InBounds tokens p { st with nesting := st.nesting + 1 } →
      0 < (run p { st with nesting := st.nesting + 1 }).2.nesting → InBounds tokens (nested p) st
  | asStatements {tokens : List Token} {α : Type} {st : State} {p : Parse α} :
      InBounds tokens p { st with nesting := 0 } → InBounds tokens (asStatements p) st
  | hole {tokens : List Token} {st : State} {g : Grammar} {source : String}
      {origin opening : Position} :
      st.Within tokens →
      InBounds (holeStart source origin).tokens (holeExpression g opening)
        (holeStart source origin) →
      InBounds tokens (hole g source origin opening) st

/-- An interpolation leaves the state as it is, but for what is reported. -/
theorem run_hole_keeps (g : Grammar) (source : String) (origin opening : Position) (st : State) :
    ∃ result diagnostics, run (hole g source origin opening) st
      = (result, { st with diagnostics := diagnostics }) := by
  refine ⟨(run (holeExpression g opening) (holeStart source origin)).1,
    st.diagnostics ++ (run (holeExpression g opening) (holeStart source origin)).2.diagnostics, ?_⟩
  unfold hole
  rw [run_bind_ok (run_modify st _), run_liftExcept]
  rfl

/-- A run in bounds ends within the tokens, with as many open brackets as it started with, whether it
    succeeds or fails. -/
theorem InBounds.outcome {tokens : List Token} {α : Type} {p : Parse α} {st : State}
    (h : InBounds tokens p st) :
    (run p st).2.Within tokens ∧ (run p st).2.nesting = st.nesting := by
  induction h with
  | pure a hst => exact ⟨hst, rfl⟩
  | throw error hst => exact ⟨hst, rfl⟩
  | get hst => exact ⟨hst, rfl⟩
  | modify f hst hf hnesting => exact ⟨hf, hnesting⟩
  | @bind tokens α β st p f _ _ ihp ihf =>
    rw [run_bind]
    rcases hrun : run p st with ⟨e | a, st'⟩
    · rw [hrun] at ihp
      exact ihp
    · obtain ⟨hwithin, hnesting⟩ := ihf a st' hrun
      rw [hrun] at ihp
      exact ⟨hwithin, hnesting.trans ihp.2⟩
  | observing _ ih =>
    rw [run_observing]
    exact ih
  | nested _ _ ih =>
    rw [run_nested]
    exact ⟨ih.1.congr rfl, by rw [ih.2, Nat.add_sub_cancel]⟩
  | asStatements _ ih =>
    rw [run_asStatements]
    exact ⟨ih.1.congr rfl, rfl⟩
  | @hole tokens st g source origin opening hst _ =>
    obtain ⟨result, diagnostics, hrun⟩ := run_hole_keeps g source origin opening st
    rw [hrun]
    exact ⟨hst.congr rfl, rfl⟩

/-! ## Contained parsers -/

/-- A parser that stays in bounds from wherever it starts. -/
def Contained {α : Type} (p : Parse α) : Prop :=
  ∀ tokens st, st.Within tokens → InBounds tokens p st

namespace Contained

variable {α β : Type} {p q : Parse α} {f : α → Parse β}

theorem pure (a : α) : Contained (Pure.pure a : Parse α) := fun _ _ hst => .pure a hst

theorem throw (error : SyntaxError) : Contained (MonadExcept.throw error : Parse α) :=
  fun _ _ hst => .throw error hst

theorem fail (cause : Cause) (token : Token) : Contained (Parser.fail cause token : Parse α) :=
  throw _

theorem get : Contained (MonadState.get : Parse State) := fun _ _ hst => .get hst

/-- A second parser goes on where the first one stopped, within the same tokens. -/
theorem bind_within {tokens : List Token} {st : State} (hp : Contained p) (hst : st.Within tokens)
    (hf : ∀ a st', st'.Within tokens → InBounds tokens (f a) st') : InBounds tokens (p >>= f) st := by
  refine .bind (hp tokens st hst) fun a st' hrun => hf a st' ?_
  have hwithin := (hp tokens st hst).outcome.1
  rw [hrun] at hwithin
  exact hwithin

theorem bind (hp : Contained p) (hf : ∀ a, Contained (f a)) : Contained (p >>= f) :=
  fun tokens _ hst => hp.bind_within hst fun a st' hst' => hf a tokens st' hst'

theorem map (g : α → β) (hp : Contained p) : Contained (g <$> p) := by
  rw [map_eq_pure_bind]
  exact hp.bind fun a => pure (g a)

theorem ite {c : Prop} [Decidable c] (hp : Contained p) (hq : Contained q) :
    Contained (if c then p else q) := by
  split
  · exact hp
  · exact hq

theorem observing (hp : Contained p) : Contained (observing p) :=
  fun tokens st hst => .observing (hp tokens st hst)

theorem liftExcept (result : Except SyntaxError α) : Contained (liftExcept result : Parse α) := by
  cases result with
  | error e => exact throw e
  | ok a => exact pure a

/-- Between brackets that are opened here, there are open brackets to leave. -/
theorem nested (hp : Contained p) : Contained (nested p) := by
  intro tokens st hst
  have hinner := hp tokens { st with nesting := st.nesting + 1 } (hst.congr rfl)
  refine .nested hinner ?_
  rw [hinner.outcome.2]
  exact Nat.succ_pos _

theorem asStatements (hp : Contained p) : Contained (asStatements p) :=
  fun tokens st hst => .asStatements (hp tokens { st with nesting := 0 } (hst.congr rfl))

/-- A change of the state that passes over tokens, of which none ends the text. -/
theorem of_moves (change : State → State) (h : ∀ st, ∃ used, Moves st used (change st)) :
    Contained (modify change) := by
  intro tokens st hst
  obtain ⟨used, hmoves⟩ := h st
  exact .modify change hst (hst.moves hmoves) hmoves.nesting

/-! ## The cursor -/

theorem settle : Contained (modify State.settle) := by
  refine of_moves State.settle fun st => ?_
  obtain ⟨used, hmoves, -⟩ := Moves.settle st
  exact ⟨used, hmoves⟩

theorem skipNewlines : Contained skipNewlines :=
  of_moves State.dropNewlines fun st => ⟨_, Moves.dropNewlines st⟩

theorem skipSeparators : Contained skipSeparators := by
  refine of_moves _ fun st => ⟨_, Moves.dropWhile st _ fun t ht heof => ?_⟩
  rw [heof] at ht
  cases ht

theorem record (error : SyntaxError) : Contained (record error) :=
  of_moves _ fun _ => ⟨[], rfl, by simp, rfl, List.prefix_append ..⟩

theorem current : Contained current := settle.bind fun _ => get.bind fun _ => pure _

theorem currentKind : Contained currentKind := current.bind fun _ => pure _

theorem atKind (kind : Token.Kind) : Contained (atKind kind) := currentKind.bind fun _ => pure _

theorem nextKind : Contained nextKind := settle.bind fun _ => get.bind fun _ => pure _

/-- The token that ends the text is never passed over. -/
theorem advance : Contained advance := by
  intro tokens st hst
  refine .bind (current tokens st hst) fun token st' hrun => ?_
  have hwithin := (current tokens st hst).outcome.1
  rw [hrun] at hwithin
  cases hrun
  split
  next heof =>
    have hmoves := (At.ofSettle st).moves heof
    exact .bind (.modify _ hwithin (hwithin.moves hmoves) hmoves.nesting)
      fun _ st' hrun => by cases hrun; exact .pure _ (hwithin.moves hmoves)
  next => exact .pure _ hwithin

theorem eat (kind : Token.Kind) : Contained (eat kind) := by
  refine (atKind kind).bind fun found => ?_
  split
  · exact advance.bind fun _ => pure true
  · exact pure false

theorem expect (kind : Token.Kind) (context : String) : Contained (expect kind context) := by
  refine (atKind kind).bind fun found => ?_
  split
  · exact advance
  · exact current.bind fun found => fail _ found

theorem expectIdent (context : String) : Contained (expectIdent context) :=
  (expect .ident context).bind fun _ => pure _

/-! ## Repetition -/

section Repetition

variable {step : Parse (Option α)} {item : Parse α}

/-- Every round starts where the one before it stopped. -/
theorem collect (hstep : Contained step) (limit : Nat) : Contained (collect step limit) := by
  induction limit with
  | zero => exact pure []
  | succ limit ih =>
    refine hstep.bind fun found => ?_
    cases found with
    | none => exact pure []
    | some a => exact ih.bind fun as => pure (a :: as)

theorem many (hstep : Contained step) : Contained (many step) :=
  get.bind fun st => collect hstep st.tokens.length

theorem furtherItems (hitem : Contained item) : Contained (furtherItems item) := by
  refine many ((eat .comma).bind fun found => ?_)
  split
  · exact hitem.map some
  · exact pure none

theorem commaSeparated (hitem : Contained item) : Contained (commaSeparated item) :=
  hitem.bind fun _ => (furtherItems hitem).bind fun _ => pure _

theorem furtherItemsUntil (close : Token.Kind) (hitem : Contained item) :
    Contained (furtherItemsUntil close item) := by
  refine many ((eat .comma).bind fun found => ?_)
  split
  · refine (atKind close).bind fun closed => ?_
    split
    · exact pure none
    · exact hitem.map some
  · exact pure none

theorem itemsUntil (close : Token.Kind) (hitem : Contained item) :
    Contained (itemsUntil close item) := by
  refine (atKind close).bind fun closed => ?_
  split
  · exact pure []
  · exact hitem.bind fun _ => (furtherItemsUntil close hitem).bind fun _ => pure _

end Repetition

end Contained

end Welle.Parser
