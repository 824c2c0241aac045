import Welle.Proofs.Parser.Levels

set_option autoImplicit false

/-! # Parsing ends

A parser that succeeds has moved behind a token, and so has every round of a list of statements, also
where a statement cannot be read. So the loops of the grammar end by themselves and not at their
limits, and a program is read up to the end of its tokens. -/

namespace Welle

namespace Grammar

/-- Whether a phrase takes at least one token. -/
def Phrase.isSolid : Phrase → Bool
  | item _ | params _ | condition _ | result _ | block _ | stmt _ => true
  | _ => false

/-- An item, a block and a statement are read from at least one token. -/
theorem Derives.ne_nil {S : Prop} {ts : List Token} {phrase : Phrase} (h : Derives S ts phrase)
    (hsolid : phrase.isSolid = true) : ts ≠ [] := by
  induction h
  case arg _ ih => exact ih rfl
  case simple _ ih => exact ih rfl
  case blockStmt _ ih => exact ih rfl
  all_goals simp [Phrase.isSolid] at *

end Grammar

namespace Parser

/-! ## Progress -/

/-- The way from a state over at least one token. -/
def Forward (st st' : State) : Prop := ∃ used, used ≠ [] ∧ Moves st used st'

theorem Forward.length_lt {st st' : State} (h : Forward st st') :
    st'.tokens.length < st.tokens.length := by
  obtain ⟨used, hused, hmoves⟩ := h
  have hpos := List.length_pos_iff.2 hused
  rw [hmoves.tokens, List.length_append]
  omega

theorem Forward.ends {st st' : State} (h : Forward st st') (hst : st.Ends) : st'.Ends := by
  obtain ⟨used, -, hmoves⟩ := h
  exact hmoves.ends hst

theorem Moves.forward {st st' st'' : State} {used : List Token} (h : Moves st used st')
    (h' : Forward st' st'') : Forward st st'' := by
  obtain ⟨vs, hvs, hmoves⟩ := h'
  exact ⟨used ++ vs, by simp [hvs], h.trans hmoves⟩

theorem Forward.moves {st st' st'' : State} {used : List Token} (h : Forward st st')
    (h' : Moves st' used st'') : Forward st st'' := by
  obtain ⟨us, hus, hmoves⟩ := h
  exact ⟨us ++ used, by simp [hus], hmoves.trans h'⟩

/-- A parser that moves on where it succeeds. -/
def Progresses {α : Type} (p : Parse α) : Prop :=
  ∀ st a st', run p st = (.ok a, st') → Forward st st'

theorem Reads.forward {α : Type} {st st' : State} {p : Parse α} {a : α}
    {R : Prop → List Token → α → State → Prop} (h : Reads st p R) (hrun : run p st = (.ok a, st'))
    (hR : ∀ us, R False us a st' → us ≠ []) : Forward st st' := by
  obtain ⟨used, hmoves, hread⟩ := h.read hrun
  refine ⟨used, ?_, hmoves⟩
  rintro rfl
  exact hR _ (hread False (by simp)) rfl

theorem Grammar.Sound.progresses {g : Grammar} (hg : g.Sound) :
    (∀ level, Progresses (g.expression level)) ∧ Progresses g.statement := by
  constructor
  · intro level st e st' hrun
    exact (hg.expression level st).forward hrun fun us h => h.ne_nil rfl
  · intro st s st' hrun
    exact (hg.statement st).forward hrun fun us h => h.1.ne_nil rfl

/-! ## Loops -/

/-- A round of a loop: it ends the loop or moves on. -/
def Steps {α : Type} (step : Parse (Option α)) : Prop :=
  ∀ st found st', run step st = (.ok found, st') → found = none ∨ Forward st st'

theorem State.Ends.length_pos {st : State} (h : st.Ends) : 0 < st.tokens.length := by
  obtain ⟨t, ht, -⟩ := h
  exact List.length_pos_of_mem ht

/-- A loop whose rounds move on ends before its limit, so the limit does not matter. -/
theorem run_collect_of_le {α : Type} {step : Parse (Option α)} (hstep : Steps step)
    {limit limit' : Nat} {st : State} (hst : st.Ends) (h : st.tokens.length ≤ limit)
    (h' : st.tokens.length ≤ limit') : run (collect step limit) st = run (collect step limit') st := by
  induction limit generalizing limit' st with
  | zero =>
    have hpos := hst.length_pos
    omega
  | succ limit ih =>
    obtain _ | limit' := limit'
    · have hpos := hst.length_pos
      omega
    unfold collect
    rw [run_bind, run_bind]
    rcases hrun : run step st with ⟨e | found, st'⟩
    · rfl
    dsimp only
    rcases found with _ | a
    · rfl
    rcases hstep st _ _ hrun with hnone | hforward
    · cases hnone
    have hlt := hforward.length_lt
    have hrest := @ih limit' st' (hforward.ends hst) (by omega) (by omega)
    rw [run_bind, run_bind, hrest]

/-! ## Lists of statements -/

/-- Moving on from a token that does not end the text. -/
theorem forward_advance {st st' : State} {t u : Token} (hat : At st t) (heof : t.kind ≠ .eof)
    (hrun : run advance st = (.ok u, st')) : Forward st st' := by
  rw [run_advance hat heof] at hrun
  obtain ⟨-, rfl⟩ := Prod.mk.inj hrun
  exact ⟨[t], by simp, hat.moves heof⟩

/-- Asking for a kind settles on a token and says whether it is of that kind. -/
theorem at_of_atKind {st st' : State} {kind : Token.Kind} {found : Bool}
    (hrun : run (atKind kind) st = (.ok found, st')) :
    (∃ used, Moves st used st') ∧ ∃ t, At st' t ∧ (found = true ↔ t.kind = kind) := by
  rw [run_atKind] at hrun
  obtain ⟨hfound, rfl⟩ := Prod.mk.inj hrun
  obtain ⟨used, hmoves, -⟩ := Moves.settle st
  refine ⟨⟨used, hmoves⟩, _, .ofSettle st, ?_⟩
  rw [← Except.ok.inj hfound, decide_eq_true_iff]

/-- A token is at the cursor of every state with the same tokens and the same brackets. -/
theorem At.congr {st st' : State} {t : Token} (h : At st t) (htokens : st'.tokens = st.tokens)
    (hnesting : st'.nesting = st.nesting) : At st' t := by
  obtain ⟨tokens, nesting, diagnostics⟩ := st
  obtain ⟨tokens', nesting', diagnostics'⟩ := st'
  obtain rfl : tokens' = tokens := htokens
  obtain rfl : nesting' = nesting := hnesting
  constructor
  · have hsettled := h.settled
    unfold State.settle State.dropNewlines at hsettled ⊢
    split
    next hpos =>
      rw [if_pos hpos] at hsettled
      simpa using hsettled
    next => rfl
  · exact h.current

/-- Behind a statement that failed the cursor moves on by a token if none was read. -/
theorem forward_recovery {stop : Token.Kind} {st st' st'' : State} {t : Token} {used : List Token}
    {e : SyntaxError} {found : Option (Option Stmt)} (hat : At st t) (heof : t.kind ≠ .eof)
    (hmoves : Moves st used st')
    (hrun : run (do
      record e
      if (← get).tokens.length = st.tokens.length then
        let _ ← advance
      else if !(← atKind stop) then
        let _ ← advance
      return some none) st' = (.ok found, st'')) : found.isSome = true ∧ Forward st st'' := by
  rw [run_bind_ok (run_record st' e), run_bind_ok (run_get _)] at hrun
  have hlength := congrArg List.length hmoves.tokens
  rw [List.length_append] at hlength
  split at hrun
  -- nothing was read, so one token is skipped
  next hsame =>
    obtain rfl : used = [] := List.length_eq_zero_iff.1 (by dsimp only at hsame; omega)
    have hmoves' : Moves st [] { st' with diagnostics := st'.diagnostics ++ [.ofSyntaxError e] } :=
      ⟨hmoves.tokens, by simp, hmoves.nesting, hmoves.diagnostics.trans (List.prefix_append ..)⟩
    obtain ⟨u, _, hadvance, hrun⟩ := run_bind_eq_ok hrun
    cases hrun
    have hat' : At { st' with diagnostics := st'.diagnostics ++ [.ofSyntaxError e] } t :=
      hat.congr hmoves'.tokens.symm hmoves'.nesting
    exact ⟨rfl, hmoves'.forward (forward_advance hat' heof hadvance)⟩
  -- the statement itself has moved the cursor
  next hmore =>
    have hforward : Forward st { st' with diagnostics := st'.diagnostics ++ [.ofSyntaxError e] } := by
      refine ⟨used, ?_, hmoves.tokens, hmoves.inside, hmoves.nesting, ?_⟩
      · rintro rfl
        exact hmore (by simpa using hlength.symm)
      · exact hmoves.diagnostics.trans (List.prefix_append ..)
    obtain ⟨stopped, _, hstop, hrun⟩ := run_bind_eq_ok hrun
    obtain ⟨⟨vs, hsettle⟩, -⟩ := at_of_atKind hstop
    have hforward := hforward.moves hsettle
    split at hrun
    · obtain ⟨u, _, hadvance, hrun⟩ := run_bind_eq_ok hrun
      cases hrun
      obtain ⟨ws, hws, -⟩ := Reads.advance.read hadvance
      exact ⟨rfl, hforward.moves hws⟩
    · cases hrun
      exact ⟨rfl, hforward⟩

/-- A round of a list of statements ends the list in front of `stop` or the end of the text, or it
    moves on, whether the statement can be read or not. -/
theorem listedStatement_outcome {g : Grammar} (hg : g.Sound) {stop : Token.Kind} {st st' : State}
    {found : Option (Option Stmt)} (hrun : run (listedStatement g stop) st = (.ok found, st')) :
    (found = none ∧ ∃ t, At st' t ∧ (t.kind = stop ∨ t.kind = .eof))
      ∨ (found.isSome = true ∧ Forward st st') := by
  obtain ⟨_, st₁, hskip, hrun⟩ := run_bind_eq_ok hrun
  obtain ⟨us, hmoves₁, -⟩ := reads_skipSeparators.read hskip
  obtain ⟨stopped, st₂, hstop, hrun⟩ := run_bind_eq_ok hrun
  obtain ⟨⟨vs, hmoves₂⟩, t, hat, hkind⟩ := at_of_atKind hstop
  by_cases hstopped : stopped = true
  · rw [if_pos hstopped, run_pure] at hrun
    obtain ⟨hnone, rfl⟩ := Prod.mk.inj hrun
    exact .inl ⟨(Except.ok.inj hnone).symm, t, hat, .inl (hkind.1 hstopped)⟩
  rw [if_neg hstopped] at hrun
  obtain ⟨ended, st₃, heof, hrun⟩ := run_bind_eq_ok hrun
  obtain ⟨⟨ws, hmoves₃⟩, u, hu, hended⟩ := at_of_atKind heof
  by_cases htext : ended = true
  · rw [if_pos htext, run_pure] at hrun
    obtain ⟨hnone, rfl⟩ := Prod.mk.inj hrun
    exact .inl ⟨(Except.ok.inj hnone).symm, u, hu, .inr (hended.1 htext)⟩
  rw [if_neg htext, run_bind_ok (run_get st₃), run_bind_ok (run_observing st₃ _)] at hrun
  -- it is enough to move on from where the statement starts
  have hinside : u.kind ≠ .eof := fun h => htext (hended.2 h)
  have hstart : found.isSome = true ∧ Forward st₃ st' := by
    obtain ⟨used, hmoves⟩ := (hg.statement st₃).moves
    rcases hstmt : run g.statement st₃ with ⟨e | s, st₄⟩
    · rw [hstmt] at hmoves hrun
      exact forward_recovery hu hinside hmoves hrun
    · rw [hstmt] at hrun
      cases hrun
      exact ⟨rfl, hg.progresses.2 _ _ _ hstmt⟩
  exact .inr ⟨hstart.1, (hmoves₁.trans (hmoves₂.trans hmoves₃)).forward hstart.2⟩

theorem steps_listedStatement {g : Grammar} (hg : g.Sound) (stop : Token.Kind) :
    Steps (listedStatement g stop) := by
  intro st found st' hrun
  rcases listedStatement_outcome hg hrun with ⟨hnone, -⟩ | ⟨-, hforward⟩
  · exact .inl hnone
  · exact .inr hforward

/-- A list of statements is read up to `stop` or to the end of the text. -/
theorem collect_listedStatement {g : Grammar} (hg : g.Sound) {stop : Token.Kind} {limit : Nat}
    {st st' : State} {found : List (Option Stmt)} (hst : st.Ends) (h : st.tokens.length ≤ limit)
    (hrun : run (collect (listedStatement g stop) limit) st = (.ok found, st')) :
    ∃ t, At st' t ∧ (t.kind = stop ∨ t.kind = .eof) := by
  induction limit generalizing st found with
  | zero =>
    have hpos := hst.length_pos
    omega
  | succ limit ih =>
    obtain ⟨next, st₁, hnext, hrun⟩ := run_bind_eq_ok hrun
    rcases listedStatement_outcome hg hnext with ⟨rfl, hend⟩ | ⟨hsome, hforward⟩
    · obtain ⟨-, rfl⟩ := Prod.mk.inj hrun
      exact hend
    rcases next with _ | a
    · cases hsome
    · have hlt := hforward.length_lt
      obtain ⟨as, st₂, hrest, hrun⟩ := run_bind_eq_ok hrun
      obtain ⟨-, rfl⟩ := Prod.mk.inj hrun
      exact ih (hforward.ends hst) (by omega) hrest

/-! ## Other loops -/

section Loops

variable {α β : Type}

/-- A parser that does nothing but move on. -/
def Moving (p : Parse α) : Prop := ∀ st, ∃ used, Moves st used (run p st).2

theorem Moving.reads {p : Parse α} (h : Moving p) (st : State) :
    Reads st p fun _ _ _ _ => True := by
  obtain ⟨used, hmoves⟩ := h st
  refine .intro (fun a st' hrun => ?_) fun e st' hrun => ?_
  · rw [hrun] at hmoves
    exact ⟨used, hmoves, fun _ _ => trivial⟩
  · rw [hrun] at hmoves
    exact ⟨used, hmoves⟩

theorem steps_of_reads {step : Parse (Option α)}
    (h : ∀ st, Reads st step fun _ us found _ => found.isSome = true → us ≠ []) : Steps step := by
  intro st found st' hrun
  cases found with
  | none => exact .inl rfl
  | some a => exact .inr ((h st).forward hrun fun us hus => hus rfl)

/-- A round of a list with commas. -/
def itemRound (item : Parse α) : Parse (Option α) := do
  if ← eat .comma then some <$> item else return none

/-- A round of a list with commas, of which one may stand in front of the closing token. -/
def itemUntilRound (close : Token.Kind) (item : Parse α) : Parse (Option α) := do
  if ← eat .comma then
    if ← atKind close then return none else some <$> item
  else return none

/-- A round of the cases between braces. -/
def armRound (construct : String) (caseArm : Token → Parse α) (defaultArm : Parse β) :
    Parse (Option (α ⊕ β)) := do
  skipSeparators
  match ← currentKind with
  | .rbrace => return none
  | .kwCase =>
    let word ← advance
    return some (Sum.inl (← caseArm word))
  | .kwDefault =>
    let _ ← advance
    return some (Sum.inr (← defaultArm))
  | kind => fail (.strayWithin construct kind) (← current)

theorem steps_itemRound {item : Parse α} (h : Moving item) : Steps (itemRound item) := by
  refine steps_of_reads fun st => .eat_bind (by decide) (by decide) (fun comma st _ => ?_) fun _ st _ _ => ?_
  · exact ((h.reads st).mono fun _ _ _ _ _ _ => by simp).map
  · exact .pure fun _ _ hsome => by cases hsome

theorem steps_itemUntilRound {item : Parse α} (close : Token.Kind) (h : Moving item) :
    Steps (itemUntilRound close item) := by
  refine steps_of_reads fun st => .eat_bind (by decide) (by decide) (fun comma st _ => ?_) fun _ st _ _ => ?_
  · refine .atKind_bind (fun _ st _ _ => .pure fun _ _ hsome => by cases hsome) fun _ st _ _ => ?_
    exact ((h.reads st).mono fun _ _ _ _ _ _ => by simp).map
  · exact .pure fun _ _ hsome => by cases hsome

theorem steps_armRound {construct : String} {caseArm : Token → Parse α} {defaultArm : Parse β}
    (hcase : ∀ word, Moving (caseArm word)) (hdefault : Moving defaultArm) :
    Steps (armRound construct caseArm defaultArm) := by
  refine steps_of_reads fun st => reads_skipSeparators.bind fun _ us st _ => ?_
  refine .currentKind_bind fun t st hat => ?_
  split
  next => exact .pure fun _ _ _ hsome => by cases hsome
  next ht =>
    refine .advance_bind hat (by simp [ht]) (by simp [ht]) fun st => ?_
    exact ((hcase t).reads st).bind fun a vs st _ => .pure fun _ _ _ _ => by simp
  next ht =>
    refine .advance_bind hat (by simp [ht]) (by simp [ht]) fun st => ?_
    exact (hdefault.reads st).bind fun b vs st _ => .pure fun _ _ _ _ => by simp
  next => exact .current_bind fun _ st _ => .fail _ _

theorem Grammar.Sound.agrees {g : Grammar} (hg : g.Sound) (n : Nat) : g.Agrees n g :=
  ⟨fun level st => .of_reads (hg.expression level st), fun st => .of_reads (hg.statement st)⟩

/-- An operator that is applied is read. -/
theorem forward_operation {g : Grammar} (hg : g.Sound) {left e : Expr} {strength : Precedence}
    {st st' : State} (hst : st.Ends) (hrun : run (operation g left strength) st = (.ok e, st')) :
    Forward st st' := by
  have hfits : Fits (st.weight + 1) st := ⟨hst, Nat.le_succ _⟩
  obtain ⟨-, used, hmoves, hnil⟩ := ahead_operation (hg.agrees _) left strength hfits
  rw [hrun] at hmoves hnil
  refine ⟨used, fun h => ?_, hmoves⟩
  obtain ⟨error, herror⟩ := hnil h
  cases herror

/-- Operators are applied until one does not bind, not until the limit. -/
theorem run_operations_of_le {g : Grammar} (hg : g.Sound) {level : Precedence} {left : Expr}
    {limit limit' : Nat} {st : State} (hst : st.Ends) (h : st.tokens.length ≤ limit)
    (h' : st.tokens.length ≤ limit') :
    run (operations g level limit left) st = run (operations g level limit' left) st := by
  induction limit generalizing limit' left st with
  | zero =>
    have hpos := hst.length_pos
    omega
  | succ limit ih =>
    obtain _ | limit' := limit'
    · have hpos := hst.length_pos
      omega
    unfold operations
    rw [run_bind, run_bind]
    rcases hask : run (continuation? level left) st with ⟨e | found, st₁⟩
    · rfl
    obtain ⟨us, hmoves, -⟩ := (reads_continuation level).read hask
    rcases found with _ | strength
    · rfl
    dsimp only
    rw [run_bind, run_bind]
    rcases hrun : run (operation g left strength) st₁ with ⟨e | e, st₂⟩
    · rfl
    have hforward := hmoves.forward (forward_operation hg (hmoves.ends hst) hrun)
    have hlt := hforward.length_lt
    exact @ih e limit' st₂ (hforward.ends hst) (by omega) (by omega)

/-- Targets are looked for until something else stands there, not until the limit. -/
theorem run_scanTargets_of_le {limit limit' : Nat} {st : State} (hst : st.Ends)
    (h : st.tokens.length ≤ limit) (h' : st.tokens.length ≤ limit') :
    run (scanTargets limit) st = run (scanTargets limit') st := by
  induction limit generalizing limit' st with
  | zero =>
    have hpos := hst.length_pos
    omega
  | succ limit ih =>
    obtain _ | limit' := limit'
    · have hpos := hst.length_pos
      omega
    unfold scanTargets
    rw [run_bind, run_bind]
    rcases htarget : run scanTarget st with ⟨e | found, st₁⟩
    · rfl
    rcases found with _ | ⟨target, star⟩
    · rfl
    have hforward : Forward st st₁ :=
      reads_scanTarget.forward htarget fun us hus => (hus target star rfl).1.ne_nil rfl
    dsimp only
    rw [run_bind, run_bind]
    rcases hadvance : run advance st₁ with ⟨e | t, st₂⟩
    · rfl
    obtain ⟨us, hmoves, -⟩ := Reads.advance.read hadvance
    dsimp only
    split
    · rfl
    · rw [run_bind, run_bind]
      rcases heat : run (eat .rparen) st₂ with ⟨e | closed, st₃⟩
      · rfl
      obtain ⟨vs, hmoves', -⟩ := (Reads.eat (by decide) (by decide)).read heat
      dsimp only
      split
      · rfl
      -- the round has used a token, so both limits suffice for the rest
      have hforward := (hforward.moves hmoves).moves hmoves'
      have hlt := hforward.length_lt
      have hrest := @ih limit' st₃ (hforward.ends hst) (by omega) (by omega)
      rw [run_bind, run_bind, hrest]
    · rfl

end Loops

/-! ## Programs -/

/-- The statements up to the end of the text, with so many levels and so many rounds. -/
def parseWithin (depth limit : Nat) : Parse Program := do
  let found ← collect (listedStatement (.ofDepth depth) .eof) limit
  return ⟨found.filterMap id⟩

theorem run_parseProgram (st : State) :
    run parseProgram st = run (parseWithin st.weight st.tokens.length) st := by
  unfold parseProgram statementsUntil many parseWithin
  rw [run_bind_ok (run_get st)]
  simp only [bind_assoc, pure_bind]
  rw [run_bind_ok (run_get st)]

/-- Neither more levels nor more rounds change how a program is read. -/
theorem run_parseWithin {depth limit : Nat} {st : State} (hst : st.Ends) (hdepth : st.weight ≤ depth)
    (hlimit : st.tokens.length ≤ limit) : run (parseWithin depth limit) st = run parseProgram st := by
  have hagrees := Grammar.agrees_ofDepth st.weight (depth - st.weight)
  rw [Nat.add_sub_cancel' hdepth] at hagrees
  obtain ⟨hsame, -⟩ := Alike.collect (fun _ => alike_listedStatement hagrees .eof) limit st
    ⟨hst, Nat.le_refl _⟩
  have hloop := run_collect_of_le (steps_listedStatement (Grammar.sound_ofDepth st.weight) .eof) hst
    hlimit (Nat.le_refl _)
  rw [run_parseProgram, parseWithin, parseWithin, run_bind, run_bind, ← hsame, hloop]

theorem State.ends_ofTokens (tokens : List Token) : (State.ofTokens tokens).Ends := by
  unfold State.ofTokens State.Ends
  split
  next => exact ⟨_, List.mem_singleton_self _, rfl⟩
  next last hlast =>
    dsimp only
    split
    next heof => exact ⟨last, List.mem_of_getLast? hlast, heof⟩
    next => exact ⟨_, List.mem_append_right _ (List.mem_singleton_self _), rfl⟩

/-- A program is read up to the first token that ends the text. -/
theorem parseProgram_ends {st : State} (hst : st.Ends) : ∃ program st',
    run parseProgram st = (.ok program, st')
      ∧ st'.tokens = st.tokens.dropWhile (·.kind ≠ .eof) ∧ st'.current.kind = .eof := by
  obtain ⟨program, st', hrun⟩ := total_parseProgram st
  refine ⟨program, st', hrun, ?_⟩
  obtain ⟨used, hmoves, -⟩ := reads_parseProgram.read hrun
  rw [run_parseProgram] at hrun
  obtain ⟨found, st₁, hfound, hrun⟩ := run_bind_eq_ok hrun
  cases hrun
  obtain ⟨t, hat, hkind⟩ := collect_listedStatement (Grammar.sound_ofDepth _) hst (Nat.le_refl _) hfound
  have heof : t.kind = .eof := hkind.elim id id
  refine ⟨?_, hat.current ▸ heof⟩
  obtain ⟨rest, hrest⟩ : ∃ rest, st'.tokens = t :: rest := by
    have hcurrent := hat.current
    have hpos := (hmoves.ends hst).length_pos
    unfold State.current at hcurrent
    cases htokens : st'.tokens with
    | nil => simp [htokens] at hpos
    | cons u us =>
      rw [htokens] at hcurrent
      exact ⟨us, by rw [← hcurrent, List.headD_cons]⟩
  rw [hmoves.tokens, List.dropWhile_append_of_pos, hrest, List.dropWhile_cons_of_neg]
  · simp [heof]
  · intro u hu
    simpa using hmoves.inside u hu

end Parser

end Welle
