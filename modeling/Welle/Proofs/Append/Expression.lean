import Welle.Proofs.Append.Follows

set_option autoImplicit false

/-! # Expressions on both sides of a junction

Every parser of an expression or of a part of one follows itself, given that the parsers one level
down do. Outside of brackets an expression may be the last thing in a text; within them something has
to follow. -/

namespace Welle.Parser

open Welle.Grammar (content Derives)

/-- The two recursive parsers do the same on both sides of every junction. Statements stand outside
    of brackets. -/
structure Grammar.Joins (g : Grammar) : Prop where
  sound : g.Sound
  expression : ∀ (j : Junction) level st, Follows j (0 < st.nesting) st (g.expression level)
    (g.expression level) (Expr.lowered j.lines)
  statement : ∀ (j : Junction) st, st.nesting = 0 →
    Follows j False st g.statement g.statement (Stmt.lowered j.lines)

variable {g : Grammar} {j : Junction} {d : Prop} {st : State} {t : Token}

/-- An expression in a place where something follows if it stands within brackets. -/
theorem Grammar.Joins.expr (hg : g.Joins) (hd : 0 < st.nesting → d) (level : Precedence) :
    Follows j d st (g.expression level) (g.expression level) (Expr.lowered j.lines) :=
  (hg.expression j level st).weaken hd

theorem Grammar.Joins.moving (hg : g.Joins) (level : Precedence) : Moving (g.expression level) :=
  fun st => (hg.sound.expression level st).moves

/-! ## Templates -/

/-- The same text further down. -/
def Junction.below (n : Nat) : Junction := ⟨n, none⟩

theorem follows_holeExpression (hg : g.Joins) (n : Nat) (opening : Position) :
    Follows (.below n) True st (holeExpression g opening) (holeExpression g (opening.lowered n))
      (Expr.lowered n) := by
  refine .atKind_bind_of_regular (Junction.regular_of_none rfl _) (fun _ st _ _ _ => ?_)
    fun _ st _ _ _ => ?_
  · intro _
    exact ⟨⟨[], .refl st⟩, fun _ => ⟨rfl, fun e he => by cases he; rfl⟩⟩
  · refine (hg.expr (fun _ => trivial) _).bind fun value st _ => ?_
    refine .atKind_bind_of_regular (Junction.regular_of_none rfl _) (fun _ st _ _ _ => .pure rfl)
      fun _ st _ _ _ => ?_
    exact .current_fail fun _ => rfl

/-- The state in which the source of an interpolation is read. -/
def holeState (source : String) (origin : Position) : State :=
  { State.ofTokens (Token.tokenizeAt source origin) with nesting := 1 }

theorem holeState_eq (source : String) (origin : Position) :
    holeState source origin = ⟨Token.tokenizeAt source origin, 1, []⟩ :=
  congrArg (State.mk · 1 []) (ofTokens_tokensFrom origin source.toList)

theorem endsOnce_ofTokens (pos : Position) (cs : List Char) :
    (State.ofTokens (Token.tokensFrom pos cs)).EndsOnce := by
  obtain ⟨front, hfront, hinside⟩ := Token.tokensFrom_eq_concat pos cs
  refine ⟨Token.endOfText (pos.after cs), ?_⟩
  rw [ofTokens_tokensFrom, hfront, List.dropWhile_append_of_pos (by simpa using hinside)]
  rfl

theorem holeState_lowered (n : Nat) (source : String) (origin : Position) :
    holeState source (origin.lowered n) = (Junction.below n).state (holeState source origin) := by
  rw [holeState_eq, holeState_eq, Token.tokenizeAt, Token.tokensFrom_lowered]
  rfl

/-- The outcome of an expression further down. -/
def resultBelow (n : Nat) (result : Except SyntaxError Expr) : Except SyntaxError Expr :=
  (result.mapError (SyntaxError.lowered n)).map (Expr.lowered n)

/-- An interpolation is read from its source alone, so it is read the same in any place. -/
theorem run_hole_state (hg : g.Joins) (j : Junction) (source : String) (origin opening : Position)
    (st : State) : ∃ result st', run (hole g source origin opening) st = (result, st')
      ∧ run (hole g source (origin.lowered j.lines) (opening.lowered j.lines)) (j.state st)
        = (resultBelow j.lines result, j.state st')
      ∧ Moves st [] st' ∧ ∀ e, result = .error e → e.span.isSome = true := by
  have hends : (holeState source origin).EndsOnce := endsOnce_ofTokens origin source.toList
  obtain ⟨-, hsame⟩ := follows_holeExpression hg j.lines opening hends
  obtain ⟨hrun, hplaced⟩ := hsame fun htail => by cases htail
  refine ⟨_, _, run_hole g (holeState_eq source origin) opening st, ?_, ?_, hplaced⟩
  · rw [run_hole g (holeState_eq source _), holeState_lowered, hrun]
    simp [Junction.outcome, Junction.state, resultBelow, Junction.below]
  · exact ⟨rfl, by simp, rfl, List.prefix_append ..⟩

/-- The interpolations of a template. -/
def holes (g : Grammar) (segments : List Template.Segment) :
    Parse (List (Except SyntaxError Expr)) :=
  segments.filterMapM fun
    | .text _ => pure none
    | .hole source origin opening => some <$> observing (hole g source origin opening)

theorem run_holes_state (hg : g.Joins) (j : Junction) (segments : List Template.Segment)
    (st : State) : ∃ results st', run (holes g segments) st = (.ok results, st')
      ∧ run (holes g (segments.map (Template.Segment.lowered j.lines))) (j.state st)
        = (.ok (results.map (resultBelow j.lines)), j.state st')
      ∧ Moves st [] st' ∧ ∀ e, .error e ∈ results → e.span.isSome = true := by
  induction segments generalizing st with
  | nil => exact ⟨[], st, rfl, rfl, .refl st, by simp⟩
  | cons segment segments ih =>
    cases segment with
    | text value =>
      obtain ⟨results, st', hrun, hrun', hmoves, hplaced⟩ := ih st
      refine ⟨results, st', ?_, ?_, hmoves, hplaced⟩
      · rw [← hrun, holes, List.filterMapM_cons]
        rfl
      · rw [← hrun', List.map_cons, holes, List.filterMapM_cons]
        rfl
    | hole source origin opening =>
      obtain ⟨result, st₁, hhole, hhole', hmoves₁, hplaced₁⟩ :=
        run_hole_state hg j source origin opening st
      obtain ⟨results, st', hrun, hrun', hmoves, hplaced⟩ := ih st₁
      -- a failing source is kept as a result, so the run itself goes on
      have hobserved {source : String} {origin opening : Position} {st st' : State}
          {result : Except SyntaxError Expr}
          (h : run (hole g source origin opening) st = (result, st')) :
          run (some <$> observing (hole g source origin opening)) st = (.ok (some result), st') := by
        rw [run_map, run_observing, h]
        rfl
      refine ⟨result :: results, st', ?_, ?_, hmoves₁.trans hmoves, ?_⟩
      · rw [holes, List.filterMapM_cons, run_bind_ok (hobserved hhole)]
        exact run_bind_ok hrun _
      · rw [List.map_cons, holes, List.filterMapM_cons]
        dsimp only [Template.Segment.lowered]
        rw [run_bind_ok (hobserved hhole')]
        exact run_bind_ok hrun' _
      · intro e he
        rcases List.mem_cons.1 he with he | he
        · exact hplaced₁ e he.symm
        · exact hplaced e he

theorem firstError_resultBelow (n : Nat) (results : List (Except SyntaxError Expr)) :
    firstError (results.map (resultBelow n))
      = ((firstError results).mapError (SyntaxError.lowered n)).map (List.map (Expr.lowered n)) := by
  unfold firstError
  induction results with
  | nil => rfl
  | cons result results ih =>
    rw [List.map_cons, List.mapM_cons, List.mapM_cons, ih]
    rcases result with e | a
    · rfl
    · rcases results.mapM id with e | as <;> rfl

theorem mem_of_firstError {results : List (Except SyntaxError Expr)} {e : SyntaxError}
    (h : firstError results = .error e) : .error e ∈ results := by
  unfold firstError at h
  induction results with
  | nil => cases h
  | cons result results ih =>
    rw [List.mapM_cons] at h
    rcases result with e' | a
    · cases h
      exact List.mem_cons_self
    · rcases hresults : results.mapM id with e' | as
      · rw [hresults] at h
        cases h
        exact List.mem_cons_of_mem _ (ih hresults)
      · rw [hresults] at h
        cases h

theorem follows_template (hg : g.Joins) (t : Token) (tag : Option Expr) :
    Follows j d st (template g t tag)
      (template g (t.lowered j.lines) (tag.map (Expr.lowered j.lines))) (Expr.lowered j.lines) := by
  have htemplate (t : Token) (tag : Option Expr) : template g t tag
      = holes g (Template.split t.literal (t.pos.shifted 2)) >>= fun results =>
        liftExcept (firstError results) >>= fun es => pure (.template t.pos tag
          (Template.texts (Template.split t.literal (t.pos.shifted 2))) es) := rfl
  intro _
  obtain ⟨results, st', hrun, hrun', hmoves, hplaced⟩ :=
    run_holes_state hg j (Template.split t.literal (t.pos.shifted 2)) st
  have hsegments : Template.split (t.lowered j.lines).literal ((t.lowered j.lines).pos.shifted 2)
      = (Template.split t.literal (t.pos.shifted 2)).map (Template.Segment.lowered j.lines) := by
    rw [Token.pos_lowered, Position.shifted_lowered, Template.split_lowered]
    rfl
  rw [htemplate, htemplate, hsegments, run_bind_ok hrun, run_bind_ok hrun', firstError_resultBelow,
    Template.texts_lowered]
  -- the first error of an interpolation is that of the template
  rcases hfirst : firstError results with e | es
  · rw [run_bind_error (run_liftExcept st' _)]
    refine ⟨⟨[], hmoves⟩, fun _ => ⟨run_bind_error (run_liftExcept _ _) _, fun e' he' => ?_⟩⟩
    obtain rfl := Except.error.inj he'
    exact hplaced e (mem_of_firstError hfirst)
  · rw [run_bind_ok (run_liftExcept st' _)]
    refine ⟨⟨[], hmoves⟩, fun _ => ⟨?_, fun e' he' => by cases he'⟩⟩
    refine (run_bind_ok (run_liftExcept _ _) _).trans ?_
    simp [Junction.outcome, Except.map, Except.mapError, Expr.lowered]

/-! ## Operands -/

theorem follows_number (t : Token) :
    Follows j d st (number t) (number (t.lowered j.lines)) (Expr.lowered j.lines) := by
  unfold number
  rw [Token.literal_lowered]
  split
  · exact .pure rfl
  · exact .pure rfl
  · exact .fail rfl

theorem follows_grouped (hg : g.Joins) (hat : At st t) (ht : t.kind = .lparen) :
    Follows j d st (grouped g) (grouped g) (Expr.lowered j.lines) := by
  refine .advance_bind hat (by simp [ht]) fun st _ => (Closes.nested ?_).free
  refine .eat_bind (by decide) (by decide) (fun _ _ => .pure rfl) fun st _ => ?_
  refine .bind (hg.expr (fun _ => trivial) _) fun first st _ => ?_
  refine .atKind_bind (fun _ st _ _ _ => ?_) fun st _ => ?_
  · refine .bind (.furtherItemsUntil (by decide) (by decide) (fun _ => trivial) (hg.moving _)
      fun st _ => hg.expr (fun _ => trivial) _) fun items st _ => ?_
    exact .expect_bind (by decide) (by decide) fun _ _ _ => .pure (by simp [Expr.lowered])
  · exact .expect_bind (by decide) (by decide) fun _ _ _ => .pure rfl

theorem follows_list (hg : g.Joins) (hat : At st t) (ht : t.kind = .lbracket) :
    Follows j d st (list g) (list g) (Expr.lowered j.lines) := by
  refine .advance_bind hat (by simp [ht]) fun st _ => (Closes.nested ?_).free
  refine .eat_bind (by decide) (by decide) (fun _ _ => .pure rfl) fun st _ => ?_
  refine .bind (hg.expr (fun _ => trivial) _) fun first st _ => ?_
  refine .eat_bind (by decide) (by decide) (fun st _ => Closes.follows ?_) fun st _ => ?_
  · refine .bind .expectIdent fun var st _ => ?_
    refine .bind (.expect (by decide) (by decide)) fun _ st _ => ?_
    refine .bind (hg.expr (fun _ => trivial) _) fun seq st _ => ?_
    refine .eat_bind (by decide) (by decide) (fun st _ => Closes.follows ?_) fun st _ => ?_
    · refine .bind (hg.expr (fun _ => trivial) _).mapSome fun filter st _ => ?_
      exact .expect_bind (by decide) (by decide) fun _ _ _ => .pure (by simp [Expr.lowered])
    · exact .expect_bind (by decide) (by decide) fun _ _ _ => .pure rfl
  · refine .bind (.furtherItemsUntil (by decide) (by decide) (fun _ => trivial) (hg.moving _)
      fun st _ => hg.expr (fun _ => trivial) _) fun items st _ => ?_
    exact .expect_bind (by decide) (by decide) fun _ _ _ => .pure (by simp [Expr.lowered])

/-- The entry of a dictionary is never the last thing, so what stands behind its name is the same on
    both sides. -/
theorem follows_dictEntry (hg : g.Joins) :
    Follows j True st (dictEntry g) (dictEntry g) (DictEntry.lowered j.lines) := by
  refine .of_reads_further trivial (reads_dictEntry hg.sound) (fun us entry st' h => h.ne_nil rfl) ?_
  intro hfurther
  have hentry (st : State) (short : Bool) : Follows j True st (if short = true then do
        return .shorthand (← expectIdent "")
      else do
        let key ← g.expression .lowest
        let _ ← expect .colon "after dict key"
        return .pair key (← g.expression .lowest)) (if short = true then do
        return .shorthand (← expectIdent "")
      else do
        let key ← g.expression .lowest
        let _ ← expect .colon "after dict key"
        return .pair key (← g.expression .lowest)) (DictEntry.lowered j.lines) := by
    cases short with
    | true => exact .expectIdent_bind fun name st _ => .pure rfl
    | false =>
      refine (hg.expr (fun _ => trivial) _).bind fun key st _ => ?_
      refine .expect_bind (by decide) (by decide) fun _ st _ _ => ?_
      exact (hg.expr (fun _ => trivial) _).bind fun value st _ => .pure rfl
  refine .atKind_bind_inside (.inl trivial) (fun t hat ht => ?_) fun t hat _ => ?_
  · have heof : t.kind ≠ .eof := by simp [ht]
    -- the look goes over one token, and the entry is followed by something
    refine .nextKind_bind hat heof (fun htail hnil => ?_) fun kind => hentry _ _
    have hcontent := (hat.moves heof).content
    rw [content_settle, hnil, significant_singleton (by simp [ht])] at hcontent
    have hmore := hfurther htail
    simp [hcontent] at hmore
  · exact .nextKind_bind_unused trivial hat fun _ _ => hentry _ false

theorem follows_dict (hg : g.Joins) (hat : At st t) (ht : t.kind = .hash) :
    Follows j d st (dict g) (dict g) (Expr.lowered j.lines) := by
  refine .advance_bind hat (by simp [ht]) fun st _ => ?_
  refine .expect_bind (by decide) (by decide) fun _ st _ _ => (Closes.nested ?_).free
  refine .bind (.itemsUntil (by decide) (by decide) (fun _ => trivial)
    (fun st => (reads_dictEntry hg.sound).moves) fun st _ => follows_dictEntry hg)
    fun entries st _ => ?_
  exact .expect_bind (by decide) (by decide) fun _ _ _ => .pure (by simp [Expr.lowered])

/-! ## Blocks -/

/-- Behind a statement that failed the cursor moves on. -/
theorem moving_recovery (stop : Token.Kind) (before : Nat) : Moving (do
    if (← get).tokens.length = before then
      let _ ← advance
    else if !(← atKind stop) then
      let _ ← advance
    return (some none : Option (Option Stmt))) := by
  intro st
  have hadvance (st : State) : Reads st (advance >>= fun _ => pure (some none))
      fun _ _ (_ : Option (Option Stmt)) _ => True :=
    Reads.advance.bind fun _ _ _ _ => .pure fun _ _ _ => trivial
  refine Reads.moves (R := fun _ _ _ _ => True) (.get_bind ?_)
  split
  · exact hadvance st
  · exact .atKind_bind (fun _ st _ _ => .pure fun _ _ => trivial) fun _ st _ _ => hadvance st

/-- A statement that failed is reported. -/
theorem reports_recovery (stop : Token.Kind) (before : Nat) (e : SyntaxError) (st : State) :
    Reports st (do
      record e
      if (← get).tokens.length = before then
        let _ ← advance
      else if !(← atKind stop) then
        let _ ← advance
      return (some none : Option (Option Stmt))) :=
  reports_record (moving_recovery stop before) e st

/-- A round of a list of statements that has to be closed, or that finds a statement. -/
theorem follows_listedStatement (hg : g.Joins) {stop : Token.Kind} (hnesting : st.nesting = 0)
    (hd : d ∨ j.Regular st.dropSeparators.tokens) :
    Follows j d st (listedStatement g stop) (listedStatement g stop)
      (Option.map (Option.map (Stmt.lowered j.lines))) := by
  refine .skipSeparators_bind hd ?_
  refine .atKind_bind_inside hd (fun _ _ _ => .pure rfl) fun _ _ _ => ?_
  refine .atKind_bind_inside (hd.imp_right (·.settle)) (fun _ _ _ => .pure rfl) fun t hat _ => ?_
  refine .get_bind ?_
  -- behind an error the cursor moves on, which has to be compared only where both sides end alike
  refine .observing_bind ((hg.statement j _ ?_).weaken False.elim) (fun s st _ => .pure rfl)
    (reports_recovery stop _) fun e st he _ => ?_
  · rw [nesting_settle, nesting_settle]
    exact hnesting
  · have hadvance (htail : j.tail = none) (st : State) : Follows j d st
        (advance >>= fun _ => pure (some none)) (advance >>= fun _ => pure (some none))
        (Option.map (Option.map (Stmt.lowered j.lines))) :=
      (Follows.advance (Junction.regular_of_none htail _)).bind fun _ _ _ => .pure rfl
    refine .of_void (reports_recovery stop _ e st).1 (fun _ _ => (reports_recovery stop _ e st).2)
      fun htail => ?_
    refine .record_bind he fun st _ _ => .get_bind ?_
    rw [Junction.length_state htail, Junction.length_state htail]
    split
    · exact hadvance htail st
    · exact .atKind_bind_inside (.inr (Junction.regular_of_none htail _)) (fun _ _ _ => .pure rfl)
        fun _ _ _ => hadvance htail _

theorem follows_statementsUntil (hg : g.Joins) {stop : Token.Kind} (hnesting : st.nesting = 0) :
    Follows j True st (statementsUntil g stop) (statementsUntil g stop)
      (List.map (Stmt.lowered j.lines)) := by
  refine (Follows.many (steps_listedStatement hg.sound stop) fun st' hnesting' =>
    follows_listedStatement hg (hnesting'.trans hnesting) (.inl trivial)).bind
      fun found st _ => .pure ?_
  simp [List.map_filterMap, List.filterMap_map]

theorem follows_block (hg : g.Joins) :
    Follows j d st (block g) (block g) (Block.lowered j.lines) := by
  refine .expect_bind (by decide) (by decide) fun opening st _ _ => (Closes.asStatements ?_).free
  refine .bind (follows_statementsUntil hg rfl) fun stmts st _ => ?_
  refine .observing_bind (.expect (by decide) (by decide)) (fun _ st _ => ?_) (fun e st => ?_)
    fun e st he _ => ?_
  · exact .pure (by simp [Block.lowered])
  · refine reports_record ?_ e st
    exact fun st => ⟨[], .refl st⟩
  · exact .record_bind he fun st _ _ => .pure (by simp [Block.lowered])

/-- A body follows itself: it starts with a brace, so what stands in front of it is the same. -/
theorem follows_body (hg : g.Joins) :
    Follows j d st (body g) (body g) (Block.lowered j.lines) := by
  refine .of_reads (reads_body hg.sound) (fun us body st' h => h.ne_nil rfl) fun hregular hst => ?_
  refine Follows.get_bind ?_ hst
  rw [Junction.nextAfterNewlinesIs_state hst hregular]
  split
  · exact .skipNewlines_bind hregular (follows_block hg)
  · exact follows_block hg

theorem follows_params : Follows j d st params params (List.map (Ident.lowered j.lines)) := by
  refine .expect_bind (by decide) (by decide) fun _ st _ _ => (Closes.nested ?_).free
  refine .bind (.itemsUntil (by decide) (by decide) (fun _ => trivial)
    (fun st => (reads_expectIdent _).moves) fun st _ => .expectIdent) fun names st _ => ?_
  exact .expect_bind (by decide) (by decide) fun _ _ _ => .pure rfl

/-! ## Functions and `match` -/

theorem follows_funcLiteral (hg : g.Joins) (hat : At st t) (ht : t.kind = .kwFunc) :
    Follows j d st (funcLiteral g) (funcLiteral g) (Expr.lowered j.lines) := by
  refine .advance_bind hat (by simp [ht]) fun st _ => ?_
  refine follows_params.bind fun names st _ => ?_
  exact (follows_block hg).bind fun body st _ => .pure (by simp [Expr.lowered])

theorem follows_caseValues (hg : g.Joins) (hd : 0 < st.nesting → d) :
    Follows j d st (caseValues g) (caseValues g) (List.map (Expr.lowered j.lines)) :=
  .commaSeparated hd (hg.moving _) fun _ hnesting => hg.expr (fun h => hd (hnesting ▸ h)) _

/-- The cases between braces, each of which follows itself. -/
theorem closes_arms {α β γ δ : Type} {φ : α → γ} {ψ : β → δ} {construct : String}
    {caseArm : Token → Parse α} {defaultArm : Parse β} {caseArm' : Token → Parse γ}
    {defaultArm' : Parse δ} (hmoving : ∀ word, Moving (caseArm word)) (hmoving' : Moving defaultArm)
    (hcase : ∀ word st', st'.nesting = st.nesting →
      Follows j True st' (caseArm word) (caseArm' (word.lowered j.lines)) φ)
    (hdefault : ∀ st', st'.nesting = st.nesting → Follows j True st' defaultArm defaultArm' ψ) :
    Closes j st (arms construct caseArm defaultArm) (arms construct caseArm' defaultArm')
      (Prod.map (List.map φ) (Option.map ψ)) := by
  refine .bind (Follows.many (φ := Sum.map φ ψ) (steps_armRound hmoving hmoving')
      fun st' hnesting => ?_)
    fun found st _ => ?_
  · refine .skipSeparators_bind (.inl trivial)
      (.currentKind_bind_inside (.inl trivial) fun t hat => ?_)
    split
    next => exact .pure rfl
    next ht =>
      refine .advance_bind hat (by simp [ht]) fun st₂ hnesting₂ => ?_
      exact (hcase t st₂ (hnesting₂.trans ((nesting_settle _).trans hnesting))).bind
        fun a _ _ => .pure rfl
    next ht =>
      refine .advance_bind hat (by simp [ht]) fun st₂ hnesting₂ => ?_
      exact (hdefault st₂ (hnesting₂.trans ((nesting_settle _).trans hnesting))).bind
        fun b _ _ => .pure rfl
    next => exact .current_fail fun _ => rfl
  · refine .expect_bind (by decide) (by decide) fun _ _ _ => .pure ?_
    simp [Prod.map, List.map_filterMap, Function.comp_def, List.filterMap_map]

theorem follows_matchResult (hg : g.Joins) :
    Follows j d st (matchResult g) (matchResult g) (Expr.lowered j.lines) := by
  refine .expect_bind (by decide) (by decide) fun _ st _ _ => Closes.free ?_
  refine .skipSeparators_bind fun st _ => ?_
  refine .bind (hg.expr (fun _ => trivial) _) fun result st _ => .skipSeparators_bind fun st _ => ?_
  exact .expect_bind (by decide) (by decide) fun _ _ _ => .pure rfl

theorem follows_select (hg : g.Joins) (hat : At st t) (ht : t.kind = .kwMatch) :
    Follows j d st (select g) (select g) (Expr.lowered j.lines) := by
  refine .advance_bind hat (by simp [ht]) fun st _ => ?_
  refine .expect_bind (by decide) (by decide) fun _ st _ _ => ?_
  refine Follows.bind (φ := Expr.lowered j.lines) (Closes.nested ?_).free fun value st _ => ?_
  · refine .bind (hg.expr (fun _ => trivial) _) fun value st _ => ?_
    exact .expect_bind (by decide) (by decide) fun _ _ _ => .pure rfl
  refine .expect_bind (by decide) (by decide) fun _ st _ _ => (Closes.asStatements ?_).free
  refine (closes_arms (φ := MatchArm.lowered j.lines) (ψ := Expr.lowered j.lines) (fun word st => ?_)
    (fun st => (reads_matchResult hg.sound).moves) (fun word st _ => ?_)
    fun st _ => follows_matchResult hg).then_bind fun arms st _ => ?_
  · refine Reads.moves (R := fun _ _ _ _ => True) ((reads_caseValues hg.sound).bind fun _ _ st _ => ?_)
    exact (reads_matchResult hg.sound).bind fun _ _ st _ => .pure fun _ _ _ _ => trivial
  · refine (follows_caseValues hg fun _ => trivial).bind fun values st _ => ?_
    exact (follows_matchResult hg).bind fun result st _ => .pure (by simp [MatchArm.lowered])
  · exact .pure (by simp [Expr.lowered])

/-- An operator in front of its operand. -/
theorem follows_prefixed (hg : g.Joins) (hd : 0 < st.nesting → d) (hat : At st t)
    (heof : t.kind ≠ .eof) : Follows j d st (do
        let _ ← advance
        let value ← g.expression .prefixOp
        match PrefixOp.ofKind? t.kind with
        | some op => return .unary t.pos op value
        | none => fail .strayPrefixOp t) (do
        let _ ← advance
        let value ← g.expression .prefixOp
        match PrefixOp.ofKind? t.kind with
        | some op => return .unary (t.pos.lowered j.lines) op value
        | none => fail .strayPrefixOp (t.lowered j.lines)) (Expr.lowered j.lines) := by
  refine .advance_bind hat heof fun st hnesting => ?_
  refine (hg.expr (fun h => hd (hnesting ▸ h)) _).bind fun value st _ => ?_
  split
  · exact .pure rfl
  · exact .fail rfl

theorem follows_operand (hg : g.Joins) (hd : 0 < st.nesting → d) :
    Follows j d st (operand g) (operand g) (Expr.lowered j.lines) := by
  refine .current_bind_or_fail (fun t ht => ⟨.unexpected t, by simp [ht]⟩)
    fun t st hat hnesting _ => ?_
  replace hd : 0 < st.nesting → d := fun h => hd (hnesting ▸ h)
  have hread {f : Token → Parse Expr} {f' : Token → Parse Expr} (heof : t.kind ≠ .eof)
      (h : ∀ st, Follows j d st (f t) (f' (t.lowered j.lines)) (Expr.lowered j.lines)) :
      Follows j d st (advance >>= f) (advance >>= f') (Expr.lowered j.lines) :=
    .advance_bind hat heof fun st _ => h st
  rw [Token.kind_lowered]
  split
  next ht => exact hread (by simp [ht]) fun _ => .pure rfl
  next ht => exact hread (by simp [ht]) fun _ => follows_number t
  next ht => exact hread (by simp [ht]) fun _ => follows_number t
  next ht => exact hread (by simp [ht]) fun _ => .pure rfl
  next ht => exact hread (by simp [ht]) fun _ => follows_template hg t none
  next ht => exact hread (by simp [ht]) fun _ => .pure rfl
  next ht => exact hread (by simp [ht]) fun _ => .pure rfl
  next ht => exact hread (by simp [ht]) fun _ => .pure rfl
  next ht => exact follows_prefixed hg hd hat (by simp [ht])
  next ht => exact follows_prefixed hg hd hat (by simp [ht])
  next ht => exact follows_prefixed hg hd hat (by simp [ht])
  next ht => exact follows_prefixed hg hd hat (by simp [ht])
  next ht => exact follows_grouped hg hat ht
  next ht => exact follows_list hg hat ht
  next ht => exact follows_dict hg hat ht
  next ht => exact follows_funcLiteral hg hat ht
  next ht => exact follows_select hg hat ht
  next => exact .fail rfl
  next => exact .fail rfl
  next => exact .fail rfl

/-! ## Operators -/

theorem follows_argument (hg : g.Joins) :
    Follows j True st (argument g) (argument g) (Expr.lowered j.lines) := by
  refine .atKind_bind_inside (.inl trivial) (fun t hat ht => ?_)
    fun _ _ _ => hg.expr (fun _ => trivial) _
  refine .advance_bind hat (by simp [ht]) fun st _ => ?_
  exact (hg.expr (fun _ => trivial) _).bind fun value st _ => .pure rfl

theorem follows_call (hg : g.Joins) (callee : Expr) (hat : At st t) (ht : t.kind = .lparen) :
    Follows j d st (call g callee) (call g (callee.lowered j.lines)) (Expr.lowered j.lines) := by
  refine .advance_bind hat (by simp [ht]) fun st _ => (Closes.nested ?_).free
  refine .bind (.itemsUntil (by decide) (by decide) (fun _ => trivial)
    (fun st => (reads_argument hg.sound).moves) fun st _ => follows_argument hg) fun args st _ => ?_
  exact .expect_bind (by decide) (by decide) fun _ _ _ => .pure (by simp [Expr.lowered])

theorem closes_sliceTail (hg : g.Joins) (opening : Position) (object : Expr) (low : Option Expr) :
    Closes j st (sliceTail g opening object low) (sliceTail g (opening.lowered j.lines)
      (object.lowered j.lines) (low.map (Expr.lowered j.lines))) (Expr.lowered j.lines) := by
  have hstep (high : Option Expr) (st : State) : Closes j st (do
      let step ← if ← eat .colon then
          if ← atKind .rbracket then pure none else some <$> g.expression .lowest
        else pure none
      let _ ← expect .rbracket "to close slice"
      return Expr.slice opening object low high step) (do
      let step ← if ← eat .colon then
          if ← atKind .rbracket then pure none else some <$> g.expression .lowest
        else pure none
      let _ ← expect .rbracket "to close slice"
      return Expr.slice (opening.lowered j.lines) (object.lowered j.lines)
        (low.map (Expr.lowered j.lines)) (high.map (Expr.lowered j.lines)) step)
      (Expr.lowered j.lines) := by
    have hclose (step : Option Expr) (st : State) : Closes j st (do
        let _ ← expect .rbracket "to close slice"
        return Expr.slice opening object low high step) (do
        let _ ← expect .rbracket "to close slice"
        return Expr.slice (opening.lowered j.lines) (object.lowered j.lines)
          (low.map (Expr.lowered j.lines)) (high.map (Expr.lowered j.lines))
          (step.map (Expr.lowered j.lines))) (Expr.lowered j.lines) :=
      .expect_bind (by decide) (by decide) fun _ _ _ => .pure (by simp [Expr.lowered])
    refine .eat_bind (by decide) (by decide) (fun st _ => Closes.follows ?_) fun st _ => hclose none st
    refine .atKind_bind (fun _ st _ _ _ => hclose none st) fun st _ => ?_
    exact .bind (hg.expr (fun _ => trivial) _).mapSome fun step st _ => hclose step st
  refine .currentKind_bind fun t st _ _ => ?_
  split
  · exact hstep none st
  · exact hstep none st
  · exact .bind (hg.expr (fun _ => trivial) _).mapSome fun high st _ => hstep high st

theorem follows_index (hg : g.Joins) (object : Expr) (hat : At st t) (ht : t.kind = .lbracket) :
    Follows j d st (index g object) (index g (object.lowered j.lines)) (Expr.lowered j.lines) := by
  refine .advance_bind hat (by simp [ht]) fun st _ => (Closes.nested ?_).free
  refine .eat_bind (by decide) (by decide) (fun st _ => ?_) fun st _ => ?_
  · exact (closes_sliceTail hg t.pos object none).follows
  refine .bind (hg.expr (fun _ => trivial) _) fun low st _ => ?_
  refine .eat_bind (by decide) (by decide) (fun st _ => ?_) fun st _ => ?_
  · exact (closes_sliceTail hg t.pos object (some low)).follows
  · exact .expect_bind (by decide) (by decide) fun _ _ _ => .pure rfl

theorem follows_member (object : Expr) (hat : At st t) (ht : t.kind = .dot) :
    Follows j d st (member object) (member (object.lowered j.lines)) (Expr.lowered j.lines) := by
  refine .advance_bind hat (by simp [ht]) fun st _ => ?_
  refine .current_bind_or_fail (fun t ht => ⟨.noMember, by simp [ht, Token.Kind.isKeyword]⟩)
    fun name st hat _ _ => ?_
  rw [Token.kind_lowered]
  split
  next hname =>
    refine .advance_bind hat (fun heof => ?_) fun st _ => .pure rfl
    simp [heof, Token.Kind.isKeyword] at hname
  next => exact .fail rfl

theorem isAssignable_lowered (n : Nat) (op : AssignOp) (e : Expr) :
    isAssignable op (e.lowered n) = isAssignable op e := by
  cases e <;> rfl

theorem isTag_lowered (n : Nat) (e : Expr) : isTag (e.lowered n) = isTag e := by
  cases e <;> rfl

theorem follows_operation (hg : g.Joins) (left : Expr) (strength : Precedence)
    (hd : 0 < st.nesting → d) : Follows j d st (operation g left strength)
      (operation g (left.lowered j.lines) strength) (Expr.lowered j.lines) := by
  refine .current_bind_or_fail (fun t ht => ⟨.strayOperator, ?_⟩) fun t st hat hnesting _ => ?_
  · simp [ht, AssignOp.ofKind?, InfixOp.ofKind?]
  -- no bracket is closed in front of the right operand
  have hright (st' : State) (hnesting' : st'.nesting = st.nesting) (level : Precedence) :
      Follows j d st' (g.expression level) (g.expression level) (Expr.lowered j.lines) :=
    hg.expr (fun h => hd (hnesting ▸ hnesting' ▸ h)) level
  rw [Token.kind_lowered]
  split
  next op hop =>
    rw [isAssignable_lowered]
    split
    · exact .fail rfl
    refine .advance_bind hat (fun h => ?_) fun st hnesting => ?_
    · simp [h, AssignOp.ofKind?] at hop
    exact (hright st hnesting _).bind fun value st _ => .pure rfl
  next =>
    split
    next ht =>
      refine .advance_bind hat (by simp [ht]) fun st₁ hnesting₁ => ?_
      refine (hright st₁ hnesting₁ _).bind fun thenE st₂ hnesting₂ => ?_
      refine .expect_bind (by decide) (by decide) fun _ st₃ _ hnesting₃ => ?_
      exact (hright st₃ (hnesting₃.trans (hnesting₂.trans hnesting₁)) _).bind fun elseE _ _ =>
        .pure rfl
    next ht =>
      refine .advance_bind hat (by simp [ht]) fun st₁ hnesting₁ => ?_
      refine (hright st₁ hnesting₁ _).bind fun cond st₂ hnesting₂ => ?_
      refine .expect_bind (by decide) (by decide) fun _ st₃ _ hnesting₃ => ?_
      exact (hright st₃ (hnesting₃.trans (hnesting₂.trans hnesting₁)) _).bind fun elseE _ _ =>
        .pure rfl
    next ht => exact follows_call hg left hat ht
    next ht => exact follows_index hg left hat ht
    next ht => exact follows_member left hat ht
    next ht =>
      exact .advance_bind hat (by simp [ht]) fun st _ => follows_template hg t (some left)
    next =>
      split
      next op hop =>
        refine .advance_bind hat (fun h => ?_) fun st hnesting => ?_
        · simp [h, InfixOp.ofKind?] at hop
        exact (hright st hnesting _).bind fun right st _ => .pure rfl
      next => exact .fail rfl

theorem follows_continuation (level : Precedence) (left : Expr) (hd : 0 < st.nesting → d) :
    Follows j d st (continuation? level left) (continuation? level (left.lowered j.lines)) id := by
  refine .currentKind_bind (fun h => .inl (hd h)) (fun t st _ _ => ?_) fun st _ => .pure rfl
  rw [isTag_lowered]
  split
  · exact .pure rfl
  · split
    · exact .pure rfl
    · split <;> exact .pure rfl

theorem follows_operations (hg : g.Joins) (level : Precedence) (limit : Nat) (left : Expr)
    (hd : 0 < st.nesting → d) : Follows j d st (operations g level limit left)
      (operations g level limit (left.lowered j.lines)) (Expr.lowered j.lines) := by
  induction limit generalizing st left with
  | zero => exact .pure rfl
  | succ limit ih =>
    refine (follows_continuation level left hd).bind ?_
    rintro (_ | strength) st' hnesting
    · exact .pure rfl
    · replace hd : 0 < st'.nesting → d := fun h => hd (hnesting ▸ h)
      exact (follows_operation hg left strength hd).bind fun e st'' hnesting' =>
        ih e fun h => hd (hnesting' ▸ h)

theorem follows_expression (hg : g.Joins) (level : Precedence) (hd : 0 < st.nesting → d) :
    Follows j d st (expression g level) (expression g level) (Expr.lowered j.lines) := by
  refine (follows_operand hg hd).bind fun left st' hnesting => ?_
  refine (follows_operations hg level (j.state st').tokens.length left fun h =>
    hd (hnesting ▸ h)).congr (fun hst => ?_) fun _ => ?_
  · rw [run_bind_ok (run_get st')]
    exact run_operations_of_le hg.sound hst.ends (Nat.le_refl _) (j.length_le hst)
  · rw [run_bind_ok (run_get _)]

end Welle.Parser
