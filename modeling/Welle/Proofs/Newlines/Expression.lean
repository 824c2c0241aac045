import Welle.Proofs.Append.Expression
import Welle.Proofs.Newlines.Mirrors

set_option autoImplicit false

/-! # Expressions with line feeds inside of brackets

Every parser of an expression or of a part of one does the same in front of the same visible tokens,
given that the parsers one level down do. An interpolation is read from the text of its template, so
the tokens around it do not matter. -/

namespace Welle.Parser

open Welle.Newlines (Bracket Context visible ending)

/-- A parser that does the same in all twins of a state and closes the brackets that it opens. -/
abbrev Keeps {α : Type} (n : Nat) (bs : List Bracket) (st : State) (p : Parse α) : Prop :=
  Mirrors n ⟨bs, false⟩ ⟨bs, false⟩ st p

/-- The two recursive parsers do the same in front of the same visible tokens. -/
structure Grammar.Mirrored (g : Grammar) : Prop where
  sound : g.Sound
  expression : ∀ {n : Nat} {bs : List Bracket}, Heeds n ⟨bs, false⟩ → ∀ level st,
    Keeps n bs st (g.expression level)
  statement : ∀ {n : Nat} {bs : List Bracket}, Heeds n ⟨bs, false⟩ → ∀ st,
    Keeps n bs st g.statement

variable {g : Grammar} {n : Nat} {bs : List Bracket} {c : Context} {st : State} {t : Token}

theorem Grammar.Mirrored.moving (hg : g.Mirrored) (level : Precedence) : Moving (g.expression level) :=
  fun st => (hg.sound.expression level st).moves

/-! ## Templates -/

/-- A parser that does not look at its state; it reports the same wherever it is run. -/
def Detached {α : Type} (p : Parse α) : Prop :=
  ∃ result ds, ∀ st, run p st = (result, { st with diagnostics := st.diagnostics ++ ds })

namespace Detached

variable {α β : Type} {p : Parse α} {f : α → Parse β}

theorem pure {a : α} : Detached (Pure.pure a) := ⟨.ok a, [], fun st => by simp⟩

theorem bind (hp : Detached p) (hf : ∀ a, Detached (f a)) : Detached (p >>= f) := by
  obtain ⟨e | a, ds, hrun⟩ := hp
  · exact ⟨.error e, ds, fun st => run_bind_error (hrun st) f⟩
  · obtain ⟨result, ds', hrun'⟩ := hf a
    refine ⟨result, ds ++ ds', fun st => ?_⟩
    rw [run_bind_ok (hrun st), hrun', List.append_assoc]

theorem observing (hp : Detached p) : Detached (observing p) := by
  obtain ⟨result, ds, hrun⟩ := hp
  exact ⟨.ok result, ds, fun st => by rw [run_observing, hrun]⟩

theorem mirrors (h : Detached p) : Mirrors n c c st p := by
  intro a s hrun hclean
  obtain ⟨result, ds, hall⟩ := h
  obtain ⟨rfl, rfl⟩ := Prod.mk.inj ((hall st).symm.trans hrun)
  obtain ⟨hst, hds⟩ := List.append_eq_nil_iff.1 hclean
  subst hds
  refine ⟨hst, fun st' hst' => ⟨st', ?_, ?_⟩⟩
  · rw [hall, List.append_nil]
  · simpa using hst'

end Detached

theorem detached_hole (g : Grammar) (source : String) (origin opening : Position) :
    Detached (hole g source origin opening) :=
  ⟨_, _, run_hole g (holeState_eq source origin) opening⟩

theorem detached_holes (g : Grammar) (segments : List Template.Segment) :
    Detached (holes g segments) := by
  induction segments with
  | nil => exact .pure
  | cons segment segments ih =>
    rw [holes, List.filterMapM_cons]
    refine Detached.bind ?_ fun result => ?_
    · cases segment with
      | text value => exact .pure
      | hole source origin opening =>
        dsimp only
        rw [map_eq_pure_bind]
        exact (detached_hole g source origin opening).observing.bind fun _ => .pure
    · cases result with
      | none => exact ih
      | some result => exact ih.bind fun results => .pure

theorem mirrors_template (g : Grammar) (t : Token) (tag : Option Expr) :
    Mirrors n c c st (template g t tag) := by
  have htemplate : template g t tag
      = holes g (Template.split t.literal (t.pos.shifted 2)) >>= fun results =>
        liftExcept (firstError results) >>= fun es => pure (.template t.pos tag
          (Template.texts (Template.split t.literal (t.pos.shifted 2))) es) := rfl
  rw [htemplate]
  refine Detached.mirrors ((detached_holes g _).bind fun results => Detached.bind ?_ fun es => .pure)
  exact ⟨firstError results, [], fun st => by rw [run_liftExcept, List.append_nil]⟩

/-! ## Operands -/

theorem mirrors_number (t : Token) : Mirrors n c c st (number t) := by
  unfold number
  split
  · exact .pure
  · exact .pure
  · exact .fail

theorem mirrors_grouped (hg : g.Mirrored) (hn : Heeds n ⟨bs, false⟩) (hat : At st t)
    (ht : t.kind = .lparen) : Keeps n bs st (grouped g) := by
  refine .advance_bind hn hat ht (by decide) (.nested ?_)
  have hin : Heeds (n + 1) ⟨.paren :: bs, false⟩ := heeds_succ n _
  refine .eat_bind hin (by decide) (fun _ => .pure) fun s => ?_
  refine .bind (hg.expression hin _ _) fun first s => ?_
  refine .atKind_bind hin (fun _ _ _ => ?_) fun _ _ _ => ?_
  · refine .bind (.furtherItemsUntil hin (hg.moving _) fun s => hg.expression hin _ s) fun items s => ?_
    exact .expect_bind hin (by decide) fun _ _ _ => .pure
  · exact .expect_bind hin (by decide) fun _ _ _ => .pure

theorem mirrors_list (hg : g.Mirrored) (hn : Heeds n ⟨bs, false⟩) (hat : At st t)
    (ht : t.kind = .lbracket) : Keeps n bs st (list g) := by
  refine .advance_bind hn hat ht (by decide) (.nested ?_)
  have hin : Heeds (n + 1) ⟨.square :: bs, false⟩ := heeds_succ n _
  refine .eat_bind hin (by decide) (fun _ => .pure) fun s => ?_
  refine .bind (hg.expression hin _ _) fun first s => ?_
  refine .eat_bind hin (by decide) (fun s => ?_) fun s => ?_
  · refine .bind (.expectIdent hin) fun var s => ?_
    refine .expect_bind hin (by decide) fun _ s _ => ?_
    refine .bind (hg.expression hin _ _) fun seq s => ?_
    refine .eat_bind hin (by decide) (fun s => ?_) fun s => ?_
    · refine .bind (hg.expression hin _ _).map fun filter s => ?_
      exact .expect_bind hin (by decide) fun _ _ _ => .pure
    · exact .expect_bind hin (by decide) fun _ _ _ => .pure
  · refine .bind (.furtherItemsUntil hin (hg.moving _) fun s => hg.expression hin _ s) fun items s => ?_
    exact .expect_bind hin (by decide) fun _ _ _ => .pure

theorem mirrors_dictEntry (hg : g.Mirrored) (hn : Heeds n ⟨bs, false⟩) :
    Keeps n bs st (dictEntry g) := by
  have hentry (s : State) (short : Bool) : Keeps n bs s (if short = true then do
        return .shorthand (← expectIdent "")
      else do
        let key ← g.expression .lowest
        let _ ← expect .colon "after dict key"
        return .pair key (← g.expression .lowest) : Parse DictEntry) := by
    cases short with
    | true => exact .bind (.expectIdent hn) fun name s => .pure
    | false =>
      refine .bind (hg.expression hn _ _) fun key s => .expect_bind hn (by decide) fun _ s _ => ?_
      exact .bind (hg.expression hn _ _) fun value s => .pure
  refine .atKind_bind hn (fun t hat ht => ?_) fun t _ _ => ?_
  · exact .nextKind_bind hn hat ht (by decide) rfl fun kind => hentry _ _
  · exact .nextKind_bind_unused (fun _ => hentry _ false) fun _ _ => rfl

/-- The number sign makes the brace behind it that of a dictionary. -/
theorem mirrors_dict (hg : g.Mirrored) (hn : Heeds n ⟨bs, false⟩) (hat : At st t)
    (ht : t.kind = .hash) : Keeps n bs st (dict g) := by
  refine .advance_bind hn hat ht (by decide) ?_
  refine .expect_bind hn (by decide) fun _ s _ => .nested ?_
  have hin : Heeds (n + 1) ⟨.dict :: bs, false⟩ := heeds_succ n _
  refine .bind (.itemsUntil hin (fun st => (reads_dictEntry hg.sound).moves) fun s =>
    mirrors_dictEntry hg hin) fun entries s => ?_
  exact .expect_bind hin (by decide) fun _ _ _ => .pure

/-! ## Blocks -/

theorem mirrors_listedStatement (hg : g.Mirrored) (stop : Token.Kind) (hn : Heeds n ⟨bs, false⟩) :
    Keeps n bs st (listedStatement g stop) := by
  refine .skipSeparators_bind ?_
  refine .atKind_bind hn (fun _ _ _ => .pure) fun _ _ _ => ?_
  refine .atKind_bind hn (fun _ _ _ => .pure) fun _ _ _ => ?_
  refine .get_bind (.observing_bind (hg.statement hn _) (reports_recovery stop _)
    fun stmt s _ => .pure) fun st' _ found s hrun hclean => ?_
  -- how many tokens there are matters only where the statement fails
  rw [run_bind_ok (run_observing _ _)] at hrun ⊢
  rcases hstmt : run g.statement st' with ⟨e | stmt, s'⟩ <;> rw [hstmt] at hrun
  · have hreported :=
      (reports_recovery stop st.dropSeparators.settle.settle.tokens.length e s').2
    rw [hrun] at hreported
    exact absurd hclean hreported
  · exact hrun

theorem mirrors_statementsUntil (hg : g.Mirrored) (stop : Token.Kind) (hn : Heeds n ⟨bs, false⟩) :
    Keeps n bs st (statementsUntil g stop) :=
  .bind (.many (steps_listedStatement hg.sound stop) fun _ => mirrors_listedStatement hg stop hn)
    fun _ _ => .pure

/-- Between the braces of a block line feeds count, whatever brackets are around it. -/
theorem mirrors_block (hg : g.Mirrored) (hn : Heeds n ⟨bs, false⟩) : Keeps n bs st (block g) := by
  refine .expect_bind hn (by decide) fun opening s _ => .asStatements ?_
  have hin : Heeds 0 ⟨.block :: bs, false⟩ := heeds_block 0 bs
  refine .bind (mirrors_statementsUntil hg .rbrace hin) fun stmts s => ?_
  refine .observing_bind (.expect hin (by decide)) (fun e s => ?_) fun _ s _ => .pure
  refine reports_record ?_ e s
  exact fun st => ⟨[], .refl st⟩

/-- Whether a token stands behind the line feeds at the cursor is the same for twins. -/
theorem Twins.nextAfterNewlinesIs {st' : State} (h : Twins n c st st') (kind : Token.Kind) :
    st'.nextAfterNewlinesIs kind = st.nextAfterNewlinesIs kind := by
  have hnext {st : State} (hst : st.Ends) :
      st.nextAfterNewlinesIs kind = decide (st.dropNewlines.current.kind = kind) := by
    obtain ⟨t, ht, heof⟩ := (Moves.dropNewlines st).ends hst
    have hfind : st.tokens.find? (·.kind ≠ .newline) = st.dropNewlines.tokens.head? := by
      rw [List.find?_eq_head?_dropWhile_not]
      simp [State.dropNewlines]
    rw [State.nextAfterNewlinesIs, hfind, State.current]
    cases htokens : st.dropNewlines.tokens with
    | nil => simp [htokens] at ht
    | cons u us => rfl
  have hkind (st : State) : ((visible c st.dropNewlines.tokens).headD ending).kind
      = st.dropNewlines.current.kind := by
    rw [visible_current fun hline => absurd hline (current_dropNewlines st)]
    split
    next heof => exact heof.symm
    next => rfl
  rw [hnext h.ends.1, hnext h.ends.2, ← hkind, ← hkind, h.dropNewlines.visible_eq]

theorem mirrors_body (hg : g.Mirrored) (hn : Heeds n ⟨bs, false⟩) : Keeps n bs st (body g) := by
  refine .get_bind_eq ?_ fun st' h => by rw [h.nextAfterNewlinesIs]
  split
  · exact .skipNewlines_bind (mirrors_block hg hn)
  · exact mirrors_block hg hn

theorem mirrors_params (hn : Heeds n ⟨bs, false⟩) : Keeps n bs st params := by
  refine .expect_bind hn (by decide) fun _ s _ => .nested ?_
  have hin : Heeds (n + 1) ⟨.paren :: bs, false⟩ := heeds_succ n _
  refine .bind (.itemsUntil hin (fun st => (reads_expectIdent _).moves) fun s => .expectIdent hin)
    fun names s => ?_
  exact .expect_bind hin (by decide) fun _ _ _ => .pure

/-! ## Functions and `match` -/

theorem mirrors_funcLiteral (hg : g.Mirrored) (hn : Heeds n ⟨bs, false⟩) (hat : At st t)
    (ht : t.kind = .kwFunc) : Keeps n bs st (funcLiteral g) := by
  refine .advance_bind hn hat ht (by decide) ?_
  refine .bind (mirrors_params hn) fun names s => ?_
  exact .bind (mirrors_block hg hn) fun body s => .pure

theorem mirrors_caseValues (hg : g.Mirrored) (hn : Heeds n ⟨bs, false⟩) :
    Keeps n bs st (caseValues g) :=
  .commaSeparated hn (hg.moving _) fun s => hg.expression hn _ s

/-- The cases between braces, each of which closes its brackets. -/
theorem mirrors_arms {α β : Type} {construct : String} {caseArm : Token → Parse α}
    {defaultArm : Parse β} (hmoving : ∀ word, Moving (caseArm word)) (hmoving' : Moving defaultArm)
    (hcase : ∀ word s, Keeps n (.block :: bs) s (caseArm word))
    (hdefault : ∀ s, Keeps n (.block :: bs) s defaultArm) :
    Mirrors n ⟨.block :: bs, false⟩ ⟨bs, false⟩ st (arms construct caseArm defaultArm) := by
  have hn : Heeds n ⟨.block :: bs, false⟩ := heeds_block n bs
  have hround (s : State) : Keeps n (.block :: bs) s (armRound construct caseArm defaultArm) := by
    refine .skipSeparators_bind (.currentKind_bind hn fun t hat => ?_)
    split
    next => exact .pure
    next ht => exact .advance_bind hn hat ht (by decide) ((hcase t _).bind fun a s => .pure)
    next ht => exact .advance_bind hn hat ht (by decide) ((hdefault _).bind fun b s => .pure)
    next => exact .current_fail
  refine .bind (.many (steps_armRound hmoving hmoving') hround) fun found s => ?_
  exact .expect_bind hn (by decide) fun _ _ _ => .pure

theorem mirrors_matchResult (hg : g.Mirrored) (hn : Heeds n ⟨bs, false⟩) :
    Keeps n bs st (matchResult g) := by
  refine .expect_bind hn (by decide) fun _ s _ => ?_
  have hin : Heeds n ⟨.block :: bs, false⟩ := heeds_block n bs
  refine .skipSeparators_bind (.bind (hg.expression hin _ _) fun result s => ?_)
  exact .skipSeparators_bind (.expect_bind hin (by decide) fun _ _ _ => .pure)

/-- An expression in parentheses behind a word. -/
theorem mirrors_enclosed (hg : g.Mirrored) (context : String) :
    Mirrors (n + 1) ⟨.paren :: bs, false⟩ ⟨bs, false⟩ st (do
      let value ← g.expression .lowest
      let _ ← expect .rparen context
      return value) := by
  have hin : Heeds (n + 1) ⟨.paren :: bs, false⟩ := heeds_succ n _
  refine .bind (hg.expression hin _ _) fun value s => ?_
  exact .expect_bind hin (by decide) fun _ _ _ => .pure

theorem mirrors_select (hg : g.Mirrored) (hn : Heeds n ⟨bs, false⟩) (hat : At st t)
    (ht : t.kind = .kwMatch) : Keeps n bs st (select g) := by
  refine .advance_bind hn hat ht (by decide) ?_
  refine .expect_bind hn (by decide) fun _ s _ => ?_
  refine .bind (.nested (mirrors_enclosed hg _)) fun value s => ?_
  refine .expect_bind hn (by decide) fun _ s _ => .asStatements ?_
  refine .bind (mirrors_arms (fun word st => ?_) (fun st => (reads_matchResult hg.sound).moves)
    (fun word s => ?_) fun s => mirrors_matchResult hg (heeds_block 0 bs)) fun arms s => .pure
  · refine Reads.moves (R := fun _ _ _ _ => True) ((reads_caseValues hg.sound).bind fun _ _ st _ => ?_)
    exact (reads_matchResult hg.sound).bind fun _ _ st _ => .pure fun _ _ _ _ => trivial
  · refine .bind (mirrors_caseValues hg (heeds_block 0 bs)) fun values s => ?_
    exact .bind (mirrors_matchResult hg (heeds_block 0 bs)) fun result s => .pure

/-- An operator in front of its operand. -/
theorem mirrors_prefixed {kind : Token.Kind} (hg : g.Mirrored) (hn : Heeds n ⟨bs, false⟩)
    (hat : At st t) (ht : t.kind = kind) (heof : kind ≠ .eof)
    (hstep : Context.step ⟨bs, false⟩ kind = ⟨bs, false⟩) : Keeps n bs st (do
        let _ ← advance
        let value ← g.expression .prefixOp
        match PrefixOp.ofKind? t.kind with
        | some op => return Expr.unary t.pos op value
        | none => fail .strayPrefixOp t) := by
  refine .advance_bind hn hat ht heof ?_
  rw [hstep]
  refine .bind (hg.expression hn _ _) fun value s => ?_
  split
  · exact .pure
  · exact .fail

theorem mirrors_operand (hg : g.Mirrored) (hn : Heeds n ⟨bs, false⟩) :
    Keeps n bs st (operand g) := by
  refine .current_bind_or_fail hn (fun t hat _ => ?_) fun t ht => ⟨.unexpected t, by simp [ht]⟩
  split
  next ht => exact .advance_bind hn hat ht (by decide) .pure
  next ht => exact .advance_bind hn hat ht (by decide) (mirrors_number t)
  next ht => exact .advance_bind hn hat ht (by decide) (mirrors_number t)
  next ht => exact .advance_bind hn hat ht (by decide) .pure
  next ht => exact .advance_bind hn hat ht (by decide) (mirrors_template g t none)
  next ht => exact .advance_bind hn hat ht (by decide) .pure
  next ht => exact .advance_bind hn hat ht (by decide) .pure
  next ht => exact .advance_bind hn hat ht (by decide) .pure
  next ht => exact mirrors_prefixed hg hn hat ht (by decide) rfl
  next ht => exact mirrors_prefixed hg hn hat ht (by decide) rfl
  next ht => exact mirrors_prefixed hg hn hat ht (by decide) rfl
  next ht => exact mirrors_prefixed hg hn hat ht (by decide) rfl
  next ht => exact mirrors_grouped hg hn hat ht
  next ht => exact mirrors_list hg hn hat ht
  next ht => exact mirrors_dict hg hn hat ht
  next ht => exact mirrors_funcLiteral hg hn hat ht
  next ht => exact mirrors_select hg hn hat ht
  next => exact .fail
  next => exact .fail
  next => exact .fail

/-! ## Operators -/

theorem mirrors_argument (hg : g.Mirrored) (hn : Heeds n ⟨bs, false⟩) :
    Keeps n bs st (argument g) := by
  refine .atKind_bind hn (fun t hat ht => ?_) fun _ _ _ => hg.expression hn _ _
  refine .advance_bind hn hat ht (by decide) ?_
  exact .bind (hg.expression hn _ _) fun value s => .pure

theorem mirrors_call (hg : g.Mirrored) (callee : Expr) (hn : Heeds n ⟨bs, false⟩) (hat : At st t)
    (ht : t.kind = .lparen) : Keeps n bs st (call g callee) := by
  refine .advance_bind hn hat ht (by decide) (.nested ?_)
  have hin : Heeds (n + 1) ⟨.paren :: bs, false⟩ := heeds_succ n _
  refine .bind (.itemsUntil hin (fun st => (reads_argument hg.sound).moves) fun s =>
    mirrors_argument hg hin) fun args s => ?_
  exact .expect_bind hin (by decide) fun _ _ _ => .pure

theorem mirrors_sliceTail (hg : g.Mirrored) (opening : Position) (object : Expr) (low : Option Expr)
    (hn : Heeds n ⟨.square :: bs, false⟩) :
    Mirrors n ⟨.square :: bs, false⟩ ⟨bs, false⟩ st (sliceTail g opening object low) := by
  have hclose (high step : Option Expr) (s : State) :
      Mirrors n ⟨.square :: bs, false⟩ ⟨bs, false⟩ s (do
        let _ ← expect .rbracket "to close slice"
        return Expr.slice opening object low high step) :=
    .expect_bind hn (by decide) fun _ _ _ => .pure
  have hstep (high : Option Expr) (s : State) :
      Mirrors n ⟨.square :: bs, false⟩ ⟨bs, false⟩ s (do
        let step ← if ← eat .colon then
            if ← atKind .rbracket then pure none else some <$> g.expression .lowest
          else pure none
        let _ ← expect .rbracket "to close slice"
        return Expr.slice opening object low high step) := by
    refine .eat_bind hn (by decide) (fun s => ?_) fun s => hclose high none s
    refine .atKind_bind hn (fun _ _ _ => hclose high none _) fun _ _ _ => ?_
    exact .bind (hg.expression hn _ _).map fun step s => hclose high step s
  refine .currentKind_bind hn fun t _ => ?_
  split
  · exact hstep none _
  · exact hstep none _
  · exact .bind (hg.expression hn _ _).map fun high s => hstep high s

theorem mirrors_index (hg : g.Mirrored) (object : Expr) (hn : Heeds n ⟨bs, false⟩) (hat : At st t)
    (ht : t.kind = .lbracket) : Keeps n bs st (index g object) := by
  refine .advance_bind hn hat ht (by decide) (.nested ?_)
  have hin : Heeds (n + 1) ⟨.square :: bs, false⟩ := heeds_succ n _
  refine .eat_bind hin (by decide) (fun s => ?_) fun s => ?_
  · exact mirrors_sliceTail hg t.pos object none hin
  refine .bind (hg.expression hin _ _) fun low s => ?_
  refine .eat_bind hin (by decide) (fun s => ?_) fun s => ?_
  · exact mirrors_sliceTail hg t.pos object (some low) hin
  · exact .expect_bind hin (by decide) fun _ _ _ => .pure

/-- The kinds that open or close no bracket. -/
def isInert (kind : Token.Kind) : Bool :=
  match kind with
  | .eof | .hash | .lparen | .rparen | .lbracket | .rbracket | .lbrace | .rbrace => false
  | _ => true

theorem step_of_isInert {kind : Token.Kind} (h : isInert kind = true) :
    Context.step ⟨bs, false⟩ kind = ⟨bs, false⟩ := by
  cases kind <;> first
    | rfl
    | cases h

/-- Moving on over a token that is no bracket. -/
theorem Mirrors.advance_bind_of_isInert {β : Type} {c' : Context} {f : Token → Parse β}
    (hn : Heeds n ⟨bs, false⟩) (hat : At st t) (ht : isInert t.kind = true)
    (h : ∀ s, Mirrors n ⟨bs, false⟩ c' s (f t)) : Mirrors n ⟨bs, false⟩ c' st (advance >>= f) := by
  refine .advance_bind hn hat rfl (fun heof => ?_) ?_
  · rw [heof] at ht
    cases ht
  · rw [step_of_isInert ht]
    exact h _

theorem mirrors_member (object : Expr) (hn : Heeds n ⟨bs, false⟩) (hat : At st t)
    (ht : t.kind = .dot) : Keeps n bs st (member object) := by
  refine .advance_bind hn hat ht (by decide) ?_
  refine .current_bind_or_fail hn (fun name hat _ => ?_)
    fun t ht => ⟨.noMember, by simp [ht, Token.Kind.isKeyword]⟩
  split
  next hname =>
    refine .advance_bind_of_isInert hn hat ?_ fun s => .pure
    generalize name.kind = kind at hname
    cases kind <;> first
      | rfl
      | cases hname
  next => exact .fail

theorem isInert_of_assign {kind : Token.Kind} {op : AssignOp} (h : AssignOp.ofKind? kind = some op) :
    isInert kind = true := by
  cases kind <;> first
    | rfl
    | cases h

theorem isInert_of_operator {kind : Token.Kind} {op : InfixOp} (h : InfixOp.ofKind? kind = some op) :
    isInert kind = true := by
  cases kind <;> first
    | rfl
    | cases h

theorem mirrors_operation (hg : g.Mirrored) (left : Expr) (strength : Precedence)
    (hn : Heeds n ⟨bs, false⟩) : Keeps n bs st (operation g left strength) := by
  refine .current_bind_or_fail hn (fun t hat _ => ?_) fun t ht => ⟨.strayOperator, by
    simp [ht, AssignOp.ofKind?, InfixOp.ofKind?]⟩
  split
  next op hop =>
    split
    · exact .fail
    · refine .advance_bind_of_isInert hn hat (isInert_of_assign hop) fun s => ?_
      exact .bind (hg.expression hn _ _) fun value s => .pure
  next =>
    split
    next ht =>
      refine .advance_bind hn hat ht (by decide) (.bind (hg.expression hn _ _) fun thenE s => ?_)
      refine .expect_bind hn (by decide) fun _ s _ => ?_
      exact .bind (hg.expression hn _ _) fun elseE s => .pure
    next ht =>
      refine .advance_bind hn hat ht (by decide) (.bind (hg.expression hn _ _) fun cond s => ?_)
      refine .expect_bind hn (by decide) fun _ s _ => ?_
      exact .bind (hg.expression hn _ _) fun elseE s => .pure
    next ht => exact mirrors_call hg left hn hat ht
    next ht => exact mirrors_index hg left hn hat ht
    next ht => exact mirrors_member left hn hat ht
    next ht => exact .advance_bind hn hat ht (by decide) (mirrors_template g t (some left))
    next =>
      split
      next op hop =>
        refine .advance_bind_of_isInert hn hat (isInert_of_operator hop) fun s => ?_
        exact .bind (hg.expression hn _ _) fun right s => .pure
      next => exact .fail

theorem mirrors_continuation (level : Precedence) (left : Expr) (hn : Heeds n ⟨bs, false⟩) :
    Keeps n bs st (continuation? level left) := by
  refine .currentKind_bind hn fun t _ => ?_
  split
  · exact .pure
  · split
    · exact .pure
    · split <;> exact .pure

theorem mirrors_operations (hg : g.Mirrored) (level : Precedence) (limit : Nat) (left : Expr)
    (hn : Heeds n ⟨bs, false⟩) : Keeps n bs st (operations g level limit left) := by
  induction limit generalizing st left with
  | zero => exact .pure
  | succ limit ih =>
    refine .bind (mirrors_continuation level left hn) ?_
    rintro (_ | strength) s
    · exact .pure
    · exact .bind (mirrors_operation hg left strength hn) fun e s => ih e

theorem mirrors_expression (hg : g.Mirrored) (level : Precedence) (hn : Heeds n ⟨bs, false⟩) :
    Keeps n bs st (expression g level) :=
  .bind (mirrors_operand hg hn) fun left _ =>
    .get_limit (fun limit => mirrors_operations hg level limit left hn) fun _ _ hends hlimit =>
      run_operations_of_le hg.sound hends (Nat.le_refl _) hlimit

end Welle.Parser
