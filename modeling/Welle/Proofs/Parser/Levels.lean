import Welle.Proofs.Parser.Statement
import Welle.Proofs.Spelling

set_option autoImplicit false

/-! # Enough levels

A grammar allows its rules to nest so many levels deep. The weight of the tokens that are left is
enough: no rule asks for more levels, so a parse does not depend on what stands below the last one.

The argument is a congruence. Two grammars that agree on states of weight `n` lead to rules that
agree on states of weight `n + 1`, because a rule moves behind a token before it asks the grammar
below, and because the source of an interpolation weighs less than its template. -/

namespace Welle.Parser

/-! ## Weight -/

/-- The tokens from the cursor on have an end. -/
def State.Ends (st : State) : Prop := ∃ t ∈ st.tokens, t.kind = .eof

/-- Moving on leaves the end where it is. -/
theorem Moves.ends {st st' : State} {used : List Token} (h : Moves st used st') (hst : st.Ends) :
    st'.Ends := by
  obtain ⟨t, ht, heof⟩ := hst
  rw [h.tokens] at ht
  rcases List.mem_append.1 ht with ht | ht
  · exact absurd heof (h.inside t ht)
  · exact ⟨t, ht, heof⟩

/-- The tokens from the cursor on have an end and weigh at most `n`. -/
structure Fits (n : Nat) (st : State) : Prop where
  ends : st.Ends
  weight : st.weight ≤ n

theorem one_le_tokenWeight (t : Token) : 1 ≤ tokenWeight t := Nat.le_add_right 1 _

/-- The weight of a list of tokens. -/
def weightOf (tokens : List Token) : Nat :=
  tokens.foldr (fun token weight => tokenWeight token + weight) 0

theorem State.weight_eq (st : State) : st.weight = weightOf st.tokens := rfl

theorem weightOf_cons (t : Token) (ts : List Token) : weightOf (t :: ts) = tokenWeight t + weightOf ts :=
  rfl

theorem weightOf_append (ts us : List Token) : weightOf (ts ++ us) = weightOf ts + weightOf us := by
  induction ts with
  | nil => simp [weightOf]
  | cons t ts ih => rw [List.cons_append, weightOf_cons, weightOf_cons, ih, Nat.add_assoc]

theorem length_le_weightOf (ts : List Token) : ts.length ≤ weightOf ts := by
  induction ts with
  | nil => exact Nat.zero_le _
  | cons t ts ih =>
    have hone := one_le_tokenWeight t
    rw [List.length_cons, weightOf_cons]
    omega

namespace Fits

variable {n : Nat} {st st' : State}

theorem succ (h : Fits n st) : Fits (n + 1) st := ⟨h.ends, Nat.le_succ_of_le h.weight⟩

/-- Moving on makes a state no heavier. -/
theorem moves {used : List Token} (h : Fits n st) (hmoves : Moves st used st') : Fits n st' := by
  have hweight := h.weight
  rw [State.weight_eq, hmoves.tokens, weightOf_append, ← State.weight_eq] at hweight
  exact ⟨hmoves.ends h.ends, by omega⟩

/-- Behind a token a state is lighter by the weight of the token. -/
theorem behind {t : Token} (h : Fits (n + 1) st) (hat : At st t) (heof : t.kind ≠ .eof) :
    Fits n st.dropToken ∧ tokenWeight t ≤ n + 1 := by
  have hends := (hat.moves heof).ends h.ends
  have hweight := h.weight
  have hone := one_le_tokenWeight t
  rw [State.weight_eq, hat.tokens heof, ← List.singleton_append, weightOf_append,
    ← State.weight_eq] at hweight
  have hsingle : weightOf [t] = tokenWeight t := by simp [weightOf]
  exact ⟨⟨hends, by omega⟩, by omega⟩

/-- An end weighs something. -/
theorem pos (h : Fits n st) : 0 < n := by
  obtain ⟨t, ht, -⟩ := h.ends
  have hweight := h.weight
  have hone := one_le_tokenWeight t
  obtain ⟨us, vs, htokens⟩ := List.append_of_mem ht
  rw [State.weight_eq, htokens, weightOf_append, weightOf_cons] at hweight
  omega

end Fits

/-- A lexeme weighs no more than its characters. -/
theorem weight_scan_le (c : Char) (cs : List Char) (pos : Position) :
    tokenWeight ⟨(Token.scan c cs).kind, (Token.scan c cs).literal, (Token.scan c cs).raw, pos⟩
      ≤ (Token.scan c cs).text.length := by
  have hone : 1 ≤ (Token.scan c cs).text.length := by
    have hlength := congrArg List.length (Token.scan_append c cs)
    have hrest := Token.scan_rest_length c cs
    simp only [List.length_append, List.length_cons] at hlength
    omega
  unfold tokenWeight
  split
  next hkind =>
    cases Token.scan_cases c cs with
    | word _ heq =>
      rw [heq] at hkind
      exact absurd hkind (Token.Kind.ofWord_ne_template _)
    | template _ htext =>
      have hlength := congrArg List.length htext
      simp only [List.length_cons, List.length_append, List.length_nil, String.length_toList]
        at hlength
      dsimp only
      omega
    | other _ _ htemplate => exact absurd hkind htemplate
  next => exact hone

/-- The tokens of a text weigh no more than its characters and its end. -/
theorem weightOf_tokensFrom (pos : Position) (cs : List Char) :
    weightOf (Token.tokensFrom pos cs) ≤ cs.length + 1 := by
  fun_induction Token.tokensFrom pos cs with
  | case1 pos cs gap hgap => simp [weightOf, tokenWeight, Token.endOfText]
  | case2 pos cs gap c rest hgap lexeme start ih =>
    have happend := congrArg List.length (Token.skipGap_append cs)
    have hscan := congrArg List.length (Token.scan_append c rest)
    have hweight : tokenWeight ⟨lexeme.kind, lexeme.literal, lexeme.raw, start⟩ ≤ lexeme.text.length :=
      weight_scan_le c rest start
    rw [hgap] at happend
    simp only [List.length_append, List.length_cons] at happend hscan
    change tokenWeight ⟨lexeme.kind, lexeme.literal, lexeme.raw, start⟩ + weightOf _ ≤ _
    change lexeme.text.length + lexeme.rest.length = _ at hscan
    omega

/-! ## Two parsers that do the same -/

theorem Reads.eat {st : State} {kind : Token.Kind} (heof : kind ≠ .eof) (hnewline : kind ≠ .newline) :
    Reads st (eat kind) fun _ _ _ _ => True := by
  rw [← bind_pure (Parser.eat kind)]
  exact .eat_bind heof hnewline (fun _ _ _ => .pure fun _ _ => trivial)
    (fun _ _ _ _ => .pure fun _ _ => trivial)

/-- On a state that fits, two parsers do the same, and they move on from it. -/
def Alike {α : Type} (n : Nat) (st : State) (p q : Parse α) : Prop :=
  Fits n st → run p st = run q st ∧ ∃ used, Moves st used (run p st).2

/-- Two parsers that do the same and do not succeed without having moved behind a token. -/
def Ahead {α : Type} (n : Nat) (st : State) (p q : Parse α) : Prop :=
  Fits n st → run p st = run q st ∧ ∃ used, Moves st used (run p st).2
    ∧ (used = [] → ∃ e, (run p st).1 = .error e)

theorem Ahead.alike {α : Type} {n : Nat} {st : State} {p q : Parse α} (h : Ahead n st p q) :
    Alike n st p q := by
  intro hst
  obtain ⟨hsame, used, hmoves, -⟩ := h hst
  exact ⟨hsame, used, hmoves⟩

namespace Alike

variable {α β : Type} {n : Nat} {st : State} {p q : Parse α} {f f' : α → Parse β}

theorem of_reads {R : Prop → List Token → α → State → Prop} (h : Reads st p R) : Alike n st p p :=
  fun _ => ⟨rfl, h.moves⟩

theorem pred (h : Alike (n + 1) st p q) : Alike n st p q := fun hst => h hst.succ

theorem bind (hp : Alike n st p q) (hf : ∀ a st', Alike n st' (f a) (f' a)) :
    Alike n st (p >>= f) (q >>= f') := by
  intro hst
  obtain ⟨hsame, used, hmoves⟩ := hp hst
  rcases hrun : run p st with ⟨e | a, st'⟩
  · rw [hrun] at hsame hmoves
    rw [run_bind_error hrun, run_bind_error hsame.symm]
    exact ⟨rfl, used, hmoves⟩
  · rw [hrun] at hsame hmoves
    rw [run_bind_ok hrun, run_bind_ok hsame.symm]
    obtain ⟨hsame', vs, hmoves'⟩ := hf a st' (hst.moves hmoves)
    exact ⟨hsame', used ++ vs, hmoves.trans hmoves'⟩

/-- The same parser in front of two others. -/
theorem behind {R : Prop → List Token → α → State → Prop} (h : Reads st p R)
    (hf : ∀ a st', Alike n st' (f a) (f' a)) : Alike n st (p >>= f) (p >>= f') :=
  bind (of_reads h) hf

theorem pure (a : α) : Alike n st (Pure.pure a) (Pure.pure a) := fun _ => ⟨rfl, [], .refl st⟩

theorem fail (cause : Cause) (token : Token) :
    Alike n st (Parser.fail cause token : Parse α) (Parser.fail cause token) :=
  fun _ => ⟨rfl, [], .refl st⟩

theorem map {g : α → β} (h : Alike n st p q) : Alike n st (g <$> p) (g <$> q) := by
  rw [map_eq_pure_bind, map_eq_pure_bind]
  exact h.bind fun a st' => pure (g a)

theorem observing (h : Alike n st p q) : Alike n st (observing p) (observing q) := by
  intro hst
  obtain ⟨hsame, hmoves⟩ := h hst
  rw [run_observing, run_observing, ← hsame]
  exact ⟨rfl, hmoves⟩

/-! ### The cursor -/

theorem skip {a : α} {st' : State} {used : List Token} (hrun : run p st = (.ok a, st'))
    (hmoves : Moves st used st') (h : Alike n st' (f a) (f' a)) :
    Alike n st (p >>= f) (p >>= f') := by
  intro hst
  rw [run_bind_ok hrun, run_bind_ok hrun]
  obtain ⟨hsame, vs, hmoves'⟩ := h (hst.moves hmoves)
  exact ⟨hsame, used ++ vs, hmoves.trans hmoves'⟩

theorem get_bind {f f' : State → Parse β} (h : Alike n st (f st) (f' st)) :
    Alike n st (get >>= f) (get >>= f') :=
  skip (run_get st) (.refl st) h

theorem current_bind {f f' : Token → Parse β} (h : ∀ t st', At st' t → Alike n st' (f t) (f' t)) :
    Alike n st (current >>= f) (current >>= f') := by
  obtain ⟨used, hmoves, -⟩ := Moves.settle st
  exact skip (run_current st) hmoves (h _ _ (.ofSettle st))

theorem currentKind_bind {f f' : Token.Kind → Parse β}
    (h : ∀ t st', At st' t → Alike n st' (f t.kind) (f' t.kind)) :
    Alike n st (currentKind >>= f) (currentKind >>= f') := by
  obtain ⟨used, hmoves, -⟩ := Moves.settle st
  exact skip (run_currentKind st) hmoves (h _ _ (.ofSettle st))

theorem atKind_bind {kind : Token.Kind} {f f' : Bool → Parse β}
    (htrue : ∀ t st', At st' t → t.kind = kind → Alike n st' (f true) (f' true))
    (hfalse : ∀ t st', At st' t → t.kind ≠ kind → Alike n st' (f false) (f' false)) :
    Alike n st (atKind kind >>= f) (atKind kind >>= f') := by
  obtain ⟨used, hmoves, -⟩ := Moves.settle st
  refine skip (run_atKind st kind) hmoves ?_
  by_cases h : st.settle.current.kind = kind
  · rw [decide_eq_true h]
    exact htrue _ _ (.ofSettle st) h
  · rw [decide_eq_false h]
    exact hfalse _ _ (.ofSettle st) h

theorem nextKind_bind {f f' : Token.Kind → Parse β}
    (h : ∀ kind st', (∀ t, At st t → At st' t) → Alike n st' (f kind) (f' kind)) :
    Alike n st (nextKind >>= f) (nextKind >>= f') := by
  obtain ⟨used, hmoves, -⟩ := Moves.settle st
  obtain ⟨kind, hrun⟩ : ∃ kind, run nextKind st = (.ok kind, st.settle) := ⟨_, rfl⟩
  refine skip hrun hmoves (h _ _ fun t ht => ?_)
  rw [ht.settled]
  exact ht

theorem skipNewlines_bind {f f' : Unit → Parse β} (h : ∀ st', Alike n st' (f ()) (f' ())) :
    Alike n st (skipNewlines >>= f) (skipNewlines >>= f') :=
  skip (run_skipNewlines st) (.dropNewlines st) (h _)

theorem eat_bind {kind : Token.Kind} {f f' : Bool → Parse β} (heof : kind ≠ .eof)
    (hnewline : kind ≠ .newline) (h : ∀ found st', Alike n st' (f found) (f' found)) :
    Alike n st (eat kind >>= f) (eat kind >>= f') :=
  behind (Reads.eat heof hnewline) h

theorem expect_bind {kind : Token.Kind} {context : String} {f f' : Token → Parse β}
    (heof : kind ≠ .eof) (hnewline : kind ≠ .newline) (h : ∀ t st', Alike n st' (f t) (f' t)) :
    Alike n st (expect kind context >>= f) (expect kind context >>= f') :=
  behind (Reads.expect heof hnewline) h

theorem expectIdent_bind {context : String} {f f' : Ident → Parse β}
    (h : ∀ id st', Alike n st' (f id) (f' id)) :
    Alike n st (expectIdent context >>= f) (expectIdent context >>= f') :=
  behind (reads_expectIdent context) h

/-! ### One token less -/

/-- Behind a token that is known, one level less is needed. -/
theorem ahead_advance_bind {t : Token} {f f' : Token → Parse β} (hat : At st t) (heof : t.kind ≠ .eof)
    (h : tokenWeight t ≤ n + 1 → ∀ st', Alike n st' (f t) (f' t)) :
    Ahead (n + 1) st (advance >>= f) (advance >>= f') := by
  intro hst
  obtain ⟨hbehind, hweight⟩ := hst.behind hat heof
  rw [run_bind_ok (run_advance hat heof), run_bind_ok (run_advance hat heof)]
  obtain ⟨hsame, vs, hmoves⟩ := h hweight _ hbehind
  exact ⟨hsame, t :: vs, (hat.moves heof).trans hmoves, fun hnil => by cases hnil⟩

theorem advance_bind {t : Token} {f f' : Token → Parse β} (hat : At st t) (heof : t.kind ≠ .eof)
    (h : tokenWeight t ≤ n + 1 → ∀ st', Alike n st' (f t) (f' t)) :
    Alike (n + 1) st (advance >>= f) (advance >>= f') :=
  (ahead_advance_bind hat heof h).alike

/-- Behind a token that is asked for, one level less is needed. -/
theorem expect_bind_succ {kind : Token.Kind} {context : String} {f f' : Token → Parse β}
    (heof : kind ≠ .eof) (h : ∀ t st', Alike n st' (f t) (f' t)) :
    Alike (n + 1) st (expect kind context >>= f) (expect kind context >>= f') := by
  unfold expect
  rw [bind_assoc, bind_assoc]
  refine atKind_bind (fun t st' hat hkind => ?_) (fun t st' hat hkind => ?_)
  · simp only [if_true]
    exact advance_bind hat (hkind ▸ heof) fun _ => h t
  · simp only [Bool.false_eq_true, if_false, bind_assoc]
    refine current_bind fun t st'' _ => ?_
    intro _
    exact ⟨by simp [run_bind], [], by simpa [run_bind] using Moves.refl st''⟩

/-! ### Brackets -/

theorem nested (h : ∀ st, Alike n st p q) : Alike n st (Parser.nested p) (Parser.nested q) := by
  intro hst
  obtain ⟨hsame, used, hmoves⟩ := h { st with nesting := st.nesting + 1 } ⟨hst.ends, hst.weight⟩
  rw [run_nested, run_nested, ← hsame]
  exact ⟨rfl, used, hmoves.tokens, hmoves.inside, by simp [hmoves.nesting], hmoves.diagnostics⟩

theorem asStatements (h : ∀ st, Alike n st p q) :
    Alike n st (Parser.asStatements p) (Parser.asStatements q) := by
  intro hst
  obtain ⟨hsame, used, hmoves⟩ := h { st with nesting := 0 } ⟨hst.ends, hst.weight⟩
  rw [run_asStatements, run_asStatements, ← hsame]
  exact ⟨rfl, used, hmoves.tokens, hmoves.inside, rfl, hmoves.diagnostics⟩

/-! ### Repetition -/

theorem collect {step step' : Parse (Option α)} (h : ∀ st, Alike n st step step') (limit : Nat) :
    ∀ st, Alike n st (Parser.collect step limit) (Parser.collect step' limit) := by
  induction limit with
  | zero => exact fun st => pure []
  | succ limit ih =>
    intro st
    refine (h st).bind ?_
    rintro (_ | a) st'
    · exact pure []
    · exact (ih st').bind fun as st'' => pure (a :: as)

theorem many {step step' : Parse (Option α)} (h : ∀ st, Alike n st step step') :
    Alike n st (Parser.many step) (Parser.many step') :=
  get_bind (collect h _ st)

variable {item item' : Parse α}

theorem furtherItems (h : ∀ st, Alike n st item item') :
    Alike n st (Parser.furtherItems item) (Parser.furtherItems item') := by
  refine many fun st => eat_bind (by decide) (by decide) fun found st => ?_
  split
  · exact (h st).map
  · exact pure none

theorem commaSeparated (h : ∀ st, Alike n st item item') :
    Alike n st (Parser.commaSeparated item) (Parser.commaSeparated item') :=
  (h st).bind fun first _ => (furtherItems h).bind fun items _ => pure (first :: items)

theorem furtherItemsUntil {close : Token.Kind} (h : ∀ st, Alike n st item item') :
    Alike n st (Parser.furtherItemsUntil close item) (Parser.furtherItemsUntil close item') := by
  refine many fun st => eat_bind (by decide) (by decide) fun found st => ?_
  split
  · exact atKind_bind (fun _ _ _ _ => pure none) fun _ st _ _ => (h st).map
  · exact pure none

theorem itemsUntil {close : Token.Kind} (h : ∀ st, Alike n st item item') :
    Alike n st (Parser.itemsUntil close item) (Parser.itemsUntil close item') := by
  refine atKind_bind (fun _ _ _ _ => pure []) fun _ st _ _ => ?_
  exact (h st).bind fun first _ => (furtherItemsUntil h).bind fun items _ => pure (first :: items)

end Alike

theorem Ahead.current_bind {α : Type} {n : Nat} {st : State} {f f' : Token → Parse α}
    (h : ∀ t st', At st' t → Ahead n st' (f t) (f' t)) :
    Ahead n st (current >>= f) (current >>= f') := by
  intro hst
  obtain ⟨used, hmoves, -⟩ := Moves.settle st
  rw [run_bind_ok (run_current st), run_bind_ok (run_current st)]
  obtain ⟨hsame, vs, hmoves', hvs⟩ := h _ _ (.ofSettle st) (hst.moves hmoves)
  refine ⟨hsame, used ++ vs, hmoves.trans hmoves', fun hnil => hvs ?_⟩
  exact (List.append_eq_nil_iff.1 hnil).2

/-! ## Grammars that agree -/

/-- Two grammars that do the same on states of weight `n`. -/
structure Grammar.Agrees (n : Nat) (g g' : Grammar) : Prop where
  expression : ∀ level st, Alike n st (g.expression level) (g'.expression level)
  statement : ∀ st, Alike n st g.statement g'.statement

section Rules

variable {n : Nat} {g g' : Grammar} {st : State} {t : Token}

/-! ### Templates -/

theorem alike_holeExpression (hg : g.Agrees n g') (opening : Position) :
    Alike n st (holeExpression g opening) (holeExpression g' opening) := by
  refine .atKind_bind (fun _ st _ _ _ => ⟨rfl, [], .refl st⟩) fun _ st _ _ => ?_
  refine (hg.expression _ st).bind fun value st => ?_
  refine .atKind_bind (fun _ st _ _ => .pure value) fun _ st _ _ => ?_
  exact .current_bind fun t st _ => .fail _ t

/-- The tokens of a text have an end already. -/
theorem ofTokens_tokensFrom (pos : Position) (cs : List Char) :
    (State.ofTokens (Token.tokensFrom pos cs)).tokens = Token.tokensFrom pos cs := by
  obtain ⟨front, hfront, -⟩ := Token.tokensFrom_eq_concat pos cs
  rw [hfront]
  simp [State.ofTokens, Token.endOfText]

/-- The source of an interpolation is read on its own, within brackets. -/
theorem run_hole (g : Grammar) {source : String} {origin : Position} {inner : State}
    (hinner : inner = ⟨Token.tokenizeAt source origin, 1, []⟩) (opening : Position) (st : State) :
    run (hole g source origin opening) st
      = ((run (holeExpression g opening) inner).1,
        { st with diagnostics :=
            st.diagnostics ++ (run (holeExpression g opening) inner).2.diagnostics }) := by
  have hstate : { State.ofTokens (Token.tokenizeAt source origin) with nesting := 1 } = inner := by
    have htokens := ofTokens_tokensFrom origin source.toList
    rw [State.ofTokens] at htokens ⊢
    exact hinner ▸ congrArg (State.mk · 1 []) htokens
  unfold hole
  rw [hstate, run_bind, run_modify]
  exact run_liftExcept _ _

/-- The source of an interpolation is read alike where it is short enough. -/
theorem alike_hole (hg : g.Agrees n g') {source : String} (h : source.length < n)
    (origin opening : Position) :
    Alike n st (hole g source origin opening) (hole g' source origin opening) := by
  let inner : State := ⟨Token.tokenizeAt source origin, 1, []⟩
  have hfits : Fits n inner := by
    obtain ⟨front, hfront, -⟩ := Token.tokensFrom_eq_concat origin source.toList
    have hweight := weightOf_tokensFrom origin source.toList
    rw [String.length_toList] at hweight
    constructor
    · change ∃ t ∈ Token.tokensFrom origin source.toList, _
      rw [hfront]
      exact ⟨_, List.mem_append_right _ (List.mem_singleton_self _), rfl⟩
    · change weightOf (Token.tokensFrom origin source.toList) ≤ n
      omega
  obtain ⟨hsame, -⟩ := alike_holeExpression hg opening hfits
  intro _
  rw [run_hole g rfl, run_hole g' rfl, ← hsame]
  exact ⟨rfl, [], rfl, by simp, rfl, List.prefix_append ..⟩

theorem alike_holes (hg : g.Agrees n g') {segments : List Template.Segment}
    (h : ∀ source origin opening, .hole source origin opening ∈ segments → source.length < n) :
    ∀ st, Alike n st
      (segments.filterMapM fun
        | .text _ => Pure.pure none
        | .hole source origin opening => some <$> observing (hole g source origin opening))
      (segments.filterMapM fun
        | .text _ => Pure.pure none
        | .hole source origin opening => some <$> observing (hole g' source origin opening)) := by
  induction segments with
  | nil => exact fun st => .pure []
  | cons segment segments ih =>
    have ih := ih fun source origin opening hmem =>
      h source origin opening (List.mem_cons_of_mem _ hmem)
    intro st
    rw [List.filterMapM_cons, List.filterMapM_cons]
    cases segment with
    | text value => simpa using ih st
    | hole source origin opening =>
      have hlength := h source origin opening List.mem_cons_self
      refine (alike_hole hg hlength origin opening).observing.map.bind ?_
      rintro (_ | result) st
      · exact ih st
      · exact (ih st).bind fun results st => .pure (result :: results)

theorem alike_template (hg : g.Agrees n g') (hweight : tokenWeight t ≤ n + 1)
    (ht : t.kind = .template) (tag : Option Expr) :
    Alike n st (template g t tag) (template g' t tag) := by
  refine (alike_holes hg (fun source origin opening hmem => ?_) st).bind fun results st => ?_
  · have hsource := Template.source_length_of_mem_split hmem
    rw [tokenWeight, if_pos ht] at hweight
    omega
  · exact .behind (.liftExcept (R := fun _ _ _ _ => True) fun _ _ _ _ => trivial)
      fun es st => .pure _

/-! ### Operands -/

theorem alike_grouped (hg : g.Agrees n g') (hat : At st t) (ht : t.kind = .lparen) :
    Alike (n + 1) st (grouped g) (grouped g') := by
  refine .advance_bind hat (by simp [ht]) fun _ st => .nested fun st => ?_
  refine .eat_bind (by decide) (by decide) fun found st => ?_
  split
  · exact .pure _
  refine (hg.expression _ st).bind fun first st => .atKind_bind (fun _ st _ _ => ?_) fun _ st _ _ => ?_
  · refine (Alike.furtherItemsUntil (hg.expression _)).bind fun items st => ?_
    exact .expect_bind (by decide) (by decide) fun _ _ => .pure _
  · exact .expect_bind (by decide) (by decide) fun _ _ => .pure _

theorem alike_list (hg : g.Agrees n g') (hat : At st t) (ht : t.kind = .lbracket) :
    Alike (n + 1) st (list g) (list g') := by
  refine .advance_bind hat (by simp [ht]) fun _ st => .nested fun st => ?_
  refine .eat_bind (by decide) (by decide) fun found st => ?_
  split
  · exact .pure _
  refine (hg.expression _ st).bind fun first st => .eat_bind (by decide) (by decide) fun found st => ?_
  split
  · refine .expectIdent_bind fun var st => .expect_bind (by decide) (by decide) fun _ st => ?_
    refine (hg.expression _ st).bind fun seq st => .eat_bind (by decide) (by decide) fun found st => ?_
    split
    · refine (hg.expression _ st).map.bind fun filter st => ?_
      exact .expect_bind (by decide) (by decide) fun _ _ => .pure _
    · exact .expect_bind (by decide) (by decide) fun _ _ => .pure _
  · refine (Alike.furtherItemsUntil (hg.expression _)).bind fun items st => ?_
    exact .expect_bind (by decide) (by decide) fun _ _ => .pure _

theorem alike_dictEntry (hg : g.Agrees n g') : Alike n st (dictEntry g) (dictEntry g') := by
  have hpair (st : State) : Alike n st
      (do
        let key ← g.expression .lowest
        let _ ← expect .colon "after dict key"
        return DictEntry.pair key (← g.expression .lowest))
      (do
        let key ← g'.expression .lowest
        let _ ← expect .colon "after dict key"
        return DictEntry.pair key (← g'.expression .lowest)) := by
    refine (hg.expression _ st).bind fun key st => .expect_bind (by decide) (by decide) fun _ st => ?_
    exact (hg.expression _ st).bind fun value st => .pure _
  refine .atKind_bind (fun _ st _ _ => .nextKind_bind fun kind st _ => ?_)
    fun _ st _ _ => .nextKind_bind fun kind st _ => ?_
  · split
    · exact .expectIdent_bind fun _ _ => .pure _
    · exact .expectIdent_bind fun _ _ => .pure _
    · exact hpair st
  · exact hpair st

theorem alike_dict (hg : g.Agrees n g') (hat : At st t) (ht : t.kind = .hash) :
    Alike (n + 1) st (dict g) (dict g') := by
  refine .advance_bind hat (by simp [ht]) fun _ st => ?_
  refine .expect_bind (by decide) (by decide) fun _ st => .nested fun st => ?_
  refine (Alike.itemsUntil fun st => alike_dictEntry hg).bind fun entries st => ?_
  exact .expect_bind (by decide) (by decide) fun _ _ => .pure _

/-! ### Blocks -/

theorem alike_listedStatement (hg : g.Agrees n g') (stop : Token.Kind) :
    Alike n st (listedStatement g stop) (listedStatement g' stop) := by
  refine .behind reads_skipSeparators fun _ st => ?_
  refine .atKind_bind (fun _ _ _ _ => .pure none) fun _ st _ _ => ?_
  refine .atKind_bind (fun _ _ _ _ => .pure none) fun _ st _ _ => .get_bind ?_
  refine (hg.statement st).observing.bind ?_
  rintro (e | s) st
  · refine .behind (Reads.record e) fun _ st => .get_bind ?_
    split
    · exact .behind Reads.advance fun _ _ => .pure _
    · refine .atKind_bind (fun _ _ _ _ => .pure _) fun _ st _ _ => ?_
      exact .behind Reads.advance fun _ _ => .pure _
  · exact .pure _

theorem alike_statementsUntil (hg : g.Agrees n g') (stop : Token.Kind) :
    Alike n st (statementsUntil g stop) (statementsUntil g' stop) :=
  (Alike.many fun _ => alike_listedStatement hg stop).bind fun _ _ => .pure _

theorem alike_block (hg : g.Agrees n g') : Alike (n + 1) st (block g) (block g') := by
  refine .expect_bind_succ (by decide) fun l st => .asStatements fun st => ?_
  refine (alike_statementsUntil hg _).bind fun ss st => ?_
  refine .behind (Reads.expect (by decide) (by decide)).observing ?_
  rintro (e | r) st
  · exact .behind (Reads.record e) fun _ st => .pure _
  · exact .pure _

theorem alike_body (hg : g.Agrees n g') : Alike (n + 1) st (body g) (body g') := by
  refine .get_bind ?_
  split
  · exact .skipNewlines_bind fun st => alike_block hg
  · exact alike_block hg

/-! ### Functions and `match` -/

theorem alike_funcLiteral (hg : g.Agrees n g') (hat : At st t) (ht : t.kind = .kwFunc) :
    Alike (n + 1) st (funcLiteral g) (funcLiteral g') := by
  refine .advance_bind hat (by simp [ht]) fun _ st => .behind reads_params fun names st => ?_
  exact (alike_block hg).pred.bind fun body st => .pure _

theorem alike_caseValues (hg : g.Agrees n g') : Alike n st (caseValues g) (caseValues g') :=
  .commaSeparated (hg.expression _)

theorem alike_arms {α β : Type} {construct : String} {caseArm caseArm' : Token → Parse α}
    {defaultArm defaultArm' : Parse β} (hcase : ∀ word st, Alike n st (caseArm word) (caseArm' word))
    (hdefault : ∀ st, Alike n st defaultArm defaultArm') :
    Alike n st (arms construct caseArm defaultArm) (arms construct caseArm' defaultArm') := by
  refine (Alike.many fun st => ?_).bind fun found st => ?_
  · refine .behind reads_skipSeparators fun _ st => .currentKind_bind fun t st hat => ?_
    split
    · exact .pure none
    · refine .behind Reads.advance fun word st => ?_
      exact (hcase word st).bind fun a st => .pure _
    · refine .behind Reads.advance fun word st => ?_
      exact (hdefault st).bind fun b st => .pure _
    · exact .current_bind fun t st _ => .fail _ t
  · exact .expect_bind (by decide) (by decide) fun _ _ => .pure _

theorem alike_matchResult (hg : g.Agrees n g') : Alike n st (matchResult g) (matchResult g') := by
  refine .expect_bind (by decide) (by decide) fun _ st => .behind reads_skipSeparators fun _ st => ?_
  refine (hg.expression _ st).bind fun e st => .behind reads_skipSeparators fun _ st => ?_
  exact .expect_bind (by decide) (by decide) fun _ _ => .pure _

theorem alike_select (hg : g.Agrees n g') (hat : At st t) (ht : t.kind = .kwMatch) :
    Alike (n + 1) st (select g) (select g') := by
  refine .advance_bind hat (by simp [ht]) fun _ st => .expect_bind (by decide) (by decide) fun _ st => ?_
  refine Alike.bind (.nested fun st => ?_) fun value st => ?_
  · refine (hg.expression _ st).bind fun e st => ?_
    exact .expect_bind (by decide) (by decide) fun _ _ => .pure _
  refine .expect_bind (by decide) (by decide) fun _ st => .asStatements fun st => ?_
  refine (alike_arms (fun word st => ?_) fun st => alike_matchResult hg).bind fun arms st => .pure _
  refine (alike_caseValues hg).bind fun values st => ?_
  exact (alike_matchResult hg).bind fun e st => .pure _

theorem alike_prefixed (hg : g.Agrees n g') (hat : At st t) (heof : t.kind ≠ .eof) :
    Alike (n + 1) st
      (do
        let _ ← advance
        let value ← g.expression .prefixOp
        match PrefixOp.ofKind? t.kind with
        | some op => return Expr.unary t.pos op value
        | none => fail .strayPrefixOp t)
      (do
        let _ ← advance
        let value ← g'.expression .prefixOp
        match PrefixOp.ofKind? t.kind with
        | some op => return Expr.unary t.pos op value
        | none => fail .strayPrefixOp t) := by
  refine .advance_bind hat heof fun _ st => (hg.expression _ st).bind fun value st => ?_
  split
  · exact .pure _
  · exact .fail _ t

theorem alike_operand (hg : g.Agrees n g') : Alike (n + 1) st (operand g) (operand g') := by
  refine .current_bind fun t st hat => ?_
  split
  next ht => exact .advance_bind hat (by simp [ht]) fun _ st => .pure _
  next ht => exact .advance_bind hat (by simp [ht]) fun _ st => .of_reads (reads_number (.inl ht))
  next ht => exact .advance_bind hat (by simp [ht]) fun _ st => .of_reads (reads_number (.inr ht))
  next ht => exact .advance_bind hat (by simp [ht]) fun _ st => .pure _
  next ht => exact .advance_bind hat (by simp [ht]) fun hweight st => alike_template hg hweight ht none
  next ht => exact .advance_bind hat (by simp [ht]) fun _ st => .pure _
  next ht => exact .advance_bind hat (by simp [ht]) fun _ st => .pure _
  next ht => exact .advance_bind hat (by simp [ht]) fun _ st => .pure _
  next ht => exact alike_prefixed hg hat (by simp [ht])
  next ht => exact alike_prefixed hg hat (by simp [ht])
  next ht => exact alike_prefixed hg hat (by simp [ht])
  next ht => exact alike_prefixed hg hat (by simp [ht])
  next ht => exact alike_grouped hg hat ht
  next ht => exact alike_list hg hat ht
  next ht => exact alike_dict hg hat ht
  next ht => exact alike_funcLiteral hg hat ht
  next ht => exact alike_select hg hat ht
  next => exact .fail _ t
  next => exact .fail _ t
  next => exact .fail _ t

/-! ### Operators -/

theorem alike_argument (hg : g.Agrees n g') : Alike n st (argument g) (argument g') := by
  refine .atKind_bind (fun _ st _ _ => ?_) fun _ st _ _ => hg.expression _ st
  refine .behind Reads.advance fun dots st => ?_
  exact (hg.expression _ st).bind fun e st => .pure _

theorem ahead_call (hg : g.Agrees n g') (callee : Expr) (hat : At st t) (ht : t.kind = .lparen) :
    Ahead (n + 1) st (call g callee) (call g' callee) := by
  refine Alike.ahead_advance_bind hat (by simp [ht]) fun _ st => .nested fun st => ?_
  refine (Alike.itemsUntil fun st => alike_argument hg).bind fun args st => ?_
  exact .expect_bind (by decide) (by decide) fun _ _ => .pure _

theorem alike_sliceTail (hg : g.Agrees n g') (opening : Position) (object : Expr)
    (low : Option Expr) : Alike n st (sliceTail g opening object low) (sliceTail g' opening object low) := by
  have hstep (high : Option Expr) (st : State) : Alike n st
      (do
        let step ← if ← eat .colon then
            if ← atKind .rbracket then pure none else some <$> g.expression .lowest
          else pure none
        let _ ← expect .rbracket "to close slice"
        return Expr.slice opening object low high step)
      (do
        let step ← if ← eat .colon then
            if ← atKind .rbracket then pure none else some <$> g'.expression .lowest
          else pure none
        let _ ← expect .rbracket "to close slice"
        return Expr.slice opening object low high step) := by
    refine .eat_bind (by decide) (by decide) fun found st => ?_
    split
    · refine .atKind_bind (fun _ st _ _ => ?_) fun _ st _ _ => ?_
      · exact .expect_bind (by decide) (by decide) fun _ _ => .pure _
      · refine (hg.expression _ st).map.bind fun step st => ?_
        exact .expect_bind (by decide) (by decide) fun _ _ => .pure _
    · exact .expect_bind (by decide) (by decide) fun _ _ => .pure _
  refine .currentKind_bind fun t st _ => ?_
  split
  · exact hstep none st
  · exact hstep none st
  · exact (hg.expression _ st).map.bind fun high st => hstep high st

theorem ahead_index (hg : g.Agrees n g') (object : Expr) (hat : At st t) (ht : t.kind = .lbracket) :
    Ahead (n + 1) st (index g object) (index g' object) := by
  refine Alike.ahead_advance_bind hat (by simp [ht]) fun _ st => .nested fun st => ?_
  refine .eat_bind (by decide) (by decide) fun found st => ?_
  split
  · exact alike_sliceTail hg _ object none
  refine (hg.expression _ st).bind fun low st => .eat_bind (by decide) (by decide) fun found st => ?_
  split
  · exact alike_sliceTail hg _ object (some low)
  · exact .expect_bind (by decide) (by decide) fun _ _ => .pure _

theorem ahead_member (object : Expr) (hat : At st t) (ht : t.kind = .dot) :
    Ahead (n + 1) st (member object) (member object) := by
  refine Alike.ahead_advance_bind hat (by simp [ht]) fun _ st => .current_bind fun name st _ => ?_
  split
  · exact .behind Reads.advance fun _ _ => .pure _
  · exact .fail _ name

/-- An operator is read, or there is an error. -/
theorem ahead_operation (hg : g.Agrees n g') (left : Expr) (strength : Precedence) :
    Ahead (n + 1) st (operation g left strength) (operation g' left strength) := by
  have hfail (cause : Cause) (t : Token) (st : State) :
      Ahead (n + 1) st (fail cause t : Parse Expr) (fail cause t) :=
    fun _ => ⟨rfl, [], .refl st, fun _ => ⟨_, rfl⟩⟩
  refine Ahead.current_bind fun t st hat => ?_
  split
  next op hop =>
    split
    · exact hfail _ t st
    refine Alike.ahead_advance_bind hat (fun h => ?_) fun _ st => ?_
    · simp [h, AssignOp.ofKind?] at hop
    · exact (hg.expression _ st).bind fun value st => .pure _
  next =>
    split
    next ht =>
      refine Alike.ahead_advance_bind hat (by simp [ht]) fun _ st => ?_
      refine (hg.expression _ st).bind fun thenE st => ?_
      refine .expect_bind (by decide) (by decide) fun _ st => ?_
      exact (hg.expression _ st).bind fun elseE st => .pure _
    next ht =>
      refine Alike.ahead_advance_bind hat (by simp [ht]) fun _ st => ?_
      refine (hg.expression _ st).bind fun cond st => ?_
      refine .expect_bind (by decide) (by decide) fun _ st => ?_
      exact (hg.expression _ st).bind fun elseE st => .pure _
    next ht => exact ahead_call hg left hat ht
    next ht => exact ahead_index hg left hat ht
    next ht => exact ahead_member left hat ht
    next ht =>
      exact Alike.ahead_advance_bind hat (by simp [ht]) fun hweight st =>
        alike_template hg hweight ht (some left)
    next =>
      split
      next op hop =>
        refine Alike.ahead_advance_bind hat (fun h => ?_) fun _ st => ?_
        · simp [h, InfixOp.ofKind?] at hop
        · exact (hg.expression _ st).bind fun right st => .pure _
      next => exact hfail _ t st

theorem alike_operations (hg : g.Agrees n g') (level : Precedence) (limit : Nat) (left : Expr) :
    Alike (n + 1) st (operations g level limit left) (operations g' level limit left) := by
  induction limit generalizing st left with
  | zero => exact .pure left
  | succ limit ih =>
    refine .behind (reads_continuation level) ?_
    rintro (_ | strength) st
    · exact .pure left
    · exact (ahead_operation hg left strength).alike.bind fun e st => ih e

theorem alike_expression (hg : g.Agrees n g') (level : Precedence) :
    Alike (n + 1) st (expression g level) (expression g' level) :=
  (alike_operand hg).bind fun left _ => .get_bind (alike_operations hg level _ left)

/-! ### Simple statements -/

theorem alike_simpleStatement (hg : g.Agrees n g') :
    Alike (n + 1) st (simpleStatement g) (simpleStatement g') :=
  .current_bind fun _ _ _ => (alike_expression hg _).bind fun _ _ => .pure _

/-- A destructuring assignment goes back to where it started if it is none, so what it does is
    compared as a whole. -/
theorem alike_destructuring (hg : g.Agrees n g') (hat : At st t) (ht : t.kind = .lparen) :
    Alike (n + 1) st (destructuring g) (destructuring g') := by
  intro hst
  have hheader := reads_destructuringHeader hat ht
  obtain ⟨used, hmoves⟩ := hheader.moves
  rw [destructuring_eq, destructuring_eq, run_bind_ok (run_get st), run_bind_ok (run_get st)]
  rcases hrun : run destructuringHeader st with ⟨e | ⟨opening, list, kind⟩, st'⟩
  · rw [hrun] at hmoves
    rw [run_bind_error hrun, run_bind_error hrun]
    exact ⟨rfl, used, hmoves⟩
  rw [hrun] at hmoves
  rw [run_bind_ok hrun, run_bind_ok hrun]
  obtain ⟨_, _, hread⟩ := hheader.read hrun
  obtain ⟨_, u, -, -, hu, hkind, -⟩ := hread False (by simp)
  obtain rfl : kind = u.kind := hkind
  -- if it is none after all, the tokens are those from before
  have hback : Moves st [] { st' with tokens := st.tokens } :=
    ⟨rfl, by simp, hmoves.nesting, hmoves.diagnostics⟩
  unfold finishDestructuring
  rcases list with _ | list
  · exact ⟨rfl, [], hback⟩
  dsimp only
  rcases hop : destructuringOp? u.kind with _ | op
  · exact ⟨rfl, [], hback⟩
  dsimp only
  by_cases htuple : list.isTuple
  · rw [if_pos htuple, if_pos htuple]
    rcases hstars : list.stars[1]? with _ | second
    · have hvalue : Alike (n + 1) st'
          (advance >>= fun _ => g.expression .lowest >>= fun value =>
            pure (some (Stmt.destructure opening.pos list.targets op value)))
          (advance >>= fun _ => g'.expression .lowest >>= fun value =>
            pure (some (Stmt.destructure opening.pos list.targets op value))) := by
        refine .advance_bind hu (fun h => ?_) fun _ st => ?_
        · simp [h, destructuringOp?, AssignOp.ofKind?] at hop
        · exact (hg.expression _ st).bind fun value st => .pure _
      obtain ⟨hsame, vs, hmoves'⟩ := hvalue (hst.moves hmoves)
      exact ⟨hsame, used ++ vs, hmoves.trans hmoves'⟩
    · exact ⟨rfl, used, hmoves⟩
  · rw [if_neg htuple, if_neg htuple]
    exact ⟨rfl, [], hback⟩

/-! ### Conditions and loops -/

theorem alike_condition (hg : g.Agrees n g') (word : String) :
    Alike n st (condition g word) (condition g' word) := by
  refine .expect_bind (by decide) (by decide) fun _ st => .nested fun st => ?_
  refine (hg.expression _ st).bind fun test st => ?_
  exact .expect_bind (by decide) (by decide) fun _ _ => .pure _

theorem alike_branch (hg : g.Agrees n g') (after : String) :
    Alike n st (branch g after) (branch g' after) := by
  refine .skipNewlines_bind fun st => .current_bind fun t st _ => ?_
  split
  · exact .fail _ t
  · exact .fail _ t
  · exact .fail _ t
  · exact .fail _ t
  · exact hg.statement st

theorem alike_cond (hg : g.Agrees n g') (hat : At st t) (ht : t.kind = .kwIf) :
    Alike (n + 1) st (cond g) (cond g') := by
  refine .advance_bind hat (by simp [ht]) fun _ st => (alike_condition hg _).bind fun test st => ?_
  refine (alike_branch hg _).bind fun thenS st => .get_bind ?_
  split
  · refine .skipNewlines_bind fun st => .behind Reads.advance fun _ st => ?_
    exact (alike_branch hg _).bind fun elseS st => .pure _
  · exact .pure _

theorem alike_whileLoop (hg : g.Agrees n g') (hat : At st t) (ht : t.kind = .kwWhile) :
    Alike (n + 1) st (whileLoop g) (whileLoop g') := by
  refine .advance_bind hat (by simp [ht]) fun _ st => (alike_condition hg _).bind fun test st => ?_
  exact (alike_body hg).pred.bind fun body st => .pure _

theorem alike_finishForIn (hg : g.Agrees n g') (pos : Position) (targets : List Ident) (seq : Expr) :
    Alike n st (finishForIn g pos targets seq) (finishForIn g' pos targets seq) :=
  (alike_body hg).pred.bind fun _ _ => .pure _

/-- A clause of a header that may be left out. -/
theorem alike_clause {α β : Type} {kind : Token.Kind} {p p' : Parse α} {f f' : Option α → Parse β}
    (hp : ∀ st, Alike n st p p') (hf : ∀ part st, Alike n st (f part) (f' part)) :
    Alike n st
      (do
        if ← atKind kind then
          let part ← pure none
          f part
        else
          let part ← some <$> p
          f part)
      (do
        if ← atKind kind then
          let part ← pure none
          f' part
        else
          let part ← some <$> p'
          f' part) := by
  refine .atKind_bind (fun _ st _ _ => ?_) fun _ st _ _ => ?_
  · simpa using hf none st
  · exact (hp st).map.bind hf

theorem alike_clauses (hg : g.Agrees n g') (pos : Position) :
    Alike n st (clauses g pos) (clauses g' pos) := by
  refine .expect_bind (by decide) (by decide) fun _ st => Alike.bind (.nested fun st => ?_) fun found st => ?_
  · refine alike_clause (fun st => (alike_simpleStatement hg).pred) fun init st => ?_
    refine .expect_bind (by decide) (by decide) fun _ st => alike_clause (hg.expression _) fun test st => ?_
    refine .expect_bind (by decide) (by decide) fun _ st => ?_
    refine alike_clause (fun st => (alike_simpleStatement hg).pred) fun post st => ?_
    exact .expect_bind (by decide) (by decide) fun _ _ => .pure _
  · exact (alike_body hg).pred.bind fun body st => .pure _

theorem alike_forSequence (hg : g.Agrees n g') : Alike n st (forSequence g) (forSequence g') :=
  .expect_bind (by decide) (by decide) fun _ st => hg.expression _ st

theorem alike_forLoop (hg : g.Agrees n g') (hat : At st t) (ht : t.kind = .kwFor) :
    Alike (n + 1) st (forLoop g) (forLoop g') := by
  have htargets (st : State) : Alike n st forTargets forTargets := .of_reads reads_forTargets
  have hcheck (pos : Position) (targets : List Ident) (st : State) :
      Alike n st (checkTargets pos targets) (checkTargets pos targets) :=
    .of_reads (reads_checkTargets pos targets)
  refine .advance_bind hat (by simp [ht]) fun _ st => .get_bind ?_
  split
  · exact alike_clauses hg _
  · refine .expectIdent_bind fun key st => (alike_forSequence hg).bind fun seq st => ?_
    exact alike_finishForIn hg _ _ seq
  · refine .expect_bind (by decide) (by decide) fun _ st => Alike.bind (.nested fun st => ?_) fun found st => ?_
    · refine .expectIdent_bind fun key st => (alike_forSequence hg).bind fun seq st => ?_
      exact .expect_bind (by decide) (by decide) fun _ _ => .pure _
    · exact alike_finishForIn hg _ _ _
  · refine .expect_bind (by decide) (by decide) fun _ st => Alike.bind (.nested fun st => ?_) fun found st => ?_
    · refine .expect_bind (by decide) (by decide) fun _ st => (htargets st).bind fun targets st => ?_
      refine (alike_forSequence hg).bind fun seq st => ?_
      exact .expect_bind (by decide) (by decide) fun _ _ => .pure _
    · exact (hcheck _ _ st).bind fun _ st => alike_finishForIn hg _ _ _
  · refine .expect_bind (by decide) (by decide) fun _ st => Alike.bind (.nested htargets) fun targets st => ?_
    refine (hcheck _ _ st).bind fun _ st => (alike_forSequence hg).bind fun seq st => ?_
    exact alike_finishForIn hg _ _ seq

/-! ### Other statements -/

theorem alike_switch (hg : g.Agrees n g') (hat : At st t) (ht : t.kind = .kwSwitch) :
    Alike (n + 1) st (switch g) (switch g') := by
  refine .advance_bind hat (by simp [ht]) fun _ st => (alike_condition hg _).bind fun value st => ?_
  refine .skipNewlines_bind fun st => .expect_bind (by decide) (by decide) fun _ st => ?_
  refine .asStatements fun st => ?_
  refine (alike_arms (fun word st => ?_) fun st => (alike_body hg).pred).bind fun arms st => .pure _
  refine (alike_caseValues hg).bind fun values st => ?_
  exact (alike_body hg).pred.bind fun body st => .pure _

theorem alike_handler (hg : g.Agrees n g') : Alike n st (handler g) (handler g') := by
  refine .get_bind ?_
  split
  · exact .pure none
  refine .skipNewlines_bind fun st => .behind Reads.advance fun word st => ?_
  refine .eat_bind (by decide) (by decide) fun found st => ?_
  split
  · refine Alike.bind (.nested fun st => ?_) fun name st => ?_
    · exact .expectIdent_bind fun _ st => .expect_bind (by decide) (by decide) fun _ _ => .pure _
    · exact (alike_body hg).pred.bind fun body st => .pure _
  · exact (alike_body hg).pred.bind fun body st => .pure _

theorem alike_finalizer (hg : g.Agrees n g') : Alike n st (finalizer g) (finalizer g') := by
  refine .get_bind ?_
  split
  · exact .pure none
  refine .skipNewlines_bind fun st => .behind Reads.advance fun word st => ?_
  exact (alike_body hg).pred.bind fun body st => .pure _

theorem alike_tryCatch (hg : g.Agrees n g') (hat : At st t) (ht : t.kind = .kwTry) :
    Alike (n + 1) st (tryCatch g) (tryCatch g') := by
  refine .advance_bind hat (by simp [ht]) fun _ st => (alike_body hg).pred.bind fun body st => ?_
  refine (alike_handler hg).bind fun handler st => (alike_finalizer hg).bind fun finalizer st => ?_
  split
  · exact .current_bind fun t st _ => .fail _ t
  · exact .pure _

theorem alike_funcStatement (hg : g.Agrees n g') (hat : At st t) (ht : t.kind = .kwFunc) :
    Alike (n + 1) st (funcStatement g) (funcStatement g') := by
  refine .advance_bind hat (by simp [ht]) fun _ st => .expectIdent_bind fun name st => ?_
  refine .behind reads_params fun names st => ?_
  exact (alike_body hg).pred.bind fun body st => .pure _

theorem alike_ret (hg : g.Agrees n g') (hat : At st t) (ht : t.kind = .kwReturn) :
    Alike (n + 1) st (ret g) (ret g') := by
  refine .advance_bind hat (by simp [ht]) fun _ st => .currentKind_bind fun u st _ => ?_
  split
  · exact .pure _
  · exact .pure _
  · exact .pure _
  · exact .pure _
  · exact .pure _
  · exact (Alike.commaSeparated (hg.expression _)).bind fun values st => .pure _

theorem alike_raise (hg : g.Agrees n g') (hat : At st t) (ht : t.kind = .kwThrow) :
    Alike (n + 1) st (raise g) (raise g') :=
  .advance_bind hat (by simp [ht]) fun _ st => (hg.expression _ st).bind fun _ _ => .pure _

theorem alike_defer (hg : g.Agrees n g') (hat : At st t) (ht : t.kind = .kwDefer) :
    Alike (n + 1) st (defer g) (defer g') := by
  refine .advance_bind hat (by simp [ht]) fun _ st => (hg.expression _ st).bind fun call st => ?_
  split
  · exact .pure _
  · exact .fail _ t

theorem alike_exported (hg : g.Agrees n g') (hat : At st t) (ht : t.kind = .kwExport) :
    Alike (n + 1) st (exported g) (exported g') := by
  refine .advance_bind hat (by simp [ht]) fun _ st => .current_bind fun next st _ => ?_
  split
  · exact .fail _ next
  · exact .fail _ next
  · exact .fail _ next
  · refine (hg.statement st).bind fun s st => ?_
    split
    · exact .pure _
    · exact .fail _ t

theorem alike_statement (hg : g.Agrees n g') : Alike (n + 1) st (statement g) (statement g') := by
  have hword {make : Position → Stmt} {st : State} :
      Alike (n + 1) st (advance >>= fun t => pure (make t.pos)) (advance >>= fun t => pure (make t.pos)) :=
    .behind Reads.advance fun _ _ => .pure _
  refine .currentKind_bind fun t st hat => ?_
  split
  next ht =>
    refine .nextKind_bind fun kind st hkeep => ?_
    split
    · exact alike_funcStatement hg (hkeep t hat) ht
    · exact alike_simpleStatement hg
  next ht => exact alike_ret hg hat ht
  next => exact hword
  next => exact hword
  next => exact hword
  next ht => exact alike_cond hg hat ht
  next ht => exact alike_whileLoop hg hat ht
  next ht => exact alike_forLoop hg hat ht
  next ht => exact alike_switch hg hat ht
  next ht => exact alike_tryCatch hg hat ht
  next ht => exact alike_raise hg hat ht
  next ht => exact alike_defer hg hat ht
  next ht => exact .of_reads (reads_importAs hat ht)
  next ht => exact .of_reads (reads_importFrom hat ht)
  next ht => exact alike_exported hg hat ht
  next => exact (alike_block hg).bind fun body st => .pure _
  next ht =>
    refine (alike_destructuring hg hat ht).bind ?_
    rintro (_ | s) st
    · exact alike_simpleStatement hg
    · exact .pure s
  next => exact alike_simpleStatement hg

end Rules

/-! ## Levels -/

/-- Grammars with enough levels do the same, however many levels they have. -/
theorem Grammar.agrees_ofDepth (n more : Nat) :
    (Grammar.ofDepth n).Agrees n (Grammar.ofDepth (n + more)) := by
  induction n with
  | zero =>
    -- a state that fits has an end, which weighs something
    constructor
    · exact fun level st hst => absurd hst.pos (Nat.lt_irrefl 0)
    · exact fun st hst => absurd hst.pos (Nat.lt_irrefl 0)
  | succ n ih =>
    rw [Nat.add_right_comm]
    constructor
    · exact fun level st => alike_expression ih level
    · exact fun st => alike_statement ih

end Welle.Parser
