import Mathlib.Data.List.DropRight
import Welle.Proofs.Parser.Run

set_option autoImplicit false

/-! # What a parser reads

`Moves st used st'` says that a parser went from `st` to `st'` over the tokens `used`: none of them
ends the text, the brackets around the cursor are the same, and nothing that was reported is lost.

`Reads st p R` says that `p`, run on `st`, moves in either case, and that the significant tokens it
has read stand in the relation `R` to the value it gives. The relation has a switch: at `True` it
describes what is read where nothing is reported at all, at `False` what is read in any case. The
rules below follow the parts that parsers are made of, so that a proof about a parser has the shape
of the parser. -/

namespace Welle.Parser

/-! ## Moves -/

/-- The tokens that count everywhere: all but line feeds. -/
def significant (tokens : List Token) : List Token := tokens.filter (·.kind ≠ .newline)

@[simp] theorem significant_nil : significant [] = [] := rfl

@[simp] theorem significant_append (ts us : List Token) :
    significant (ts ++ us) = significant ts ++ significant us := List.filter_append ..

theorem significant_singleton {t : Token} (h : t.kind ≠ .newline) : significant [t] = [t] := by
  simp [significant, h]

theorem significant_newlines {ts : List Token} (h : ∀ t ∈ ts, t.kind = .newline) :
    significant ts = [] := by
  simpa [significant] using h

/-- The way from one state to another over some tokens. -/
structure Moves (st : State) (used : List Token) (st' : State) : Prop where
  tokens : st.tokens = used ++ st'.tokens
  inside : ∀ t ∈ used, t.kind ≠ .eof
  nesting : st'.nesting = st.nesting
  diagnostics : st.diagnostics <+: st'.diagnostics

namespace Moves

variable {st st' st'' : State} {us vs : List Token}

theorem refl (st : State) : Moves st [] st := ⟨rfl, by simp, rfl, List.prefix_rfl⟩

theorem trans (h : Moves st us st') (h' : Moves st' vs st'') : Moves st (us ++ vs) st'' where
  tokens := by rw [h.tokens, h'.tokens, List.append_assoc]
  inside := by
    intro t ht
    rcases List.mem_append.1 ht with ht | ht
    · exact h.inside t ht
    · exact h'.inside t ht
  nesting := h'.nesting.trans h.nesting
  diagnostics := h.diagnostics.trans h'.diagnostics

/-- Nothing was reported before a state in which nothing is reported. -/
theorem clean (h : Moves st us st') (hclean : st'.diagnostics = []) : st.diagnostics = [] :=
  List.prefix_nil.1 (hclean ▸ h.diagnostics)

/-- Dropping tokens at the cursor that do not end the text. -/
theorem dropWhile (st : State) (p : Token → Bool) (hp : ∀ t, p t = true → t.kind ≠ .eof) :
    Moves st (st.tokens.takeWhile p) { st with tokens := st.tokens.dropWhile p } where
  tokens := List.takeWhile_append_dropWhile.symm
  inside := fun t ht => hp t (List.mem_takeWhile_imp ht)
  nesting := rfl
  diagnostics := List.prefix_rfl

theorem dropNewlines (st : State) :
    Moves st (st.tokens.takeWhile (·.kind = .newline)) st.dropNewlines := by
  refine dropWhile st _ fun t ht heof => ?_
  simp [heof] at ht

/-- Settling on a significant token passes over line feeds only. -/
theorem settle (st : State) : ∃ used, Moves st used st.settle ∧ significant used = [] := by
  unfold State.settle
  split
  · refine ⟨_, dropNewlines st, significant_newlines fun t ht => ?_⟩
    simpa using List.mem_takeWhile_imp ht
  · exact ⟨[], refl st, rfl⟩

end Moves

/-! ## The token at the cursor -/

/-- The cursor is on the token `t`. -/
structure At (st : State) (t : Token) : Prop where
  settled : st.settle = st
  current : st.current = t

theorem State.settle_settle (st : State) : st.settle.settle = st.settle := by
  unfold State.settle
  split
  next h =>
    rw [if_pos (show 0 < st.dropNewlines.nesting from h)]
    simp only [State.dropNewlines, List.dropWhile_idempotent]
  next h => rfl

theorem At.ofSettle (st : State) : At st.settle st.settle.current := ⟨st.settle_settle, rfl⟩

/-- The cursor is on the first token if that is no line feed. -/
theorem At.cons {t : Token} (ht : t.kind ≠ .newline) (ts : List Token) (n : Nat)
    (ds : List Diagnostic) : At ⟨t :: ts, n, ds⟩ t where
  settled := by
    unfold State.settle
    split
    · simp [State.dropNewlines, ht]
    · rfl
  current := rfl

/-- A token that does not end the text is the first of those that are left. -/
theorem At.tokens {st : State} {t : Token} (h : At st t) (heof : t.kind ≠ .eof) :
    st.tokens = t :: st.dropToken.tokens := by
  have hcurrent := h.current
  unfold State.current at hcurrent
  cases htokens : st.tokens with
  | nil => simp [htokens, Token.endOfText] at hcurrent; simp [← hcurrent] at heof
  | cons u us => simp_all [State.dropToken]

theorem At.moves {st : State} {t : Token} (h : At st t) (heof : t.kind ≠ .eof) :
    Moves st [t] st.dropToken where
  tokens := h.tokens heof
  inside := by simpa using heof
  nesting := rfl
  diagnostics := List.prefix_rfl

theorem run_advance {st : State} {t : Token} (h : At st t) (heof : t.kind ≠ .eof) :
    run advance st = (.ok t, st.dropToken) := by
  unfold advance
  rw [run_bind, run_current, h.settled, h.current]
  simp only [heof, ne_eq, not_false_eq_true, if_true]
  rfl

/-! ## The judgement -/

/-- What a parser has read: the tokens it went over and the relation of the significant ones to its
    value, for every reading that reports nothing where it must not. -/
def Read {α : Type} (R : Prop → List Token → α → State → Prop) (st : State) (a : α) (st' : State) :
    Prop :=
  ∃ used, Moves st used st' ∧ ∀ S, (S → st'.diagnostics = []) → R S (significant used) a st'

/-- A parser moves on from `st`, and what it reads stands in the relation `R` to its value. -/
def Reads {α : Type} (st : State) (p : Parse α) (R : Prop → List Token → α → State → Prop) : Prop :=
  match run p st with
  | (.ok a, st') => Read R st a st'
  | (.error _, st') => ∃ used, Moves st used st'

namespace Reads

variable {α β : Type} {st : State} {p : Parse α} {f : α → Parse β}
variable {R : Prop → List Token → α → State → Prop} {T : Prop → List Token → β → State → Prop}

/-- The outcomes of a parser one by one. -/
theorem intro (hok : ∀ a st', run p st = (.ok a, st') → Read R st a st')
    (herror : ∀ e st', run p st = (.error e, st') → ∃ used, Moves st used st') : Reads st p R := by
  unfold Reads
  rcases h : run p st with ⟨e | a, st'⟩
  · exact herror e st' h
  · exact hok a st' h

theorem read (h : Reads st p R) {a : α} {st' : State} (hrun : run p st = (.ok a, st')) :
    Read R st a st' := by
  unfold Reads at h
  rwa [hrun] at h

theorem moves (h : Reads st p R) : ∃ used, Moves st used (run p st).2 := by
  unfold Reads at h
  rcases hrun : run p st with ⟨e | a, st'⟩ <;> rw [hrun] at h
  · exact h
  · obtain ⟨used, hmoves, -⟩ := h
    exact ⟨used, hmoves⟩

theorem mono {R' : Prop → List Token → α → State → Prop} (h : Reads st p R)
    (himp : ∀ S us a st', R S us a st' → R' S us a st') : Reads st p R' := by
  refine intro (fun a st' hrun => ?_) (fun e st' hrun => ?_)
  · obtain ⟨used, hmoves, hR⟩ := h.read hrun
    exact ⟨used, hmoves, fun S hS => himp S _ a st' (hR S hS)⟩
  · simpa [hrun] using h.moves

theorem pure {a : α} (h : ∀ S, (S → st.diagnostics = []) → R S [] a st) :
    Reads st (Pure.pure a) R :=
  ⟨[], Moves.refl st, h⟩

/-- What a parser reads behind other tokens, seen from in front of them. -/
theorem behind {q : Parse β} {F : Prop → Prop} {st' : State} {used : List Token}
    (hmoves : Moves st used st') (hF : ∀ S, (S → st'.diagnostics = []) → F S)
    (h : Reads st' q fun S vs b st'' => F S → T S (significant used ++ vs) b st'') :
    match run q st' with
    | (.ok b, st'') => Read T st b st''
    | (.error _, st'') => ∃ used, Moves st used st'' := by
  unfold Reads at h
  split at h
  next b st'' hrun =>
    obtain ⟨vs, hmoves', hT⟩ := h
    refine ⟨used ++ vs, hmoves.trans hmoves', fun S hS => ?_⟩
    rw [significant_append]
    exact hT S hS (hF S fun h => hmoves'.clean (hS h))
  next e st'' hrun =>
    obtain ⟨vs, hmoves'⟩ := h
    exact ⟨used ++ vs, hmoves.trans hmoves'⟩

/-- Two parsers in a row, the second of which may go back behind the first one: what both read
    together counts. -/
theorem bind_back (hp : Reads st p R)
    (hf : ∀ a used st', Moves st used st' →
      (∀ S, (S → st'.diagnostics = []) → R S (significant used) a st') →
      match run (f a) st' with
      | (.ok b, st'') => Read T st b st''
      | (.error _, st'') => ∃ used, Moves st used st'') :
    Reads st (p >>= f) T := by
  unfold Reads
  rcases hrun : run p st with ⟨e | a, st'⟩
  · obtain ⟨used, hmoves⟩ := hp.moves
    rw [hrun] at hmoves
    rw [run_bind_error hrun]
    exact ⟨used, hmoves⟩
  · obtain ⟨used, hmoves, hR⟩ := hp.read hrun
    rw [run_bind_ok hrun]
    exact hf a used st' hmoves hR

/-- Two parsers in a row read what the first one reads and then what the second one reads. -/
theorem bind (hp : Reads st p R)
    (hf : ∀ a us st', R False us a st' →
      Reads st' (f a) fun S vs b st'' => R S us a st' → T S (us ++ vs) b st'') :
    Reads st (p >>= f) T :=
  hp.bind_back fun a _ st' hmoves hR => behind hmoves hR (hf a _ st' (hR False (by simp)))

theorem map {g : α → β} (h : Reads st p fun S us a st' => T S us (g a) st') :
    Reads st (g <$> p) T := by
  rw [map_eq_pure_bind]
  refine h.bind fun a us st' _ => pure fun S _ hT => ?_
  simpa using hT

/-- A failure reads nothing. -/
theorem throw (e : SyntaxError) : Reads st (throwThe SyntaxError e) R := ⟨[], Moves.refl st⟩

theorem fail (cause : Cause) (token : Token) : Reads st (Parser.fail cause token) R :=
  ⟨[], Moves.refl st⟩

/-- What an observed parser reads counts only where it succeeds. -/
theorem observing (h : Reads st p R) :
    Reads st (observing p) fun S us result st' => ∀ a, result = .ok a → R S us a st' := by
  refine intro (fun result st' hrun => ?_) (fun e st' hrun => ?_) <;>
    rw [run_observing] at hrun <;> cases hrun
  rcases hrun : run p st with ⟨e | a, st'⟩
  · obtain ⟨used, hmoves⟩ := h.moves
    rw [hrun] at hmoves
    exact ⟨used, hmoves, fun S _ a ha => by cases ha⟩
  · obtain ⟨used, hmoves, hR⟩ := h.read hrun
    refine ⟨used, hmoves, fun S hS b hb => ?_⟩
    obtain rfl := Except.ok.inj hb
    exact hR S hS

theorem liftExcept {result : Except SyntaxError α}
    (h : ∀ S a, (S → st.diagnostics = []) → result = .ok a → R S [] a st) :
    Reads st (liftExcept result) R := by
  cases result with
  | error e => exact throw e
  | ok a => exact pure fun S hS => h S a hS rfl

/-- Where something is recorded, something is reported. -/
theorem record (e : SyntaxError) : Reads st (Parser.record e) fun S us _ _ => us = [] ∧ ¬S := by
  refine ⟨[], ⟨rfl, by simp, rfl, List.prefix_append ..⟩, fun S hS => ⟨rfl, fun h => ?_⟩⟩
  simpa using hS h

/-! ## The cursor -/

/-- A step that passes over line feeds at most leaves what is read as it is. -/
theorem skip {st' : State} {a : α} (hrun : run p st = (.ok a, st'))
    (hskip : ∃ used, Moves st used st' ∧ significant used = []) (h : Reads st' (f a) T) :
    Reads st (p >>= f) T := by
  obtain ⟨used, hmoves, hused⟩ := hskip
  have hp : Reads st p fun _ us a' st'' => us = [] ∧ a' = a ∧ st'' = st' := by
    refine intro (fun b st'' h' => ?_) (fun e st'' h' => ?_) <;> rw [hrun] at h' <;> cases h'
    exact ⟨used, hmoves, fun _ _ => ⟨hused, rfl, rfl⟩⟩
  refine hp.bind ?_
  rintro _ _ _ ⟨rfl, rfl, rfl⟩
  exact h.mono fun S vs b st'' hT _ => hT

theorem get_bind {f : State → Parse β} (h : Reads st (f st) T) : Reads st (get >>= f) T :=
  skip (run_get st) ⟨[], Moves.refl st, rfl⟩ h

theorem current_bind {f : Token → Parse β} (h : ∀ t st', At st' t → Reads st' (f t) T) :
    Reads st (current >>= f) T :=
  skip (run_current st) (Moves.settle st) (h _ _ (.ofSettle st))

/-- Looking at a token a second time shows the same one. -/
theorem current_bind_of_at {t : Token} {f : Token → Parse β} (hat : At st t)
    (h : Reads st (f t) T) : Reads st (current >>= f) T := by
  refine skip (run_current st) (Moves.settle st) ?_
  rwa [hat.settled, hat.current]

theorem currentKind_bind {f : Token.Kind → Parse β}
    (h : ∀ t st', At st' t → Reads st' (f t.kind) T) : Reads st (currentKind >>= f) T :=
  skip (run_currentKind st) (Moves.settle st) (h _ _ (.ofSettle st))

theorem atKind_bind {kind : Token.Kind} {f : Bool → Parse β}
    (htrue : ∀ t st', At st' t → t.kind = kind → Reads st' (f true) T)
    (hfalse : ∀ t st', At st' t → t.kind ≠ kind → Reads st' (f false) T) :
    Reads st (atKind kind >>= f) T := by
  refine skip (run_atKind st kind) (Moves.settle st) ?_
  by_cases h : st.settle.current.kind = kind
  · rw [decide_eq_true h]
    exact htrue _ _ (.ofSettle st) h
  · rw [decide_eq_false h]
    exact hfalse _ _ (.ofSettle st) h

/-- A part that is left out in front of a token of a given kind. -/
theorem unless_bind {kind : Token.Kind} {f : Option α → Parse β}
    {O : Prop → List Token → Option α → Prop} (hnone : ∀ S, O S [] none)
    (hsome : ∀ st, Reads st p fun S us a _ => O S us (some a))
    (hf : ∀ part us st', Reads st' (f part) fun S vs b st'' => O S us part → T S (us ++ vs) b st'') :
    Reads st (do
      if ← atKind kind then
        let part ← Pure.pure none
        f part
      else
        let part ← some <$> p
        f part) T := by
  refine atKind_bind (fun _ st _ _ => ?_) (fun _ st _ _ => ?_)
  · simp only [if_true, pure_bind]
    exact (hf none [] st).mono fun S vs b st'' h => h (hnone S)
  · exact ((hsome st).map).bind fun part us st' _ => hf part us st'

theorem nextKind_bind {f : Token.Kind → Parse β}
    (h : ∀ kind st', (∀ t, At st t → At st' t) → Reads st' (f kind) T) :
    Reads st (nextKind >>= f) T := by
  obtain ⟨kind, hrun⟩ : ∃ kind, run nextKind st = (.ok kind, st.settle) := ⟨_, rfl⟩
  refine skip hrun (Moves.settle st) (h _ _ fun t ht => ?_)
  rw [ht.settled]
  exact ht

theorem skipNewlines_bind {f : Unit → Parse β} (h : Reads st.dropNewlines (f ()) T) :
    Reads st (skipNewlines >>= f) T := by
  refine skip (run_skipNewlines st) ⟨_, Moves.dropNewlines st, significant_newlines fun t ht => ?_⟩ h
  simpa using List.mem_takeWhile_imp ht

theorem advance_bind {t : Token} {f : Token → Parse β} (hat : At st t) (heof : t.kind ≠ .eof)
    (hnewline : t.kind ≠ .newline)
    (h : ∀ st', Reads st' (f t) fun S vs b st'' => T S (t :: vs) b st'') :
    Reads st (advance >>= f) T := by
  have hp : Reads st advance fun _ us a st' => us = [t] ∧ a = t ∧ st' = st.dropToken := by
    refine intro (fun b st'' h' => ?_) (fun e st'' h' => ?_) <;> rw [run_advance hat heof] at h' <;>
      cases h'
    exact ⟨[t], hat.moves heof, fun _ _ => ⟨significant_singleton hnewline, rfl, rfl⟩⟩
  refine hp.bind ?_
  rintro _ _ _ ⟨rfl, rfl, rfl⟩
  exact (h _).mono fun S vs b st'' hT _ => hT

/-- Moving on by whatever token there is. -/
theorem advance : Reads st advance fun _ us t _ =>
    t.kind ≠ .eof → t.kind ≠ .newline → us = [t] := by
  unfold Parser.advance
  refine current_bind fun t st' hat => ?_
  by_cases heof : t.kind = .eof
  · simp only [heof, ne_eq, not_true_eq_false, if_false]
    exact pure fun _ _ h => absurd heof h
  · simp only [heof, ne_eq, not_false_eq_true, if_true]
    exact ⟨[t], hat.moves heof, fun _ _ _ h => significant_singleton h⟩

theorem eat_bind {kind : Token.Kind} {f : Bool → Parse β} (heof : kind ≠ .eof)
    (hnewline : kind ≠ .newline)
    (htrue : ∀ t st', t.kind = kind → Reads st' (f true) fun S vs b st'' => T S (t :: vs) b st'')
    (hfalse : ∀ t st', At st' t → t.kind ≠ kind → Reads st' (f false) T) :
    Reads st (eat kind >>= f) T := by
  unfold eat
  rw [bind_assoc]
  refine atKind_bind (fun t st' hat hkind => ?_) (fun t st' hat hkind => ?_)
  · simp only [if_true, bind_assoc, pure_bind]
    exact advance_bind hat (hkind ▸ heof) (hkind ▸ hnewline) fun st'' => htrue t st'' hkind
  · simpa using hfalse t st' hat hkind

theorem expect_bind {kind : Token.Kind} {context : String} {f : Token → Parse β}
    (heof : kind ≠ .eof) (hnewline : kind ≠ .newline)
    (h : ∀ t st', t.kind = kind → Reads st' (f t) fun S vs b st'' => T S (t :: vs) b st'') :
    Reads st (expect kind context >>= f) T := by
  unfold expect
  rw [bind_assoc]
  refine atKind_bind (fun t st' hat hkind => ?_) (fun t st' hat hkind => ?_)
  · simp only [if_true]
    exact advance_bind hat (hkind ▸ heof) (hkind ▸ hnewline) fun st'' => h t st'' hkind
  · simp only [Bool.false_eq_true, if_false, bind_assoc]
    refine current_bind fun t st'' _ => ?_
    exact (fail (R := fun _ _ _ _ => False) _ _).bind fun _ _ _ h => h.elim

theorem expect {kind : Token.Kind} {context : String} (heof : kind ≠ .eof)
    (hnewline : kind ≠ .newline) :
    Reads st (expect kind context) fun _ us t _ => us = [t] ∧ t.kind = kind := by
  rw [← bind_pure (Parser.expect kind context)]
  exact expect_bind heof hnewline fun t st' ht => pure fun _ _ => ⟨rfl, ht⟩

theorem expectIdent_bind {context : String} {f : Ident → Parse β}
    (h : ∀ t st', t.kind = .ident →
      Reads st' (f ⟨t.literal, t.pos⟩) fun S vs b st'' => T S (t :: vs) b st'') :
    Reads st (expectIdent context >>= f) T := by
  unfold expectIdent
  rw [bind_assoc]
  exact expect_bind (by decide) (by decide) fun t st' ht => by simpa using h t st' ht

/-! ## Brackets -/

variable {U : Prop → List Token → α → Prop}

theorem nested (h : ∀ st, Reads st p fun S us a _ => U S us a) :
    Reads st (Parser.nested p) fun S us a _ => U S us a := by
  have hinner := h { st with nesting := st.nesting + 1 }
  have hback {used : List Token} {st' : State}
      (hmoves : Moves { st with nesting := st.nesting + 1 } used st') :
      Moves st used { st' with nesting := st'.nesting - 1 } :=
    ⟨hmoves.tokens, hmoves.inside, by simp [hmoves.nesting], hmoves.diagnostics⟩
  refine intro (fun a st' hrun => ?_) (fun e st' hrun => ?_) <;>
    rw [run_nested] at hrun <;> obtain ⟨hresult, rfl⟩ := Prod.mk.inj hrun
  · obtain ⟨used, hmoves, hU⟩ := hinner.read (Prod.ext hresult rfl)
    exact ⟨used, hback hmoves, hU⟩
  · obtain ⟨used, hmoves⟩ := hinner.moves
    exact ⟨used, hback hmoves⟩

theorem asStatements (h : ∀ st, Reads st p fun S us a _ => U S us a) :
    Reads st (Parser.asStatements p) fun S us a _ => U S us a := by
  have hinner := h { st with nesting := 0 }
  have hback {used : List Token} {st' : State} (hmoves : Moves { st with nesting := 0 } used st') :
      Moves st used { st' with nesting := st.nesting } :=
    ⟨hmoves.tokens, hmoves.inside, rfl, hmoves.diagnostics⟩
  refine intro (fun a st' hrun => ?_) (fun e st' hrun => ?_) <;>
    rw [run_asStatements] at hrun <;> obtain ⟨hresult, rfl⟩ := Prod.mk.inj hrun
  · obtain ⟨used, hmoves, hU⟩ := hinner.read (Prod.ext hresult rfl)
    exact ⟨used, hback hmoves, hU⟩
  · obtain ⟨used, hmoves⟩ := hinner.moves
    exact ⟨used, hback hmoves⟩

/-! ## Repetition -/

variable {step : Parse (Option α)} {I : Prop → List Token → List α → Prop}

/-- A repetition reads what its steps read, one after the other. -/
theorem collect (hnil : ∀ S, I S [] [])
    (hstep : ∀ st, Reads st step fun S us next _ =>
      match next with
      | none => I S us []
      | some a => ∀ vs as, I S vs as → I S (us ++ vs) (a :: as))
    (limit : Nat) : ∀ st, Reads st (Parser.collect step limit) fun S us as _ => I S us as := by
  induction limit with
  | zero => exact fun st => pure fun S _ => hnil S
  | succ limit ih =>
    intro st
    refine (hstep st).bind ?_
    rintro (_ | a) us st' -
    · exact pure fun S _ h => by simpa using h
    · refine (ih st').bind fun as vs st'' _ => pure fun S _ has ha => ?_
      simpa using ha _ _ has

theorem many (hnil : ∀ S, I S [] [])
    (hstep : ∀ st, Reads st step fun S us next _ =>
      match next with
      | none => I S us []
      | some a => ∀ vs as, I S vs as → I S (us ++ vs) (a :: as)) :
    Reads st (Parser.many step) fun S us as _ => I S us as :=
  get_bind (collect hnil hstep _ st)

end Reads

end Welle.Parser
