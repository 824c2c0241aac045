import Welle.Proofs.Append.Follows

set_option autoImplicit false

/-! # What a parser takes

`Takes view p ts rest a` says that `p` succeeds wherever the tokens `ts` stand in front of `rest`: it
stops there, reports nothing, and gives a value that looks like `a` through `view`, which forgets
positions. The rules below follow the parts that parsers are made of, so that a proof about a parser
has the shape of the parser. -/

namespace Welle.Parser

open Welle.Grammar (identOf)

/-! ## The judgement -/

/-- A parser takes tokens in front of others, and its value looks like `a`. -/
def Takes {α κ : Type} (view : α → κ) (p : Parse α) (ts rest : List Token) (a : α) : Prop :=
  ∀ n ds, ∃ a', view a' = view a ∧ run p ⟨ts ++ rest, n, ds⟩ = (.ok a', ⟨rest, n, ds⟩)

/-- The kind of the first one of some tokens, or the end of a text. -/
def headKind (ts : List Token) : Token.Kind := (ts.headD (Token.endOfText .start)).kind

@[simp] theorem headKind_cons (t : Token) (ts : List Token) : headKind (t :: ts) = t.kind := rfl

/-- The kinds that a parser can move over everywhere: brackets hide line feeds, and the end of a text
    stays where it is. -/
def isSolid (kind : Token.Kind) : Bool := kind ≠ .newline && kind ≠ .eof

theorem ne_newline_of_isSolid {kind : Token.Kind} (h : isSolid kind = true) : kind ≠ .newline := by
  rintro rfl
  cases h

theorem ne_eof_of_isSolid {kind : Token.Kind} (h : isSolid kind = true) : kind ≠ .eof := by
  rintro rfl
  cases h

theorem settle_of_headKind {ts : List Token} (h : headKind ts ≠ .newline) (n : Nat)
    (ds : List Diagnostic) : State.settle ⟨ts, n, ds⟩ = ⟨ts, n, ds⟩ := by
  unfold State.settle
  split
  · cases ts with
    | nil => rfl
    | cons t ts =>
      rw [headKind_cons] at h
      simp [State.dropNewlines, h]
  · rfl

theorem run_advance_cons {t : Token} (ht : isSolid t.kind = true) (ts : List Token) (n : Nat)
    (ds : List Diagnostic) : run advance ⟨t :: ts, n, ds⟩ = (.ok t, ⟨ts, n, ds⟩) :=
  run_advance (.cons (ne_newline_of_isSolid ht) ts n ds) (ne_eof_of_isSolid ht)

theorem run_expect {t : Token} {kind : Token.Kind} (context : String) (ht : t.kind = kind)
    (hkind : isSolid kind = true) (ts : List Token) (n : Nat) (ds : List Diagnostic) :
    run (expect kind context) ⟨t :: ts, n, ds⟩ = (.ok t, ⟨ts, n, ds⟩) := by
  subst ht
  have hat := At.cons (ne_newline_of_isSolid hkind) ts n ds
  rw [expect, run_bind_ok (run_atKind _ _), hat.settled, hat.current, decide_eq_true rfl]
  exact run_advance_cons hkind ts n ds

namespace Takes

variable {α β κ μ : Type} {view : α → κ} {view' : β → μ} {p : Parse α} {f : α → Parse β}
variable {ts us rest : List Token} {t : Token} {a : α} {b : β}

theorem pure {a' : α} (h : view a' = view a) : Takes view (Pure.pure a') [] rest a :=
  fun _ _ => ⟨a', h, rfl⟩

/-- Two parsers in a row take what the first one takes and then what the second one takes. -/
theorem bind (hp : Takes view p ts (us ++ rest) a)
    (hf : ∀ a', view a' = view a → Takes view' (f a') us rest b) :
    Takes view' (p >>= f) (ts ++ us) rest b := by
  intro n ds
  obtain ⟨a', ha, hrun⟩ := hp n ds
  obtain ⟨b', hb, hrun'⟩ := hf a' ha n ds
  refine ⟨b', hb, ?_⟩
  rw [List.append_assoc, run_bind_ok hrun, hrun']

/-- Nothing is taken behind the first parser. -/
theorem bind_last (hp : Takes view p ts rest a)
    (hf : ∀ a', view a' = view a → Takes view' (f a') [] rest b) :
    Takes view' (p >>= f) ts rest b := by
  rw [← List.append_nil ts]
  exact bind hp hf

theorem map {g : α → β} (h : Takes view p ts rest a)
    (hg : ∀ a', view a' = view a → view' (g a') = view' b) : Takes view' (g <$> p) ts rest b := by
  intro n ds
  obtain ⟨a', ha, hrun⟩ := h n ds
  refine ⟨g a', hg a' ha, ?_⟩
  rw [run_map, hrun]
  rfl

/-- A step that leaves the cursor where it is. -/
theorem look_bind {a : α} (hp : ∀ n ds, run p ⟨ts ++ rest, n, ds⟩ = (.ok a, ⟨ts ++ rest, n, ds⟩))
    (hf : Takes view' (f a) ts rest b) : Takes view' (p >>= f) ts rest b := by
  intro n ds
  obtain ⟨b', hb, hrun⟩ := hf n ds
  exact ⟨b', hb, by rw [run_bind_ok (hp n ds), hrun]⟩

/-! ## The cursor -/

theorem current_bind {f : Token → Parse β} (ht : t.kind ≠ .newline)
    (h : Takes view' (f t) (t :: ts) rest b) : Takes view' (current >>= f) (t :: ts) rest b := by
  refine look_bind (fun n ds => ?_) h
  rw [run_current, List.cons_append, (At.cons ht _ n ds).settled]
  rfl

theorem currentKind_bind {f : Token.Kind → Parse β} (hne : headKind (ts ++ rest) ≠ .newline)
    (h : Takes view' (f (headKind (ts ++ rest))) ts rest b) :
    Takes view' (currentKind >>= f) ts rest b := by
  refine look_bind (fun n ds => ?_) h
  rw [run_currentKind, settle_of_headKind hne]
  rfl

theorem atKind_bind {kind : Token.Kind} {f : Bool → Parse β} (hne : headKind (ts ++ rest) ≠ .newline)
    (h : Takes view' (f (decide (headKind (ts ++ rest) = kind))) ts rest b) :
    Takes view' (atKind kind >>= f) ts rest b := by
  refine look_bind (fun n ds => ?_) h
  rw [run_atKind, settle_of_headKind hne]
  rfl

theorem nextKind_bind {f : Token.Kind → Parse β} (ht : t.kind ≠ .newline)
    (hne : headKind (ts ++ rest) ≠ .newline)
    (h : Takes view' (f (headKind (ts ++ rest))) (t :: ts) rest b) :
    Takes view' (nextKind >>= f) (t :: ts) rest b := by
  refine look_bind (fun n ds => ?_) h
  rw [List.cons_append, run_nextKind (At.cons ht _ n ds)]
  change (Except.ok (State.settle ⟨ts ++ rest, n, ds⟩).current.kind, _) = _
  rw [settle_of_headKind hne]
  rfl

/-- Looking behind a token where it does not matter what stands there. -/
theorem nextKind_bind_any {f : Token.Kind → Parse β} (ht : t.kind ≠ .newline)
    (h : ∀ kind, Takes view' (f kind) (t :: ts) rest b) :
    Takes view' (nextKind >>= f) (t :: ts) rest b := by
  intro n ds
  obtain ⟨b', hb, hrun⟩ := h (State.dropToken ⟨t :: (ts ++ rest), n, ds⟩).settle.current.kind n ds
  refine ⟨b', hb, ?_⟩
  rw [List.cons_append] at hrun ⊢
  rw [run_bind_ok (run_nextKind (At.cons ht _ n ds)), hrun]

/-- Separators in front of anything else are passed over. -/
theorem skipSeparators_bind_append {pre : List Token} {f : Unit → Parse β}
    (hpre : ∀ t ∈ pre, t.kind.isSeparator = true)
    (hne : (headKind (ts ++ rest)).isSeparator = false) (h : Takes view' (f ()) ts rest b) :
    Takes view' (skipSeparators >>= f) (pre ++ ts) rest b := by
  intro n ds
  obtain ⟨b', hb, hrun⟩ := h n ds
  refine ⟨b', hb, ?_⟩
  have hdrop : (ts ++ rest).dropWhile (fun t => t.kind.isSeparator) = ts ++ rest := by
    cases htokens : ts ++ rest with
    | nil => rfl
    | cons t us =>
      rw [htokens, headKind_cons] at hne
      simp [hne]
  have hstate : State.dropSeparators ⟨pre ++ ts ++ rest, n, ds⟩ = ⟨ts ++ rest, n, ds⟩ := by
    rw [State.dropSeparators, List.append_assoc, List.dropWhile_append_of_pos hpre, hdrop]
  rw [run_bind_ok (run_skipSeparators _), hstate, hrun]

theorem skipSeparators_bind {f : Unit → Parse β} (hne : (headKind (ts ++ rest)).isSeparator = false)
    (h : Takes view' (f ()) ts rest b) : Takes view' (skipSeparators >>= f) ts rest b :=
  skipSeparators_bind_append (List.forall_mem_nil _) hne h

/-- No line feed stands in front of the tokens. -/
theorem skipNewlines_bind {f : Unit → Parse β} (hne : headKind (ts ++ rest) ≠ .newline)
    (h : Takes view' (f ()) ts rest b) : Takes view' (skipNewlines >>= f) ts rest b := by
  refine look_bind (fun n ds => ?_) h
  rw [run_skipNewlines, State.dropNewlines]
  cases htokens : ts ++ rest with
  | nil => rfl
  | cons t us =>
    rw [htokens, headKind_cons] at hne
    simp [hne]

theorem get_bind {f : State → Parse β}
    (h : ∀ n ds, ∃ b', view' b' = view' b
      ∧ run (f ⟨ts ++ rest, n, ds⟩) ⟨ts ++ rest, n, ds⟩ = (.ok b', ⟨rest, n, ds⟩)) :
    Takes view' (get >>= f) ts rest b := by
  intro n ds
  rw [run_bind, run_get]
  exact h n ds

theorem advance_bind {f : Token → Parse β} (ht : isSolid t.kind = true)
    (h : Takes view' (f t) us rest b) : Takes view' (advance >>= f) (t :: us) rest b := by
  intro n ds
  obtain ⟨b', hb, hrun⟩ := h n ds
  refine ⟨b', hb, ?_⟩
  rwa [List.cons_append, run_bind_ok (run_advance_cons ht _ n ds)]

theorem expect_bind {kind : Token.Kind} {context : String} {f : Token → Parse β}
    (ht : t.kind = kind) (hkind : isSolid kind = true) (h : Takes view' (f t) us rest b) :
    Takes view' (expect kind context >>= f) (t :: us) rest b := by
  intro n ds
  obtain ⟨b', hb, hrun⟩ := h n ds
  refine ⟨b', hb, ?_⟩
  rwa [List.cons_append, run_bind_ok (run_expect context ht hkind _ n ds)]

theorem expectIdent_bind {context : String} {f : Ident → Parse β} (ht : t.kind = .ident)
    (h : Takes view' (f (identOf t)) us rest b) :
    Takes view' (expectIdent context >>= f) (t :: us) rest b := by
  unfold expectIdent
  rw [bind_assoc]
  refine expect_bind ht rfl ?_
  rw [pure_bind]
  exact h

theorem eat_bind {kind : Token.Kind} {f : Bool → Parse β} (ht : t.kind = kind)
    (hkind : isSolid kind = true) (h : Takes view' (f true) us rest b) :
    Takes view' (eat kind >>= f) (t :: us) rest b := by
  subst ht
  unfold eat
  rw [bind_assoc]
  refine atKind_bind (ne_newline_of_isSolid hkind) ?_
  simp only [List.cons_append, headKind_cons, decide_true, if_true, bind_assoc, pure_bind]
  exact advance_bind hkind h

theorem eat_bind_of_ne {kind : Token.Kind} {f : Bool → Parse β}
    (hne : headKind (ts ++ rest) ≠ .newline) (hkind : headKind (ts ++ rest) ≠ kind)
    (h : Takes view' (f false) ts rest b) : Takes view' (eat kind >>= f) ts rest b := by
  unfold eat
  rw [bind_assoc]
  refine atKind_bind hne ?_
  simpa only [hkind, decide_false, Bool.false_eq_true, if_false, pure_bind] using h

/-- Whether a token of a kind comes next, where no line feed comes first. -/
theorem nextAfterNewlinesIs_eq {ts : List Token} (hne : headKind ts ≠ .newline)
    {kind : Token.Kind} (heof : kind ≠ .eof) (n : Nat) (ds : List Diagnostic) :
    State.nextAfterNewlinesIs ⟨ts, n, ds⟩ kind = decide (headKind ts = kind) := by
  cases ts with
  | nil =>
    have hkind : headKind [] ≠ kind := fun h => heof h.symm
    simp [State.nextAfterNewlinesIs, hkind]
  | cons t ts =>
    rw [headKind_cons] at hne ⊢
    simp [State.nextAfterNewlinesIs, hne]

/-- Behind a parser that succeeds only the case of its success counts. -/
theorem observing_bind {f : Except SyntaxError α → Parse β} (hp : Takes view p ts (us ++ rest) a)
    (hf : ∀ a', view a' = view a → Takes view' (f (.ok a')) us rest b) :
    Takes view' (observing p >>= f) (ts ++ us) rest b := by
  intro n ds
  obtain ⟨a', ha, hrun⟩ := hp n ds
  obtain ⟨b', hb, hrun'⟩ := hf a' ha n ds
  refine ⟨b', hb, ?_⟩
  rw [List.append_assoc, run_bind, run_observing, hrun]
  exact hrun'

/-! ## Brackets -/

theorem nested (h : Takes view p ts rest a) : Takes view (Parser.nested p) ts rest a := by
  intro n ds
  obtain ⟨a', ha, hrun⟩ := h (n + 1) ds
  exact ⟨a', ha, run_nested_ok hrun⟩

theorem asStatements (h : Takes view p ts rest a) :
    Takes view (Parser.asStatements p) ts rest a := by
  intro n ds
  obtain ⟨a', ha, hrun⟩ := h 0 ds
  exact ⟨a', ha, run_asStatements_ok hrun⟩

end Takes

/-! ## Repetition -/

/-- The rounds of a loop: the tokens that its steps take one after the other, and their values. The
    last step gives none, and something is left behind it. -/
inductive Rounds {α κ : Type} (view : α → κ) (step : Parse (Option α)) (rest : List Token) :
    List Token → List α → Prop
  | stop {ts : List Token} : rest ≠ [] → Takes (Option.map view) step ts rest none →
      Rounds view step rest ts []
  | go {ts us : List Token} {a : α} {as : List α} :
      ts ≠ [] → Takes (Option.map view) step ts (us ++ rest) (some a) →
      Rounds view step rest us as → Rounds view step rest (ts ++ us) (a :: as)

namespace Rounds

variable {α κ : Type} {view : α → κ} {step : Parse (Option α)} {ts rest : List Token} {as : List α}

theorem collect (h : Rounds view step rest ts as) {limit : Nat}
    (hlimit : (ts ++ rest).length ≤ limit) :
    Takes (List.map view) (collect step limit) ts rest as := by
  induction h generalizing limit with
  | @stop ts hrest hstep =>
    intro n ds
    obtain ⟨found, hfound, hrun⟩ := hstep n ds
    have hpos := List.length_pos_iff.2 hrest
    rw [List.length_append] at hlimit
    obtain ⟨limit, rfl⟩ : ∃ k, limit = k + 1 := ⟨limit - 1, by omega⟩
    obtain rfl := Option.map_eq_none_iff.1 hfound
    refine ⟨[], rfl, ?_⟩
    rw [Parser.collect, run_bind_ok hrun]
    rfl
  | @go ts us a as hts hstep hrounds ih =>
    intro n ds
    obtain ⟨found, hfound, hrun⟩ := hstep n ds
    have hpos := List.length_pos_iff.2 hts
    rw [List.append_assoc, List.length_append] at hlimit
    obtain ⟨limit, rfl⟩ : ∃ k, limit = k + 1 := ⟨limit - 1, by omega⟩
    obtain ⟨a', rfl, ha⟩ := Option.map_eq_some_iff.1 hfound
    have hlength : (us ++ rest).length ≤ limit := by omega
    obtain ⟨as', has, hrun'⟩ := ih hlength n ds
    refine ⟨a' :: as', by rw [List.map_cons, List.map_cons, ha, has], ?_⟩
    rw [List.append_assoc, Parser.collect, run_bind_ok hrun]
    exact run_bind_ok hrun' _

theorem many (h : Rounds view step rest ts as) :
    Takes (List.map view) (many step) ts rest as :=
  Takes.get_bind fun n ds => h.collect le_rfl n ds

end Rounds

end Welle.Parser
