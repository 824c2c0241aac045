import Mathlib.Data.Set.BooleanAlgebra
import Mathlib.Data.Set.Disjoint
import Mathlib.Order.CompletePartialOrder
import Welle.Proofs.Events
import Welle.Proofs.Grammar
import Welle.Proofs.Nesting

set_option autoImplicit false

/-! # Where the scopes of a program lie

Where nothing is reported, brackets are balanced, and every scope lies around what belongs to it.
`Laid pairs ts events` says so of steps that are read from the tokens `ts`: each scope reaches over
the tokens that its own steps are read from, and it keeps clear of later steps. The steps need not be
in the order of the text: the sequence of a comprehension comes before its scope, although it is
written inside. So a later scope may lie around an earlier one, if it starts at a square bracket. -/

namespace Welle

/-! ## Balanced tokens -/

namespace Bracket

/-- Whether a kind is that of a bracket. -/
def isBracket (kind : Token.Kind) : Bool := (closer? kind).isSome || isCloser kind

/-- Tokens that leave the brackets around them as they are. -/
def Balanced (ts : List Token) : Prop :=
  ∀ stack pairs, ts.foldl Scan.step ⟨stack, pairs⟩ = ⟨stack, pairsOf ts ++ pairs⟩

theorem balanced_nil : Balanced [] := fun _ _ => rfl

theorem pairsOf_append {ts us : List Token} (hts : Balanced ts) (hus : Balanced us) :
    pairsOf (ts ++ us) = pairsOf us ++ pairsOf ts := by
  rw [pairsOf, List.foldl_append, hts [] [], hus, List.append_nil]

theorem Balanced.append {ts us : List Token} (hts : Balanced ts) (hus : Balanced us) :
    Balanced (ts ++ us) := by
  intro stack pairs
  rw [List.foldl_append, hts, hus, pairsOf_append hts hus, List.append_assoc]

theorem step_of_plain {t : Token} (h : isBracket t.kind = false) (scan : Scan) :
    scan.step t = scan := by
  obtain ⟨hopen, hclose⟩ : closer? t.kind = none ∧ isCloser t.kind = false := by
    simpa [isBracket] using h
  simp [Scan.step, hopen, hclose]

theorem pairsOf_singleton {t : Token} (h : isBracket t.kind = false) : pairsOf [t] = [] := by
  rw [pairsOf, List.foldl_cons, step_of_plain h, List.foldl_nil]

theorem balanced_singleton {t : Token} (h : isBracket t.kind = false) : Balanced [t] := by
  intro stack pairs
  rw [pairsOf_singleton h, List.foldl_cons, step_of_plain h, List.foldl_nil, List.nil_append]

/-- A closing bracket takes the bracket that it closes from the top. -/
theorem step_of_closer {l r : Token} (h : closer? l.kind = some r.kind)
    (stack : List (Token.Kind × Position)) (pairs : List (Position × Position)) :
    Scan.step ⟨(r.kind, l.pos) :: stack, pairs⟩ r = ⟨stack, (l.pos, r.pos) :: pairs⟩ := by
  have hkind : closer? r.kind = none ∧ isCloser r.kind = true := by
    generalize l.kind = left at h
    generalize r.kind = right at h ⊢
    cases left <;> cases h <;> exact ⟨rfl, rfl⟩
  simp [Scan.step, hkind.1, hkind.2]

theorem foldl_bracket {l r : Token} {ts : List Token} (h : closer? l.kind = some r.kind)
    (hts : Balanced ts) (stack : List (Token.Kind × Position)) (pairs : List (Position × Position)) :
    (l :: (ts ++ [r])).foldl Scan.step ⟨stack, pairs⟩
      = ⟨stack, (l.pos, r.pos) :: (pairsOf ts ++ pairs)⟩ := by
  have hopen : Scan.step ⟨stack, pairs⟩ l = ⟨(r.kind, l.pos) :: stack, pairs⟩ := by
    simp [Scan.step, h]
  rw [List.foldl_cons, hopen, List.foldl_append, hts, List.foldl_cons, step_of_closer h,
    List.foldl_nil]

theorem pairsOf_bracket {l r : Token} {ts : List Token} (h : closer? l.kind = some r.kind)
    (hts : Balanced ts) : pairsOf (l :: (ts ++ [r])) = (l.pos, r.pos) :: pairsOf ts := by
  rw [pairsOf, foldl_bracket h hts, List.append_nil]

theorem Balanced.bracket {l r : Token} {ts : List Token} (h : closer? l.kind = some r.kind)
    (hts : Balanced ts) : Balanced (l :: (ts ++ [r])) := by
  intro stack pairs
  rw [foldl_bracket h hts, pairsOf_bracket h hts, List.cons_append]

end Bracket

/-! ## Steps that are laid out -/

/-- Whether a step neither enters nor leaves a scope. -/
def Event.isPlain : Event → Bool
  | enter .. | leave => false
  | _ => true

/-- Steps that neither enter nor leave a scope and name only the given identifiers. -/
def Event.Plain (ids : List Ident) (events : List Event) : Prop :=
  ∀ e ∈ events, e.isPlain = true ∧ ∀ id ∈ e.idents, id ∈ ids

theorem Event.plain_map {f : Ident → Event} (hplain : ∀ id, (f id).isPlain = true)
    (hidents : ∀ id, (f id).idents = [id]) (ids : List Ident) : Event.Plain ids (ids.map f) := by
  intro e he
  obtain ⟨id, hid, rfl⟩ := List.mem_map.1 he
  exact ⟨hplain id, by simpa [hidents] using hid⟩

theorem Event.plain_singleton {e : Event} {id : Ident} (hplain : e.isPlain = true)
    (hidents : e.idents = [id]) : Event.Plain [id] [e] := by
  simp [Event.Plain, hplain, hidents]

/-- The scope that a step enters. -/
def Event.span? (pairs : Bracket.Pairs) : Event → Option Span
  | enter start opening => some (pairs.span start opening)
  | _ => none

/-- The scopes that steps enter. -/
def Event.spans (pairs : Bracket.Pairs) (events : List Event) : List Span :=
  events.filterMap (Event.span? pairs)

/-- The positions that a span contains. -/
def Span.places (s : Span) : Set Position := { p | s.contains p = true }

theorem Span.mem_places {s : Span} {p : Position} : p ∈ s.places ↔ s.first ≤ p ∧ p ≤ s.last := by
  simp [places, contains]

/-- The places from the first to the last of some tokens. -/
def foot (ts : List Token) : Set Position := { p | (∃ a ∈ ts, a.pos ≤ p) ∧ ∃ b ∈ ts, p ≤ b.pos }

theorem foot_subset {ts us : List Token} (h : ts ⊆ us) : foot ts ⊆ foot us := by
  rintro p ⟨⟨a, ha, hap⟩, b, hb, hpb⟩
  exact ⟨⟨a, h ha, hap⟩, b, h hb, hpb⟩

theorem mem_foot {ts : List Token} {t : Token} (h : t ∈ ts) : t.pos ∈ foot ts :=
  ⟨⟨t, h, Position.le_refl _⟩, t, h, Position.le_refl _⟩

/-- Tokens that stand one behind the other have no places in common. -/
theorem foot_apart {ts us : List Token} (h : (ts ++ us).Pairwise fun t u => t.pos < u.pos) :
    Disjoint (foot ts) (foot us) := by
  rw [Set.disjoint_left]
  rintro p ⟨-, b, hb, hpb⟩ ⟨⟨a, ha, hap⟩, -⟩
  have hlt := (List.pairwise_append.1 h).2.2 b hb a ha
  have hlt' := Position.lt_of_lt_of_le hlt (Position.le_trans hap hpb)
  exact Position.lt_irrefl _ hlt'

/-- A span has no place in common with others, or it lies around all of them and starts at a square
    bracket, which is one of `ts`. -/
def Span.Clears (ts : List Token) (places : Set Position) (span : Span) : Prop :=
  Disjoint places span.places
    ∨ places ⊆ span.places ∧ ∃ t ∈ ts, t.kind = .lbracket ∧ t.pos = span.first

theorem Span.Clears.mono {ts us : List Token} {I J : Set Position} {span : Span}
    (h : span.Clears ts J) (hts : ts ⊆ us) (hsub : I ⊆ J) : span.Clears us I := by
  rcases h with hapart | ⟨haround, t, ht, hbracket⟩
  · exact .inl (hapart.mono_left hsub)
  · exact .inr ⟨hsub.trans haround, t, hts ht, hbracket⟩

/-- Steps that name nothing at some places, and whose scopes keep clear of them. -/
structure Avoids (pairs : Bracket.Pairs) (ts : List Token) (places : Set Position)
    (es : List Event) : Prop where
  idents : ∀ id ∈ es.flatMap Event.idents, id.pos ∉ places
  spans : ∀ span ∈ Event.spans pairs es, span.Clears ts places

/-- The scopes of steps reach over the tokens that the steps inside are read from, which are some of
    `ts`, and the steps behind a scope avoid it. -/
inductive Laid (pairs : Bracket.Pairs) : List Token → List Event → Prop where
  | nil {ts : List Token} : Laid pairs ts []
  | plain {ts : List Token} {e : Event} {es : List Event} :
      e.isPlain = true → (∀ id ∈ e.idents, id.pos ∈ foot ts) → Laid pairs ts es →
      Laid pairs ts (e :: es)
  | scope {ts us : List Token} {start opening : Position} {inner es : List Event} :
      us ≠ [] → us ⊆ ts → (pairs.span start opening).places = foot us → Laid pairs us inner →
      Avoids pairs ts (foot us) es → Laid pairs ts es →
      Laid pairs ts (Event.inScope start opening inner ++ es)

namespace Event

variable {pairs : Bracket.Pairs}

theorem flatMap_idents_inScope (start opening : Position) (inner : List Event) :
    (Event.inScope start opening inner).flatMap Event.idents = inner.flatMap Event.idents := by
  simp [Event.inScope, Event.idents]

theorem spans_append (es fs : List Event) : spans pairs (es ++ fs) = spans pairs es ++ spans pairs fs :=
  List.filterMap_append

theorem spans_plain {e : Event} (h : e.isPlain = true) (es : List Event) :
    spans pairs (e :: es) = spans pairs es := by
  have hspan : e.span? pairs = none := by cases e <;> first | rfl | cases h
  exact List.filterMap_cons_none hspan

theorem spans_inScope (start opening : Position) (inner : List Event) :
    spans pairs (inScope start opening inner) = pairs.span start opening :: spans pairs inner := by
  simp [spans, inScope, span?]

end Event

namespace Avoids

variable {pairs : Bracket.Pairs} {ts us : List Token} {I J : Set Position} {es fs : List Event}

theorem nil : Avoids pairs ts I [] := ⟨by simp, by simp [Event.spans]⟩

theorem mono (h : Avoids pairs ts J es) (hts : ts ⊆ us) (hsub : I ⊆ J) : Avoids pairs us I es where
  idents := fun id hid hmem => h.idents id hid (hsub hmem)
  spans := fun span hspan => (h.spans span hspan).mono hts hsub

theorem append (h : Avoids pairs ts I es) (h' : Avoids pairs ts I fs) :
    Avoids pairs ts I (es ++ fs) where
  idents := by
    rw [List.flatMap_append, List.forall_mem_append]
    exact ⟨h.idents, h'.idents⟩
  spans := by
    rw [Event.spans_append, List.forall_mem_append]
    exact ⟨h.spans, h'.spans⟩

/-- Some of the steps, in any order. -/
theorem subset (h : Avoids pairs ts I fs) (hsub : es ⊆ fs) : Avoids pairs ts I es where
  idents := by
    intro id hid
    obtain ⟨e, he, hid⟩ := List.mem_flatMap.1 hid
    exact h.idents id (List.mem_flatMap.2 ⟨e, hsub he, hid⟩)
  spans := by
    intro span hspan
    obtain ⟨e, he, hspan⟩ := List.mem_filterMap.1 hspan
    exact h.spans span (List.mem_filterMap.2 ⟨e, hsub he, hspan⟩)

theorem inScope {start opening : Position} (h : Avoids pairs ts I es)
    (hspan : (pairs.span start opening).Clears ts I) :
    Avoids pairs ts I (Event.inScope start opening es) where
  idents := by
    rw [Event.flatMap_idents_inScope]
    exact h.idents
  spans := by
    rw [Event.spans_inScope, List.forall_mem_cons]
    exact ⟨hspan, h.spans⟩

end Avoids

namespace Laid

variable {pairs : Bracket.Pairs} {I : Set Position} {ts us vs : List Token} {es fs : List Event}

/-- The names of the steps lie within the tokens. -/
theorem idents (h : Laid pairs ts es) : ∀ id ∈ es.flatMap Event.idents, id.pos ∈ foot ts := by
  induction h with
  | nil => simp
  | plain _ hids _ ih =>
    intro id hid
    rw [List.flatMap_cons, List.mem_append] at hid
    exact hid.elim (hids id) (ih id)
  | scope _ hsub _ _ _ _ ihinner ih =>
    intro id hid
    rw [List.flatMap_append, Event.flatMap_idents_inScope, List.mem_append] at hid
    rcases hid with hid | hid
    · exact foot_subset hsub (ihinner id hid)
    · exact ih id hid

/-- The scopes of the steps lie within the tokens, and none of them is empty. -/
theorem spans (h : Laid pairs ts es) :
    ∀ span ∈ Event.spans pairs es, span.first ≤ span.last ∧ span.places ⊆ foot ts := by
  induction h with
  | nil => simp [Event.spans]
  | plain hplain _ _ ih =>
    rw [Event.spans_plain hplain]
    exact ih
  | @scope ts us start opening inner es hne hsub hplaces _ _ _ ihinner ih =>
    rw [Event.spans_append, Event.spans_inScope, List.cons_append, List.forall_mem_cons,
      List.forall_mem_append]
    obtain ⟨t, ht⟩ := List.exists_mem_of_ne_nil us hne
    obtain ⟨hfirst, hlast⟩ := Span.mem_places.1 (hplaces ▸ mem_foot ht)
    refine ⟨⟨Position.le_trans hfirst hlast, hplaces ▸ foot_subset hsub⟩, fun span hspan => ?_, ih⟩
    exact ⟨(ihinner span hspan).1, (ihinner span hspan).2.trans (foot_subset hsub)⟩

/-- Steps avoid the places that their tokens do not reach. -/
theorem avoids (h : Laid pairs ts es) (hapart : Disjoint I (foot ts)) : Avoids pairs us I es where
  idents := fun id hid hmem => Set.disjoint_left.1 hapart hmem (h.idents id hid)
  spans := fun span hspan => .inl (hapart.mono_right (h.spans span hspan).2)

theorem mono (h : Laid pairs ts es) (hsub : ts ⊆ vs) : Laid pairs vs es := by
  induction h with
  | nil => exact .nil
  | plain hplain hids _ ih =>
    exact .plain hplain (fun id hid => foot_subset hsub (hids id hid)) (ih hsub)
  | scope hne hus hplaces hinner hbehind _ _ ih =>
    exact .scope hne (List.Subset.trans hus hsub) hplaces hinner (hbehind.mono hsub subset_rfl)
      (ih hsub)

/-- Steps behind others whose places they avoid. -/
theorem append (h : Laid pairs ts es) (hsub : ts ⊆ vs) (h' : Laid pairs vs fs)
    (hapart : Avoids pairs vs (foot ts) fs) : Laid pairs vs (es ++ fs) := by
  induction h with
  | nil => exact h'
  | plain hplain hids _ ih =>
    exact .plain hplain (fun id hid => foot_subset hsub (hids id hid)) (ih hsub hapart)
  | scope hne hus hplaces hinner hbehind _ _ ih =>
    rw [List.append_assoc]
    refine .scope hne (List.Subset.trans hus hsub) hplaces hinner ?_ (ih hsub hapart)
    exact (hbehind.mono hsub subset_rfl).append
      (hapart.mono (List.Subset.refl _) (foot_subset hus))

theorem of_plain {ids : List Ident} (h : Event.Plain ids es) (hids : ∀ id ∈ ids, id.pos ∈ foot ts) :
    Laid pairs ts es := by
  induction es with
  | nil => exact .nil
  | cons e es ih =>
    obtain ⟨⟨hplain, hsub⟩, h⟩ := List.forall_mem_cons.1 h
    exact .plain hplain (fun id hid => hids id (hsub id hid)) (ih h)

end Laid

/-! ## Tokens and their steps -/

/-- Tokens in order, whose brackets the table pairs at any depth. -/
structure Ready (pairs : Bracket.Pairs) (ts : List Token) : Prop where
  sorted : (ts.flatMap Token.deep).Pairwise fun t u => t.pos < u.pos
  closes : pairs.Closes ts
  within : ∀ t ∈ ts, pairs.ClosesWithin t

/-- Steps that are read from tokens: the tokens are balanced, and where they are in order the steps
    are laid out within them. -/
structure Sits (pairs : Bracket.Pairs) (ts : List Token) (es : List Event) : Prop where
  balanced : Bracket.Balanced ts
  laid : Ready pairs ts → Laid pairs (ts.flatMap Token.deep) es

/-- The tokens of a block: a brace first, and the brace that closes it last. -/
structure Braced (ts : List Token) (opening : Position) : Prop where
  first : ∃ l, ts.head? = some l ∧ l.pos = opening
  last : ∃ r, ts.getLast? = some r ∧ r.kind = .rbrace ∧ (opening, r.pos) ∈ Bracket.pairsOf ts

namespace Ready

variable {pairs : Bracket.Pairs} {ts us : List Token}

theorem left (h : Ready pairs (ts ++ us)) (hts : Bracket.Balanced ts) (hus : Bracket.Balanced us) :
    Ready pairs ts where
  sorted := by
    have hsorted := h.sorted
    rw [List.flatMap_append] at hsorted
    exact (List.pairwise_append.1 hsorted).1
  closes := by
    intro q hq
    apply h.closes q
    rw [Bracket.pairsOf_append hts hus]
    exact List.mem_append_right _ hq
  within := fun t ht => h.within t (List.mem_append_left _ ht)

/-- Tokens in front and tokens behind have no places in common. -/
theorem apart (h : Ready pairs (ts ++ us)) :
    Disjoint (foot (ts.flatMap Token.deep)) (foot (us.flatMap Token.deep)) := by
  have hsorted := h.sorted
  rw [List.flatMap_append] at hsorted
  exact foot_apart hsorted

theorem right (h : Ready pairs (ts ++ us)) (hts : Bracket.Balanced ts) (hus : Bracket.Balanced us) :
    Ready pairs us where
  sorted := by
    have hsorted := h.sorted
    rw [List.flatMap_append] at hsorted
    exact (List.pairwise_append.1 hsorted).2.1
  closes := by
    intro q hq
    apply h.closes q
    rw [Bracket.pairsOf_append hts hus]
    exact List.mem_append_left _ hq
  within := fun t ht => h.within t (List.mem_append_right _ ht)

theorem inside {l r : Token} (h : Ready pairs (l :: (ts ++ [r])))
    (hkind : Bracket.closer? l.kind = some r.kind) (hts : Bracket.Balanced ts) : Ready pairs ts where
  sorted := by
    have hsorted := h.sorted
    rw [List.flatMap_cons, List.flatMap_append] at hsorted
    exact (List.pairwise_append.1 (List.pairwise_append.1 hsorted).2.1).1
  closes := by
    intro q hq
    apply h.closes q
    rw [Bracket.pairsOf_bracket hkind hts]
    exact List.mem_cons_of_mem _ hq
  within := fun t ht => h.within t (by simp [ht])

/-- A scope from the first token to the last, which closes it, reaches over all of the tokens. -/
theorem places_span {t r : Token} {opening : Position} (h : Ready pairs ts)
    (hhead : ts.head? = some t) (hlast : ts.getLast? = some r) (hr : r.kind ≠ .template)
    (hpair : (opening, r.pos) ∈ Bracket.pairsOf ts) :
    (pairs.span t.pos opening).places = foot (ts.flatMap Token.deep) := by
  have hspan : pairs.span t.pos opening = ⟨t.pos, r.pos⟩ := by
    rw [Bracket.Pairs.span, h.closes _ hpair]
  obtain ⟨us, rfl⟩ := List.head?_eq_some_iff.1 hhead
  obtain ⟨front, hfront⟩ := List.getLast?_eq_some_iff.1 hlast
  have hfirst : ∀ a ∈ (t :: us).flatMap Token.deep, t.pos ≤ a.pos := by
    have hsorted := h.sorted
    rw [List.flatMap_cons, Token.deep_eq, List.cons_append] at hsorted ⊢
    exact List.forall_mem_cons.2 ⟨Position.le_refl _, fun a ha =>
      Position.le_of_lt ((List.pairwise_cons.1 hsorted).1 a ha)⟩
  have hfinal : ∀ b ∈ (t :: us).flatMap Token.deep, b.pos ≤ r.pos := by
    have hsorted := h.sorted
    rw [hfront, List.flatMap_append, List.flatMap_singleton, Token.deep_of_other hr] at hsorted ⊢
    intro b hb
    rcases List.mem_append.1 hb with hb | hb
    · exact Position.le_of_lt ((List.pairwise_append.1 hsorted).2.2 b hb r (List.mem_singleton_self r))
    · rw [List.mem_singleton.1 hb]
      exact Position.le_refl _
  have hsub := (Token.sublist_flatMap_deep (t :: us)).subset
  ext p
  rw [hspan, Span.mem_places]
  constructor
  · rintro ⟨htp, hpr⟩
    exact ⟨⟨t, hsub List.mem_cons_self, htp⟩, r, hsub (List.mem_of_getLast? hlast), hpr⟩
  · rintro ⟨⟨a, ha, hap⟩, b, hb, hpb⟩
    exact ⟨Position.le_trans (hfirst a ha) hap, Position.le_trans hpb (hfinal b hb)⟩

end Ready

namespace Sits

variable {pairs : Bracket.Pairs} {ts us : List Token} {es fs : List Event}

theorem nil : Sits pairs [] [] := ⟨Bracket.balanced_nil, fun _ => .nil⟩

/-- A token that makes no step. -/
theorem token {t : Token} {kind : Token.Kind} (ht : t.kind = kind)
    (hkind : Bracket.isBracket kind = false) : Sits pairs [t] [] :=
  ⟨Bracket.balanced_singleton (ht ▸ hkind), fun _ => .nil⟩

/-- A name makes any steps that name nothing else. -/
theorem name {t : Token} {kind : Token.Kind} (ht : t.kind = kind)
    (hkind : Bracket.isBracket kind = false) (hes : Event.Plain [⟨t.literal, t.pos⟩] es) :
    Sits pairs [t] es := by
  refine ⟨Bracket.balanced_singleton (ht ▸ hkind), fun _ => .of_plain hes fun id hid => ?_⟩
  rw [List.mem_singleton.1 hid]
  exact mem_foot (by simpa using Token.mem_deep_self t)

/-- Steps may give way to others that name nothing new and leave the scope as it is. -/
theorem plain (h : Sits pairs ts es) (hfs : Event.Plain (es.flatMap Event.idents) fs) :
    Sits pairs ts fs :=
  ⟨h.balanced, fun hready => .of_plain hfs (h.laid hready).idents⟩

theorem silent (h : Sits pairs ts es) : Sits pairs ts [] := h.plain (by simp [Event.Plain])

theorem left_subset (ts us : List Token) :
    ts.flatMap Token.deep ⊆ (ts ++ us).flatMap Token.deep := by
  simp

theorem right_subset (ts us : List Token) :
    us.flatMap Token.deep ⊆ (ts ++ us).flatMap Token.deep := by
  simp

theorem append (h : Sits pairs ts es) (h' : Sits pairs us fs) : Sits pairs (ts ++ us) (es ++ fs) := by
  refine ⟨h.balanced.append h'.balanced, fun hready => ?_⟩
  have hts := h.laid (hready.left h.balanced h'.balanced)
  have hus := h'.laid (hready.right h.balanced h'.balanced)
  have hapart := hready.apart
  exact hts.append (left_subset ts us) (hus.mono (right_subset ts us)) (hus.avoids hapart)

/-- The steps of later tokens may come first. -/
theorem swap (h : Sits pairs ts es) (h' : Sits pairs us fs) : Sits pairs (ts ++ us) (fs ++ es) := by
  refine ⟨h.balanced.append h'.balanced, fun hready => ?_⟩
  have hts := h.laid (hready.left h.balanced h'.balanced)
  have hus := h'.laid (hready.right h.balanced h'.balanced)
  have hapart := hready.apart.symm
  exact hus.append (right_subset ts us) (hts.mono (left_subset ts us)) (hts.avoids hapart)

theorem cons {t : Token} {kind : Token.Kind} (ht : t.kind = kind)
    (hkind : Bracket.isBracket kind = false) (h : Sits pairs ts es) : Sits pairs (t :: ts) es :=
  (token ht hkind).append h

theorem separators (h : ∀ t ∈ ts, t.kind = .semicolon) : Sits pairs ts [] := by
  induction ts with
  | nil => exact nil
  | cons t ts ih =>
    rw [List.forall_mem_cons] at h
    exact (ih h.2).cons h.1 rfl

/-- A step about a token in front of the steps of all tokens. -/
theorem before {e : Event} {id : Ident} (hplain : e.isPlain = true) (hidents : e.idents = [id])
    (hid : ∃ t ∈ ts, t.pos = id.pos) (h : Sits pairs ts es) : Sits pairs ts (e :: es) := by
  refine ⟨h.balanced, fun hready => .plain hplain ?_ (h.laid hready)⟩
  obtain ⟨t, ht, hpos⟩ := hid
  rw [hidents, List.forall_mem_singleton, ← hpos]
  exact mem_foot ((Token.sublist_flatMap_deep ts).subset ht)

theorem bracket {l r : Token} {left right : Token.Kind} (hl : l.kind = left) (hr : r.kind = right)
    (hkind : Bracket.closer? left = some right) (h : Sits pairs ts es) :
    Sits pairs (l :: (ts ++ [r])) es := by
  subst hl hr
  refine ⟨h.balanced.bracket hkind, fun hready => ?_⟩
  refine (h.laid (hready.inside hkind h.balanced)).mono fun t ht => ?_
  simp [ht]

/-- A scope from the first token to the last, which closes it. -/
theorem inScope {t r : Token} {opening : Position} (h : Sits pairs ts es) (hhead : ts.head? = some t)
    (hlast : ts.getLast? = some r) (hr : r.kind ≠ .template)
    (hpair : (opening, r.pos) ∈ Bracket.pairsOf ts) :
    Sits pairs ts (Event.inScope t.pos opening es) := by
  refine ⟨h.balanced, fun hready => ?_⟩
  have hplaces := hready.places_span hhead hlast hr hpair
  have hne : ts.flatMap Token.deep ≠ [] :=
    List.ne_nil_of_mem ((Token.sublist_flatMap_deep ts).subset (List.mem_of_mem_head? hhead))
  have hscope := Laid.scope hne (List.Subset.refl _) hplaces (h.laid hready) .nil .nil
  rwa [List.append_nil] at hscope

/-- A scope from a token in front of a block to the end of the block. -/
theorem function {t : Token} {opening : Position} (h : Sits pairs (t :: ts) es) (h' : Sits pairs us fs)
    (hus : Braced us opening) :
    Sits pairs (t :: (ts ++ us)) (Event.inScope t.pos opening (es ++ fs)) := by
  obtain ⟨r, hlast, hr, hpair⟩ := hus.last
  have hall : Sits pairs (t :: (ts ++ us)) (es ++ fs) := h.append h'
  have hend : (t :: (ts ++ us)).getLast? = some r := by
    rw [← List.cons_append, List.getLast?_append, hlast, Option.some_or]
  refine hall.inScope rfl hend (by simp [hr]) ?_
  rw [← List.cons_append, Bracket.pairsOf_append h.balanced h'.balanced]
  exact List.mem_append_left _ hpair

theorem block {opening : Position} (h : Sits pairs ts es) (hts : Braced ts opening) :
    Sits pairs ts (Event.inScope opening opening es) := by
  obtain ⟨l, hhead, rfl⟩ := hts.first
  obtain ⟨r, hlast, hr, hpair⟩ := hts.last
  exact h.inScope hhead hlast (by simp [hr]) hpair

/-- Steps of tokens inside square brackets may come in front of the scope that the brackets make, if
    they are no steps of the scope. -/
theorem outOf {l r : Token} {ms : List Token} {inner gs : List Event} (hl : l.kind = .lbracket)
    (hr : r.kind = .rbracket) (hts : Sits pairs ts es) (hms : Sits pairs ms fs)
    (hus : Sits pairs us gs) (hinner : Sits pairs (ts ++ (ms ++ us)) inner)
    (hsub : inner ⊆ es ++ gs) :
    Sits pairs (l :: ((ts ++ (ms ++ us)) ++ [r])) (fs ++ Event.inScope l.pos l.pos inner) := by
  have hkind : Bracket.closer? l.kind = some r.kind := by rw [hl, hr]; rfl
  have hbracket := hinner.bracket hl hr rfl
  have hlast : (l :: ((ts ++ (ms ++ us)) ++ [r])).getLast? = some r := by
    rw [← List.cons_append, List.getLast?_concat]
  have hpair : (l.pos, r.pos) ∈ Bracket.pairsOf (l :: ((ts ++ (ms ++ us)) ++ [r])) := by
    rw [Bracket.pairsOf_bracket hkind hinner.balanced]
    exact List.mem_cons_self
  have hscope := hbracket.inScope rfl hlast (by simp [hr]) hpair
  refine ⟨hscope.balanced, fun hready => ?_⟩
  have hready' := hready.inside hkind hinner.balanced
  have hbehind := hready'.right hts.balanced (hms.balanced.append hus.balanced)
  have hlaid := hms.laid (hbehind.left hms.balanced hus.balanced)
  have hwithin : ms.flatMap Token.deep
      ⊆ (l :: ((ts ++ (ms ++ us)) ++ [r])).flatMap Token.deep := by
    intro t ht
    simp only [List.flatMap_cons, List.flatMap_append, List.mem_append, ht, true_or, or_true]
  -- the scope lies around the tokens, and its own steps stand in front of them or behind them
  have hfront := hts.laid (hready'.left hts.balanced (hms.balanced.append hus.balanced))
  have hback := hus.laid (hbehind.right hms.balanced hus.balanced)
  have hapart := hready'.apart.mono_right (foot_subset (left_subset ms us))
  have haround : foot (ms.flatMap Token.deep) ⊆ (pairs.span l.pos l.pos).places := by
    rw [hready.places_span rfl hlast (by simp [hr]) hpair]
    exact foot_subset hwithin
  have hopening : l ∈ (l :: ((ts ++ (ms ++ us)) ++ [r])).flatMap Token.deep :=
    (Token.sublist_flatMap_deep _).subset List.mem_cons_self
  refine hlaid.append hwithin (hscope.laid hready) (.inScope ?_ (.inr ⟨haround, l, hopening, hl, rfl⟩))
  exact ((hfront.avoids hapart.symm).append (hback.avoids hbehind.apart)).subset hsub

end Sits

end Welle
