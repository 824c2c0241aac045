import Welle.Proofs.TopLevel

set_option autoImplicit false

/-! # The spans of scopes

Where nothing is reported, a scope lies within each scope around it. Two scopes of which neither is
around the other lie apart, but for one case: the sequence of a comprehension is walked in front of
the scope of the comprehension and written inside of it. Then the later scope lies around the earlier
one (`Fitted`). So among the scopes at a position the way down takes the first one, and no scope that
it passes by is smaller. -/

namespace Welle

theorem Span.encloses_of_subset {s t : Span} (hproper : t.first ≤ t.last)
    (h : t.places ⊆ s.places) : s.encloses t = true := by
  have hfirst : t.first ∈ s.places := h (mem_places.2 ⟨Position.le_refl _, hproper⟩)
  have hlast : t.last ∈ s.places := h (mem_places.2 ⟨hproper, Position.le_refl _⟩)
  exact Bool.and_eq_true_iff.2 ⟨hfirst, hlast⟩

/-- How a span lies to that of an older scope: within it if that scope is around, and clear of it
    otherwise. -/
def Span.Fits (ts : List Token) (span old : Span) (around : Prop) : Prop :=
  (around → span.places ⊆ old.places) ∧ (¬around → span.Clears ts old.places)

/-- Steps that are laid out leave the scopes that they enter. -/
theorem Laid.nested {pairs : Bracket.Pairs} {ts : List Token} {es : List Event}
    (h : Laid pairs ts es) : Event.Nested es := by
  induction h with
  | nil => exact .nil
  | plain hplain _ _ ih => exact .plain hplain ih
  | scope _ _ _ _ _ _ ihinner ih => exact .scope ihinner ih

/-! ## Trees of scopes -/

namespace Scopes

/-- Each scope but the first is listed in the scope around it, behind older ones. -/
structure Tree (scopes : Scopes) : Prop where
  rooted : scopes.Rooted
  ordered : ∀ (k : Nat) (s : Scope), scopes[k]? = some s → s.children.Pairwise (· < ·)
  listed : ∀ (c : Nat) (t : Scope), scopes[c]? = some t → c = rootScope
    ∨ ∃ k s, t.parent = some k ∧ scopes[k]? = some s ∧ c ∈ s.children

/-- The spans of scopes are not empty and fit those of all older scopes. -/
structure Fitted (ts : List Token) (scopes : Scopes) : Prop where
  proper : ∀ (k : Nat) (s : Scope), scopes[k]? = some s → s.span.first ≤ s.span.last
  fits : ∀ (i j : Nat) (s t : Scope), i < j → scopes[i]? = some s → scopes[j]? = some t →
    t.span.Fits ts s.span (i ∈ scopes.chain j)

variable {scopes scopes' : Scopes} {ts : List Token} {pos : Position} {i j k c : Nat}

/-- A scope further in lies in or below a scope directly inside. -/
theorem Tree.exists_child (h : scopes.Tree) {t : Scope} (ht : scopes[j]? = some t)
    (hmem : k ∈ scopes.chain j) (hne : k ≠ j) :
    ∃ s c, scopes[k]? = some s ∧ c ∈ s.children ∧ c ∈ scopes.chain j := by
  induction j using Nat.strongRecOn generalizing t with
  | ind j ih =>
    rcases mem_chain_iff.1 hmem with heq | ⟨t', parent, ht', hparent, hlt, hmem⟩
    · exact absurd heq hne
    obtain rfl := Option.some.inj (ht'.symm.trans ht)
    rcases h.listed j t' ht with rfl | ⟨parent', s, hparent', hs, hchild⟩
    · cases hlt
    obtain rfl := Option.some.inj (hparent'.symm.trans hparent)
    by_cases hk : k = parent'
    · subst hk
      exact ⟨s, j, hs, hchild, mem_chain_self scopes j⟩
    · obtain ⟨s', c, hs', hc, hbelow⟩ := ih parent' hlt hs hmem hk
      exact ⟨s', c, hs', hc,
        mem_chain_iff.2 (.inr ⟨t', parent', ht', hparent, hlt, hbelow⟩)⟩

/-- All scopes are inside of the first one. -/
theorem Tree.root_mem_chain (h : scopes.Tree) {t : Scope} (ht : scopes[j]? = some t) :
    rootScope ∈ scopes.chain j := by
  induction j using Nat.strongRecOn generalizing t with
  | ind j ih =>
    rcases h.listed j t ht with rfl | ⟨k, s, hparent, hs, hchild⟩
    · exact mem_chain_self scopes _
    · obtain ⟨hlt, -⟩ := h.rooted k s hs j hchild
      exact mem_chain_iff.2 (.inr ⟨t, k, ht, hparent, hlt, ih k hlt hs⟩)

theorem Tree.of_extends (h : scopes.Tree)
    (hext : Extends (fun _ => False) scopes scopes') (hsize : scopes'.size = scopes.size) :
    scopes'.Tree where
  rooted := h.rooted.of_extends hext hsize
  ordered := by
    intro k s' hs'
    have hk := (Array.getElem?_eq_some_iff.1 hs').1
    obtain ⟨s, hs, -, -, -, hsame⟩ := hext.older (hsize ▸ hk) hs'
    rw [hsame not_false]
    exact h.ordered k s hs
  listed := by
    intro c t' ht'
    have hc := (Array.getElem?_eq_some_iff.1 ht').1
    obtain ⟨t, ht, hparent, -⟩ := hext.older (hsize ▸ hc) ht'
    refine (h.listed c t ht).imp_right ?_
    rintro ⟨k, s, hk, hs, hmem⟩
    obtain ⟨s', hs', -, -, -, hsame⟩ := hext k s hs
    exact ⟨k, s', hparent.trans hk, hs', hsame not_false ▸ hmem⟩

theorem Fitted.inside (h : scopes.Fitted ts) {s t : Scope} (hs : scopes[i]? = some s)
    (ht : scopes[j]? = some t) (hmem : i ∈ scopes.chain j) : t.span.places ⊆ s.span.places := by
  rcases Nat.eq_or_lt_of_le (le_of_mem_chain hmem) with rfl | hlt
  · rw [Option.some.inj (hs.symm.trans ht)]
  · exact (h.fits i j s t hlt hs ht).1 hmem

theorem Fitted.of_extends (h : scopes.Fitted ts) (hext : Extends (fun _ => False) scopes scopes')
    (hsize : scopes'.size = scopes.size) : scopes'.Fitted ts where
  proper := by
    intro k s' hs'
    have hk := (Array.getElem?_eq_some_iff.1 hs').1
    obtain ⟨s, hs, -, hspan, -⟩ := hext.older (hsize ▸ hk) hs'
    exact hspan ▸ h.proper k s hs
  fits := by
    intro i j s' t' hlt hs' ht'
    have hi := (Array.getElem?_eq_some_iff.1 hs').1
    have hj := (Array.getElem?_eq_some_iff.1 ht').1
    obtain ⟨s, hs, -, hspan, -⟩ := hext.older (hsize ▸ hi) hs'
    obtain ⟨t, ht, -, hspan', -⟩ := hext.older (hsize ▸ hj) ht'
    rw [hspan, hspan', hext.chain_eq (hsize ▸ hj)]
    exact h.fits i j s t hlt hs ht

/-! ## The way down to a position -/

/-- The way down takes the oldest scope that contains the position. -/
theorem Tree.le_of_childAt? (h : scopes.Tree) {s t : Scope} {d : Nat}
    (hc : scopes.childAt? pos k = some c) (hs : scopes[k]? = some s) (hd : d ∈ s.children)
    (ht : scopes[d]? = some t) (hpos : t.span.contains pos = true) : c ≤ d := by
  rw [childAt?, hs, Option.map_some, Option.getD_some, List.find?_eq_some_iff_append] at hc
  obtain ⟨-, front, back, hchildren, hfront⟩ := hc
  have hordered := h.ordered k s hs
  rw [hchildren] at hd hordered
  rcases List.mem_append.1 hd with hd | hd
  · have hnot := hfront d hd
    rw [ht, Option.any_some, hpos] at hnot
    cases hnot
  · rcases List.mem_cons.1 hd with rfl | hd
    · exact Nat.le_refl _
    · have hbehind := List.rel_of_pairwise_cons (List.pairwise_append.1 hordered).2.1 hd
      exact Nat.le_of_lt hbehind

theorem childAt?_contains (hc : scopes.childAt? pos k = some c) :
    ∃ t, scopes[c]? = some t ∧ t.span.contains pos = true := by
  unfold childAt? at hc
  have hfound := List.find?_some hc
  obtain ⟨hsome, hcontains⟩ := (Option.any_eq_true_iff_get _ _).1 hfound
  exact ⟨_, Option.some_get hsome |>.symm, hcontains⟩

theorem descend_of_childAt?_none (h : scopes.childAt? pos k = none) : scopes.descend pos k = k := by
  rw [descend]
  unfold childAt? at h
  simp [h]

/-- A scope at the position that is further in lies in or below a scope directly inside, which is at
    the position, too. -/
theorem Fitted.exists_child (h : scopes.Fitted ts) (htree : scopes.Tree) {u : Scope}
    (hu : scopes[j]? = some u) (hmem : k ∈ scopes.chain j) (hne : k ≠ j)
    (hpos : u.span.contains pos = true) : ∃ s d v, scopes[k]? = some s ∧ d ∈ s.children
      ∧ d ∈ scopes.chain j ∧ scopes[d]? = some v ∧ v.span.contains pos = true := by
  obtain ⟨s, d, hs, hd, hbelow⟩ := htree.exists_child hu hmem hne
  obtain ⟨-, v, hv, -⟩ := htree.rooted k s hs d hd
  exact ⟨s, d, v, hs, hd, hbelow, hv, h.inside hv hu hbelow hpos⟩

/-- A scope at the position that the way down passes by lies around the scope that it takes. -/
theorem Fitted.around_childAt? (h : scopes.Fitted ts) (htree : scopes.Tree) {t u : Scope}
    (hc : scopes.childAt? pos k = some c) (ht : scopes[c]? = some t)
    (hcontains : t.span.contains pos = true) (hu : scopes[j]? = some u) (hmem : k ∈ scopes.chain j)
    (hpos : u.span.contains pos = true) (hnot : c ∉ scopes.chain j) :
    t.span.places ⊆ u.span.places := by
  by_cases hkj : k = j
  · subst hkj
    obtain ⟨hlt, t', ht', hparent⟩ := child_of_childAt? htree.rooted hc
    exact h.inside hu ht
      (mem_chain_iff.2 (.inr ⟨t', k, ht', hparent, hlt, mem_chain_self scopes k⟩))
  · -- another scope inside of `k` contains the position, so it is younger, as all below it
    obtain ⟨s, d, v, hs, hd, hbelow, hv, hvpos⟩ := h.exists_child htree hu hmem hkj hpos
    have hcj : c < j := by
      have hcd := htree.le_of_childAt? hc hs hd hv hvpos
      have hdj := le_of_mem_chain hbelow
      have hne : c ≠ d := fun heq => hnot (heq ▸ hbelow)
      omega
    rcases (h.fits c j t u hcj ht hu).2 hnot with hapart | ⟨haround, -⟩
    · exact absurd hpos (Set.disjoint_left.1 hapart hcontains)
    · exact haround

/-- The scope at a position below a scope lies within all others there that contain it. -/
theorem Fitted.descend (h : scopes.Fitted ts) (htree : scopes.Tree) {s : Scope}
    (hs : scopes[k]? = some s) (hpos : s.span.contains pos = true) :
    ∃ t, scopes[scopes.descend pos k]? = some t ∧ t.span.contains pos = true
      ∧ ∀ j u, scopes[j]? = some u → k ∈ scopes.chain j → u.span.contains pos = true →
        t.span.places ⊆ u.span.places := by
  induction hn : scopes.size - k using Nat.strongRecOn generalizing k s with
  | ind n ih =>
    cases hc : scopes.childAt? pos k with
    | none =>
      rw [descend_of_childAt?_none hc]
      refine ⟨s, hs, hpos, fun j u hu hmem hupos => ?_⟩
      by_cases hkj : k = j
      · subst hkj
        rw [Option.some.inj (hs.symm.trans hu)]
      · obtain ⟨s', d, v, hs', hd, -, hv, hvpos⟩ := h.exists_child htree hu hmem hkj hupos
        rw [childAt?, hs', Option.map_some, Option.getD_some, List.find?_eq_none] at hc
        have hnot := hc d hd
        rw [hv, Option.any_some] at hnot
        exact absurd hvpos hnot
    | some c =>
      obtain ⟨hlt, -⟩ := child_of_childAt? htree.rooted hc
      obtain ⟨t, ht, hcontains⟩ := childAt?_contains hc
      have hsize := (Array.getElem?_eq_some_iff.1 ht).1
      obtain ⟨v, hv, hvpos, hleast⟩ := ih (scopes.size - c) (by omega) ht hcontains rfl
      rw [descend_of_childAt? htree.rooted hc]
      refine ⟨v, hv, hvpos, fun j u hu hmem hupos => ?_⟩
      by_cases hbelow : c ∈ scopes.chain j
      · exact hleast j u hu hbelow hupos
      · have haround := h.around_childAt? htree hc ht hcontains hu hmem hupos hbelow
        exact (h.inside ht hv (mem_chain_descend htree.rooted pos c)).trans haround

end Scopes

/-! ## The tree of a walk -/

namespace Walk

open Scopes (Extends Fitted Tree)

variable {w w' : Walk} {ts : List Token} {span : Span}

theorem tree_enter (hw : w.Valid) (h : w.scopes.Tree) (span : Span) : (w.enter span).scopes.Tree where
  rooted := rooted_enter h.rooted span
  ordered := by
    intro k s' hs'
    rcases enter_cases hs' with ⟨-, rfl⟩ | ⟨-, s, hs, -, -, hsame | ⟨-, hmore⟩⟩
    · exact .nil
    · exact hsame ▸ h.ordered k s hs
    · rw [hmore, List.pairwise_append]
      refine ⟨h.ordered k s hs, List.pairwise_singleton _ _, fun c hc d hd => ?_⟩
      obtain ⟨-, t, ht, -⟩ := h.rooted k s hs c hc
      rw [List.mem_singleton.1 hd]
      exact (Array.getElem?_eq_some_iff.1 ht).1
  listed := by
    intro c t' ht'
    rcases enter_cases ht' with ⟨rfl, rfl⟩ | ⟨-, t, ht, hparent, -⟩
    · have hcurrent := enter_getElem? w span hw.current
      rw [if_pos rfl, Array.getElem?_eq_getElem hw.current] at hcurrent
      exact .inr ⟨w.current, _, rfl, hcurrent, by simp⟩
    · refine (h.listed c t ht).imp_right ?_
      rintro ⟨k, s, hk, hs, hmem⟩
      obtain ⟨s', hs', -, -, hprefix, -⟩ := extends_enter w span k s hs
      exact ⟨k, s', hparent.trans hk, hs', hprefix.subset hmem⟩

/-- A walk builds a tree of scopes. -/
theorem tree_run (hw : w.Valid) (h : w.scopes.Tree) (pairs : Bracket.Pairs) (es : List Event) :
    (w.run pairs es).scopes.Tree := by
  induction es generalizing w with
  | nil => exact h
  | cons e es ih =>
    refine ih (hw.step pairs e) ?_
    by_cases hplain : e.isPlain = true
    · have hstays := stays_step hw pairs hplain
      exact h.of_extends hstays.scopes hstays.size
    · cases e with
      | enter start opening => exact tree_enter hw h _
      | leave => exact h
      | _ => exact absurd rfl hplain

/-! ## The spans of a walk -/

/-- A span that a walk may enter: it is not empty and fits those of all scopes. -/
structure Admits (w : Walk) (ts : List Token) (span : Span) : Prop where
  proper : span.first ≤ span.last
  fits : ∀ (k : Nat) (s : Scope), w.scopes[k]? = some s →
    span.Fits ts s.span (k ∈ w.scopes.chain w.current)

theorem mem_chain_enter (hw : w.Valid) {k : Nat} :
    k ∈ (w.enter span).scopes.chain w.scopes.size
      ↔ k = w.scopes.size ∨ k ∈ w.scopes.chain w.current := by
  rw [Scopes.mem_chain_iff, enter_getElem?_size]
  constructor
  · rintro (rfl | ⟨s, parent, hs, hparent, -, hmem⟩)
    · exact .inl rfl
    · cases hs
      cases hparent
      exact .inr ((extends_enter w span).chain_eq hw.current ▸ hmem)
  · rintro (rfl | hmem)
    · exact .inl rfl
    · rw [← (extends_enter w span).chain_eq hw.current] at hmem
      exact .inr ⟨_, _, rfl, rfl, hw.current, hmem⟩

theorem fitted_enter (hw : w.Valid) (h : w.scopes.Fitted ts) (hadmits : w.Admits ts span) :
    (w.enter span).scopes.Fitted ts where
  proper := by
    intro k s' hs'
    rcases enter_cases hs' with ⟨-, rfl⟩ | ⟨-, s, hs, -, hspan, -⟩
    · exact hadmits.proper
    · exact hspan ▸ h.proper k s hs
  fits := by
    intro i j s' t' hlt hs' ht'
    rcases enter_cases ht' with ⟨rfl, rfl⟩ | ⟨hj, t, ht, -, hspan', -⟩
    · rcases enter_cases hs' with ⟨rfl, -⟩ | ⟨-, s, hs, -, hspan, -⟩
      · exact absurd hlt (Nat.lt_irrefl _)
      · rw [hspan, mem_chain_enter hw, or_iff_right (Nat.ne_of_lt hlt)]
        exact hadmits.fits i s hs
    · rcases enter_cases hs' with ⟨rfl, -⟩ | ⟨-, s, hs, -, hspan, -⟩
      · omega
      · rw [hspan, hspan', (extends_enter w span).chain_eq hj]
        exact h.fits i j s t hlt hs ht

/-- A span that a walk may enter may also be entered from a new scope that lies around it. -/
theorem Admits.enter {inner : Span} (h : w.Admits ts inner) (hw : w.Valid)
    (hsub : inner.places ⊆ span.places) : (w.enter span).Admits ts inner where
  proper := h.proper
  fits := by
    intro k s' hs'
    show inner.Fits ts s'.span (k ∈ (w.enter span).scopes.chain w.scopes.size)
    rw [mem_chain_enter hw]
    rcases enter_cases hs' with ⟨rfl, rfl⟩ | ⟨hk, s, hs, -, hspan, -⟩
    · exact ⟨fun _ => hsub, fun hnot => absurd (.inl rfl) hnot⟩
    · rw [hspan, or_iff_right (Nat.ne_of_lt hk)]
      exact h.fits k s hs

/-- A walk that came back may enter a span that it could enter before, if the span keeps clear of the
    scopes that were made meanwhile. -/
theorem Admits.later (h : w.Admits ts span) (hw : w.Valid) (hreturns : w.Returns w')
    (hnew : ∀ (k : Nat) (s : Scope), w.scopes.size ≤ k → w'.scopes[k]? = some s →
      span.Clears ts s.span.places) : w'.Admits ts span where
  proper := h.proper
  fits := by
    intro k s' hs'
    rw [hreturns.current, hreturns.scopes.chain_eq hw.current]
    rcases Nat.lt_or_ge k w.scopes.size with hk | hk
    · obtain ⟨s, hs, -, hspan, -⟩ := hreturns.scopes.older hk hs'
      rw [hspan]
      exact h.fits k s hs
    · refine ⟨fun hmem => ?_, fun _ => hnew k s' hk hs'⟩
      have hle := Scopes.le_of_mem_chain hmem
      have hcurrent := hw.current
      omega

/-- The new scopes of a walk are those that its steps enter, in their order. -/
theorem spans_run (hw : w.Valid) (pairs : Bracket.Pairs) (es : List Event) (k : Nat) :
    ((w.run pairs es).scopes[w.scopes.size + k]?).map (·.span) = (Event.spans pairs es)[k]? := by
  induction es generalizing w k with
  | nil => simp [run, Event.spans]
  | cons e es ih =>
    by_cases hplain : e.isPlain = true
    · rw [Event.spans_plain hplain, ← (stays_step hw pairs hplain).size]
      exact ih (hw.step pairs e) k
    · cases e with
      | enter start opening =>
        have hsize : (w.enter (pairs.span start opening)).scopes.size = w.scopes.size + 1 := by
          simp [enter]
        have hvalid := hw.enter (pairs.span start opening)
        show ((((w.enter (pairs.span start opening)).run pairs es).scopes)[_]?).map _
          = (pairs.span start opening :: Event.spans pairs es)[k]?
        cases k with
        | zero =>
          obtain ⟨s, hs, -, hspan, -⟩ :=
            extends_run hvalid pairs es _ _ (enter_getElem?_size w (pairs.span start opening))
          rw [Nat.add_zero, hs, Option.map_some, hspan, List.getElem?_cons_zero]
        | succ k =>
          rw [List.getElem?_cons_succ, ← ih hvalid k, hsize]
          congr 2
          omega
      | leave => exact ih hw.leave k
      | _ => exact absurd rfl hplain

theorem span_run (hw : w.Valid) (pairs : Bracket.Pairs) {es : List Event} {k : Nat} {s' : Scope}
    (hk : w.scopes.size ≤ k) (h : (w.run pairs es).scopes[k]? = some s') :
    s'.span ∈ Event.spans pairs es := by
  have hspan := spans_run hw pairs es (k - w.scopes.size)
  rw [Nat.add_sub_cancel' hk, h] at hspan
  exact List.mem_of_getElem? hspan.symm

/-- The scopes of a walk along steps that are laid out fit each other. -/
theorem fitted_run {pairs : Bracket.Pairs} {us : List Token} {es : List Event}
    (hlaid : Laid pairs us es) (hus : us ⊆ ts) (hw : w.Valid) (h : w.scopes.Fitted ts)
    (hadmits : ∀ span ∈ Event.spans pairs es, w.Admits ts span) : (w.run pairs es).scopes.Fitted ts := by
  -- along the steps, the walk goes on to admit the spans of all steps that are left
  induction hlaid generalizing w with
  | nil => exact h
  | @plain us e es hplain _ _ ih =>
    rw [Event.spans_plain hplain] at hadmits
    have hstays := stays_step hw pairs hplain
    refine ih hus (hw.step pairs e) (h.of_extends hstays.scopes hstays.size) fun span hspan => ?_
    refine (hadmits span hspan).later hw hstays.returns fun k s hk hs => ?_
    have hlt := (Array.getElem?_eq_some_iff.1 hs).1
    rw [hstays.size] at hlt
    omega
  | @scope us vs start opening inner es _ hvs hplaces hinner hbehind _ ihinner ih =>
    rw [Event.spans_append, Event.spans_inScope, List.cons_append, List.forall_mem_cons,
      List.forall_mem_append] at hadmits
    obtain ⟨hspan, hwithin, hrest⟩ := hadmits
    have hvalid := hw.enter (pairs.span start opening)
    have hreturns := (Returns.run hinner.nested hvalid pairs).leave
    have hfitted := ihinner (List.Subset.trans hvs hus) hvalid (fitted_enter hw h hspan)
      fun span hmem => (hwithin span hmem).enter hw (hplaces ▸ (hinner.spans span hmem).2)
    rw [run_append, run_inScope]
    refine ih hus (hvalid.run pairs inner).leave hfitted fun span hmem => ?_
    -- the new scopes lie within the places that later steps avoid
    refine (hrest span hmem).later hw hreturns fun k s hk hs => ?_
    have hnew : s.span ∈ Event.spans pairs (Event.inScope start opening inner) := by
      rw [← run_inScope] at hs
      exact span_run hw pairs hk hs
    rw [Event.spans_inScope, List.mem_cons] at hnew
    refine (hbehind.spans span hmem).mono hus ?_
    rcases hnew with heq | hnew
    · rw [heq, hplaces]
    · exact (hinner.spans s.span hnew).2

theorem getElem?_start {stop : Position} {k : Nat} {s : Scope} (h : (start stop).scopes[k]? = some s) :
    k = rootScope ∧ s = ⟨none, [], ⟨.start, stop⟩, []⟩ := by
  grind [start, rootScope]

theorem tree_start (stop : Position) : (start stop).scopes.Tree where
  rooted := (sighted_start stop).rooted
  ordered := by
    intro k s hs
    obtain ⟨-, rfl⟩ := getElem?_start hs
    exact .nil
  listed := fun _ _ ht => .inl (getElem?_start ht).1

theorem fitted_start {stop : Position} (hstop : .start ≤ stop) : (start stop).scopes.Fitted ts where
  proper := by
    intro k s hs
    rw [(getElem?_start hs).2]
    exact hstop
  fits := by
    intro i j s t hlt hs ht
    obtain ⟨rfl, -⟩ := getElem?_start hs
    obtain ⟨rfl, -⟩ := getElem?_start ht
    exact absurd hlt (Nat.lt_irrefl _)

theorem admits_start {stop : Position} (hproper : span.first ≤ span.last)
    (hsub : span.places ⊆ (Span.mk .start stop).places) : (start stop).Admits ts span where
  proper := hproper
  fits := by
    intro k s hs
    obtain ⟨rfl, rfl⟩ := getElem?_start hs
    exact ⟨fun _ => hsub, fun hnot => absurd (Scopes.mem_chain_self _ _) hnot⟩

end Walk

/-! ## Texts -/

namespace Analysis

variable {text : String}

/-- The scopes of a text are a tree. -/
theorem tree_ofText (text : String) : (ofText text).scopes.Tree :=
  Walk.tree_run (Walk.valid_start _) (Walk.tree_start _) _ _

theorem root_ofText (text : String) : ∃ s, (ofText text).scopes[rootScope]? = some s
    ∧ s.span = ⟨.start, endPosition text⟩ := by
  have hwalk := Walk.extends_run (Walk.valid_start (endPosition text)) (.ofText text)
    (Program.parse text).program.events
  obtain ⟨s, hs, -, hspan, -⟩ := hwalk rootScope _ rfl
  exact ⟨s, hs, hspan⟩

/-- Where nothing is reported, the scopes of a text fit each other. -/
theorem fitted_ofText (h : (Program.parse text).diagnostics = []) :
    (ofText text).scopes.Fitted ((Token.tokenize text).flatMap Token.deep) := by
  have hlaid := Program.laid_events h
  have hsub := ((Grammar.content_sublist (Token.tokenize text)).flatMap Token.deep).subset
  have hspread := Token.spread_deep .start text.toList
  have hstop := Position.le_after .start text.toList
  rw [after_start_eq_endPosition, String.ofList_toList] at hspread hstop
  refine Walk.fitted_run hlaid hsub (Walk.valid_start _) (Walk.fitted_start hstop) ?_
  intro span hspan
  obtain ⟨hproper, hplaces⟩ := hlaid.spans span hspan
  refine Walk.admits_start hproper (hplaces.trans ?_)
  rintro p ⟨⟨a, ha, hap⟩, b, hb, hpb⟩
  exact Span.mem_places.2 ⟨Position.le_trans (hspread.first a (hsub ha)) hap,
    Position.le_trans hpb (hspread.last b (hsub hb))⟩

/-- Where nothing is reported, the scopes directly inside of a scope lie within its span. Two of them
    have a position in common exactly if the later one starts at a square bracket, as comprehensions
    do, and lies around the earlier one. -/
theorem children_overlap_iff (h : (Program.parse text).diagnostics = []) {k : Nat} {s : Scope}
    (hs : (ofText text).scopes[k]? = some s) :
    (∀ c ∈ s.children, ∃ t, (ofText text).scopes[c]? = some t ∧ s.span.encloses t.span = true)
      ∧ s.children.Pairwise fun c d => ∀ t u, (ofText text).scopes[c]? = some t →
        (ofText text).scopes[d]? = some u →
        ((∃ pos, t.span.contains pos = true ∧ u.span.contains pos = true)
          ↔ u.span.encloses t.span = true ∧ ∃ b ∈ (Token.tokenize text).flatMap Token.deep,
            b.kind = .lbracket ∧ b.pos = u.span.first) := by
  have htree := tree_ofText text
  have hfitted := fitted_ofText h
  have hinside {c : Nat} (hc : c ∈ s.children) : k < c ∧ ∃ t, (ofText text).scopes[c]? = some t
      ∧ ∀ i, i ∈ (ofText text).scopes.chain c ↔ i = c ∨ i ∈ (ofText text).scopes.chain k := by
    obtain ⟨hlt, t, ht, hparent⟩ := htree.rooted k s hs c hc
    refine ⟨hlt, t, ht, fun i => ?_⟩
    rw [Scopes.mem_chain_iff]
    simp [ht, hparent, hlt]
  refine ⟨fun c hc => ?_, (htree.ordered k s hs).imp_of_mem fun {c d} hc hd hlt t u ht hu => ?_⟩
  · obtain ⟨-, t, ht, hchain⟩ := hinside hc
    have hmem := (hchain k).2 (.inr (Scopes.mem_chain_self _ k))
    exact ⟨t, ht, Span.encloses_of_subset (hfitted.proper c t ht) (hfitted.inside hs ht hmem)⟩
  · have hproper := hfitted.proper c t ht
    have hnot : c ∉ (ofText text).scopes.chain d := by
      obtain ⟨hkc, -⟩ := hinside hc
      obtain ⟨-, -, -, hchain⟩ := hinside hd
      rw [hchain]
      rintro (rfl | hmem)
      · exact Nat.lt_irrefl _ hlt
      · exact Nat.not_lt_of_le (Scopes.le_of_mem_chain hmem) hkc
    constructor
    · -- of two siblings that share a place the later one lies around the earlier one
      rintro ⟨pos, hpos, hpos'⟩
      rcases (hfitted.fits c d t u hlt ht hu).2 hnot with hapart | ⟨haround, hbracket⟩
      · exact absurd hpos' (Set.disjoint_left.1 hapart hpos)
      · exact ⟨Span.encloses_of_subset hproper haround, hbracket⟩
    · rintro ⟨hencloses, -⟩
      exact ⟨t.span.first, Span.mem_places.2 ⟨Position.le_refl _, hproper⟩,
        (Bool.and_eq_true_iff.1 hencloses).1⟩

/-- A comprehension whose sequence is a comprehension. -/
def nestedSequence : String := "[y for y in [z for z in a]]"

theorem scopes_nestedSequence : (Program.parse nestedSequence).diagnostics = []
    ∧ (ofText nestedSequence).scopes = #[⟨none, [1, 2], ⟨⟨1, 1⟩, ⟨1, 28⟩⟩, []⟩,
      ⟨some 0, [], ⟨⟨1, 13⟩, ⟨1, 26⟩⟩, [("z", 0)]⟩, ⟨some 0, [], ⟨⟨1, 1⟩, ⟨1, 27⟩⟩, [("y", 1)]⟩] :=
  ⟨List.isEmpty_iff.1 (by decide +kernel), by decide +kernel⟩

/-- The inner comprehension is the earlier one. It lies in the outer one, and both lie directly in the
    file. -/
theorem children_overlap_iff_sequence :
    ∃ s t u, (ofText nestedSequence).scopes = #[s, t, u] ∧ s.children = [1, 2]
      ∧ u.span.encloses t.span = true
      ∧ ∃ b ∈ (Token.tokenize nestedSequence).flatMap Token.deep,
        b.kind = .lbracket ∧ b.pos = u.span.first := by
  obtain ⟨hclean, hscopes⟩ := scopes_nestedSequence
  refine ⟨_, _, _, hscopes, rfl, ?_⟩
  have hpairs := (children_overlap_iff hclean (k := rootScope) (by rw [hscopes]; rfl)).2
  have hoverlap := List.rel_of_pairwise_cons hpairs (List.mem_singleton_self 2) _ _
    (by rw [hscopes]; rfl) (by rw [hscopes]; rfl)
  exact hoverlap.1 ⟨⟨1, 20⟩, by decide, by decide⟩

/-- The scope at a position of a text without reports is the innermost one: it contains the position,
    and it lies within every other scope that does. -/
theorem scopeAt_innermost (h : (Program.parse text).diagnostics = []) {pos : Position}
    (hstart : .start ≤ pos) (hstop : pos ≤ endPosition text) :
    ∃ s, (ofText text).scopes[(ofText text).scopeAt pos]? = some s ∧ s.span.contains pos = true
      ∧ ∀ (k : Nat) (t : Scope), (ofText text).scopes[k]? = some t → t.span.contains pos = true →
        t.span.encloses s.span = true := by
  have htree := tree_ofText text
  have hfitted := fitted_ofText h
  obtain ⟨root, hroot, hspan⟩ := root_ofText text
  -- the way down starts in the file, which all scopes are inside of
  have hpos : root.span.contains pos = true := by
    rw [hspan]
    exact Span.mem_places.2 ⟨hstart, hstop⟩
  obtain ⟨s, hs, hcontains, hleast⟩ := hfitted.descend htree hroot hpos
  refine ⟨s, hs, hcontains, fun k t ht hpos => ?_⟩
  exact Span.encloses_of_subset (hfitted.proper _ s hs) (hleast k t ht (htree.root_mem_chain ht) hpos)

/-- In the sequence of a comprehension the way down takes the scope of the sequence. -/
theorem scopeAt_innermost_sequence :
    ∃ s, (ofText nestedSequence).scopes[(ofText nestedSequence).scopeAt ⟨1, 20⟩]? = some s
      ∧ s.span = ⟨⟨1, 13⟩, ⟨1, 26⟩⟩ ∧ s.span.contains ⟨1, 20⟩ = true
      ∧ ∀ (k : Nat) (t : Scope), (ofText nestedSequence).scopes[k]? = some t →
        t.span.contains ⟨1, 20⟩ = true → t.span.encloses s.span = true := by
  have hscope : (ofText nestedSequence).scopeAt ⟨1, 20⟩ = 1 := by decide +kernel
  obtain ⟨hclean, hscopes⟩ := scopes_nestedSequence
  have hstart : Position.start ≤ ⟨1, 20⟩ := by decide
  have hstop : (⟨1, 20⟩ : Position) ≤ endPosition nestedSequence := by decide +kernel
  obtain ⟨s, hs, hcontains, hleast⟩ := scopeAt_innermost hclean hstart hstop
  refine ⟨s, hs, ?_, hcontains, hleast⟩
  rw [hscope, hscopes] at hs
  cases hs
  rfl

end Analysis

end Welle
