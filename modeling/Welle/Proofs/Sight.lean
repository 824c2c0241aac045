import Mathlib.Data.List.Find
import Welle.Proofs.Placement
import Welle.Proofs.Walk

set_option autoImplicit false

/-! # Scopes of a walk and scopes at a position

A walk is in the scope that its steps have entered, and `Scopes.descend` looks for the scope at a
position by the spans of scopes. The two differ: what is walked in one scope may lie inside of
another, as the sequence of a comprehension does. But the way down to a position never misses the
scope that the walk was in: where the steps are laid out, the first scope on the way that contains a
name is the one that was entered for it, and later scopes come behind it. -/

namespace Welle

/-! ## Trees of scopes -/

namespace Scopes

/-- The first scope directly inside of a scope that contains a position. -/
def childAt? (scopes : Scopes) (pos : Position) (id : Nat) : Option Nat :=
  ((scopes[id]?.map (·.children)).getD []).find? fun child =>
    scopes[child]?.any (·.span.contains pos)

/-- The scopes inside of a scope are younger, and they know the scope around them. -/
def Rooted (scopes : Scopes) : Prop :=
  ∀ (k : Nat) (s : Scope), scopes[k]? = some s → ∀ c ∈ s.children,
    k < c ∧ ∃ t, scopes[c]? = some t ∧ t.parent = some k

/-- The scopes on the way down to a position. -/
inductive Reaches (scopes : Scopes) (pos : Position) : Nat → Prop where
  | root : Reaches scopes pos rootScope
  | child {k c : Nat} :
      Reaches scopes pos k → scopes.childAt? pos k = some c → Reaches scopes pos c

variable {scopes : Scopes} {pos : Position} {k c x y z : Nat}

theorem mem_chain_self (scopes : Scopes) (k : Nat) : k ∈ scopes.chain k := by
  rw [chain]
  exact List.mem_cons_self

theorem mem_chain_iff : x ∈ scopes.chain z ↔
    x = z ∨ ∃ s parent, scopes[z]? = some s ∧ s.parent = some parent ∧ parent < z
      ∧ x ∈ scopes.chain parent := by
  rw [chain, List.mem_cons]
  cases hz : scopes[z]? with
  | none => simp
  | some s =>
    cases hparent : s.parent with
    | none => simp [hparent]
    | some parent => by_cases hlt : parent < z <;> simp [hparent, hlt]

theorem mem_chain_trans (h : x ∈ scopes.chain y) (h' : y ∈ scopes.chain z) : x ∈ scopes.chain z := by
  induction z using Nat.strongRecOn with
  | ind z ih =>
    rcases mem_chain_iff.1 h' with rfl | ⟨s, parent, hs, hparent, hlt, hy⟩
    · exact h
    · exact mem_chain_iff.2 (.inr ⟨s, parent, hs, hparent, hlt, ih parent hlt hy⟩)

theorem le_of_mem_chain (h : x ∈ scopes.chain z) : x ≤ z := by
  induction z using Nat.strongRecOn with
  | ind z ih =>
    rcases mem_chain_iff.1 h with rfl | ⟨s, parent, -, -, hlt, hmem⟩
    · exact Nat.le_refl _
    · exact Nat.le_trans (ih parent hlt hmem) (Nat.le_of_lt hlt)

theorem child_of_childAt? (hrooted : scopes.Rooted) (h : scopes.childAt? pos k = some c) :
    k < c ∧ ∃ t, scopes[c]? = some t ∧ t.parent = some k := by
  have hmem := List.mem_of_find?_eq_some h
  cases hk : scopes[k]? with
  | none => simp [hk] at hmem
  | some s => exact hrooted k s hk c (by simpa [hk] using hmem)

theorem descend_of_childAt? (hrooted : scopes.Rooted) (h : scopes.childAt? pos k = some c) :
    scopes.descend pos k = scopes.descend pos c := by
  obtain ⟨hlt, t, ht, -⟩ := child_of_childAt? hrooted h
  have hsize := (Array.getElem?_eq_some_iff.1 ht).1
  rw [descend]
  unfold childAt? at h
  simp [h, hlt, hsize]

/-- A scope is around the scope at a position below it. -/
theorem mem_chain_descend (hrooted : scopes.Rooted) (pos : Position) (k : Nat) :
    k ∈ scopes.chain (scopes.descend pos k) := by
  fun_induction descend scopes pos k with
  | case1 id children child hfind hlt ih =>
    obtain ⟨-, t, ht, hparent⟩ := child_of_childAt? hrooted hfind
    have hmem : id ∈ scopes.chain child :=
      mem_chain_iff.2 (.inr ⟨t, id, ht, hparent, hlt.1, mem_chain_self scopes id⟩)
    exact mem_chain_trans hmem ih
  | case2 id children child hfind hlt => exact mem_chain_self scopes id
  | case3 id children hfind => exact mem_chain_self scopes id

/-- The scopes on the way down to a position are the ones around the scope at the position. -/
theorem Reaches.mem_chain (hrooted : scopes.Rooted) (h : scopes.Reaches pos c) :
    c ∈ scopes.chain (scopes.descend pos rootScope) := by
  have hdescend : scopes.descend pos rootScope = scopes.descend pos c := by
    induction h with
    | root => rfl
    | child _ hchild ih => rw [ih, descend_of_childAt? hrooted hchild]
  rw [hdescend]
  exact mem_chain_descend hrooted pos c

/-! ## Growth -/

/-- The scopes of a later walk: more of them, and more scopes inside of those that may grow. -/
def Extends (grow : Nat → Prop) (scopes scopes' : Scopes) : Prop :=
  ∀ (k : Nat) (s : Scope), scopes[k]? = some s → ∃ s', scopes'[k]? = some s'
    ∧ s'.parent = s.parent ∧ s'.span = s.span ∧ s.children <+: s'.children
    ∧ (¬grow k → s'.children = s.children)

namespace Extends

variable {grow grow' : Nat → Prop} {scopes' scopes'' : Scopes}

theorem refl (grow : Nat → Prop) (scopes : Scopes) : Extends grow scopes scopes :=
  fun _ s hs => ⟨s, hs, rfl, rfl, List.prefix_rfl, fun _ => rfl⟩

theorem trans (h : Extends grow scopes scopes') (h' : Extends grow' scopes' scopes'')
    (hgrow : ∀ k < scopes.size, grow' k → grow k) : Extends grow scopes scopes'' := by
  intro k s hs
  obtain ⟨s', hs', hparent, hspan, hchildren, hsame⟩ := h k s hs
  obtain ⟨s'', hs'', hparent', hspan', hchildren', hsame'⟩ := h' k s' hs'
  refine ⟨s'', hs'', hparent'.trans hparent, hspan'.trans hspan, hchildren.trans hchildren', ?_⟩
  intro hk
  have hlt := (Array.getElem?_eq_some_iff.1 hs).1
  rw [hsame' fun hk' => hk (hgrow k hlt hk'), hsame hk]

theorem mem_chain (h : Extends grow scopes scopes') (hx : x ∈ scopes.chain z) :
    x ∈ scopes'.chain z := by
  induction z using Nat.strongRecOn with
  | ind z ih =>
    rcases mem_chain_iff.1 hx with rfl | ⟨s, parent, hs, hparent, hlt, hx⟩
    · exact mem_chain_self scopes' x
    · obtain ⟨s', hs', hparent', -⟩ := h z s hs
      exact mem_chain_iff.2 (.inr ⟨s', parent, hs', hparent'.trans hparent, hlt, ih parent hlt hx⟩)

/-- An older scope keeps what it has, and it may get more scopes inside. -/
theorem older (h : Extends grow scopes scopes') (hk : k < scopes.size)
    {s' : Scope} (hs' : scopes'[k]? = some s') : ∃ s, scopes[k]? = some s ∧ s'.parent = s.parent
      ∧ s'.span = s.span ∧ s.children <+: s'.children ∧ (¬grow k → s'.children = s.children) := by
  obtain ⟨s'', hs'', hold⟩ := h k _ (Array.getElem?_eq_getElem hk)
  obtain rfl := Option.some.inj (hs''.symm.trans hs')
  exact ⟨_, Array.getElem?_eq_getElem hk, hold⟩

/-- The scopes around an older scope stay the same. -/
theorem chain_eq (h : Extends grow scopes scopes') (hk : k < scopes.size) :
    scopes'.chain k = scopes.chain k := by
  induction k using Nat.strongRecOn with
  | ind k ih =>
    have hs := Array.getElem?_eq_getElem hk
    obtain ⟨s', hs', hparent, -⟩ := h k _ hs
    rw [chain, chain.eq_1 scopes, hs, hs', Option.bind_some, Option.bind_some, hparent]
    cases scopes[k].parent with
    | none => rfl
    | some parent =>
      by_cases hlt : parent < k
      · simp only [hlt, if_true, ih parent hlt (Nat.lt_trans hlt hk)]
      · simp only [hlt, if_false]

/-- What was inside of a scope contains the same positions later. -/
theorem contains (h : Extends grow scopes scopes') {t : Scope} (ht : scopes[c]? = some t) :
    scopes'[c]?.any (·.span.contains pos) = scopes[c]?.any (·.span.contains pos) := by
  obtain ⟨t', ht', -, hspan, -⟩ := h c t ht
  rw [ht, ht', Option.any_some, Option.any_some, hspan]

theorem find?_children (h : Extends grow scopes scopes') (hrooted : scopes.Rooted) {s : Scope}
    (hk : scopes[k]? = some s) (pos : Position) :
    s.children.find? (fun child => scopes'[child]?.any (·.span.contains pos))
      = scopes.childAt? pos k := by
  rw [childAt?, hk, Option.map_some, Option.getD_some]
  refine List.find?_congr fun child hchild => ?_
  obtain ⟨-, t, ht, -⟩ := hrooted k s hk child hchild
  exact h.contains ht

theorem childAt?_eq_some (h : Extends grow scopes scopes') (hrooted : scopes.Rooted)
    (hc : scopes.childAt? pos k = some c) : scopes'.childAt? pos k = some c := by
  cases hk : scopes[k]? with
  | none => simp [childAt?, hk] at hc
  | some s =>
    obtain ⟨s', hs', -, -, ⟨more, hchildren⟩, -⟩ := h k s hk
    rw [childAt?, hs', Option.map_some, Option.getD_some, ← hchildren, List.find?_append,
      h.find?_children hrooted hk pos, hc, Option.some_or]

theorem childAt?_eq (h : Extends grow scopes scopes') (hrooted : scopes.Rooted) {s : Scope}
    (hk : scopes[k]? = some s) (hgrow : ¬grow k) (pos : Position) :
    scopes'.childAt? pos k = scopes.childAt? pos k := by
  obtain ⟨s', hs', -, -, -, hsame⟩ := h k s hk
  rw [childAt?, hs', Option.map_some, Option.getD_some, hsame hgrow, h.find?_children hrooted hk pos]

theorem reaches (h : Extends grow scopes scopes') (hrooted : scopes.Rooted)
    (hc : scopes.Reaches pos c) : scopes'.Reaches pos c := by
  induction hc with
  | root => exact .root
  | child _ hchild ih => exact .child ih (h.childAt?_eq_some hrooted hchild)

end Extends

/-- Scopes that get no other scopes stay a tree. -/
theorem Rooted.of_extends {scopes' : Scopes} (hrooted : scopes.Rooted)
    (h : Extends (fun _ => False) scopes scopes') (hsize : scopes'.size = scopes.size) :
    scopes'.Rooted := by
  intro k s' hs' c hc
  have hlt := (Array.getElem?_eq_some_iff.1 hs').1
  obtain ⟨s, hs, -, -, -, hsame⟩ := h.older (hsize ▸ hlt) hs'
  rw [hsame not_false] at hc
  obtain ⟨hkc, t, ht, hparent⟩ := hrooted k s hs c hc
  obtain ⟨t', ht', hparent', -⟩ := h c t ht
  exact ⟨hkc, t', ht', hparent'.trans hparent⟩

end Scopes

/-! ## Steps inside of a scope -/

namespace Walk

open Scopes (Extends Rooted Reaches)

variable {w w' : Walk}

/-- The current scope sees a binding. -/
def Sees (w : Walk) (i : Nat) : Prop :=
  ∃ b, w.bindings[i]? = some b ∧ b.scope ∈ w.scopes.chain w.current

/-- From `w` to `w'` the walk stays in its scope and enters no other, and what it records is in
    sight. -/
structure Stays (w w' : Walk) : Prop where
  current : w'.current = w.current
  size : w'.scopes.size = w.scopes.size
  scopes : Extends (fun _ => False) w.scopes w'.scopes
  bindings : ∀ (i : Nat) (b : Binding), w.bindings[i]? = some b →
    ∃ b', w'.bindings[i]? = some b' ∧ b'.scope = b.scope
  references : ∀ r ∈ w'.references, r ∈ w.references ∨ ∀ i, r.binding? = some i → w'.Sees i

namespace Stays

theorem of_scopes_eq (hcurrent : w'.current = w.current) (hscopes : w'.scopes = w.scopes)
    (hbindings : ∀ (i : Nat) (b : Binding), w.bindings[i]? = some b →
      ∃ b', w'.bindings[i]? = some b' ∧ b'.scope = b.scope)
    (hreferences : ∀ r ∈ w'.references, r ∈ w.references ∨ ∀ i, r.binding? = some i → w'.Sees i) :
    w.Stays w' where
  current := hcurrent
  size := by rw [hscopes]
  scopes := by
    rw [hscopes]
    exact .refl _ _
  bindings := hbindings
  references := hreferences

theorem refl (w : Walk) : w.Stays w :=
  of_scopes_eq rfl rfl (fun _ b hb => ⟨b, hb, rfl⟩) fun _ hr => .inl hr

theorem sees (h : w.Stays w') {i : Nat} (hi : w.Sees i) : w'.Sees i := by
  obtain ⟨b, hb, hmem⟩ := hi
  obtain ⟨b', hb', hscope⟩ := h.bindings i b hb
  rw [Sees, h.current]
  exact ⟨b', hb', hscope ▸ h.scopes.mem_chain hmem⟩

theorem trans {w'' : Walk} (h : w.Stays w') (h' : w'.Stays w'') : w.Stays w'' where
  current := h'.current.trans h.current
  size := h'.size.trans h.size
  scopes := h.scopes.trans h'.scopes fun _ _ => id
  bindings := by
    intro i b hb
    obtain ⟨b', hb', hscope⟩ := h.bindings i b hb
    obtain ⟨b'', hb'', hscope'⟩ := h'.bindings i b' hb'
    exact ⟨b'', hb'', hscope'.trans hscope⟩
  references := by
    intro r hr
    rcases h'.references r hr with hr | hsees
    · rcases h.references r hr with hr | hsees
      · exact .inl hr
      · exact .inr fun i hi => h'.sees (hsees i hi)
    · exact .inr hsees

end Stays

theorem sees_of_own? (hw : w.Valid) {k i : Nat} {name : String} (hk : k ∈ w.scopes.chain w.current)
    (h : w.scopes.own? k name = some i) : w.Sees i := by
  obtain ⟨s, hs, hlookup⟩ := Option.bind_eq_some_iff.1 h
  obtain ⟨b, hb, -, hscope⟩ := hw.entry k s hs (name, i) (mem_of_lookup hlookup)
  exact ⟨b, hb, hscope ▸ hk⟩

theorem sees_of_lookup (hw : w.Valid) {i : Nat} {name : String} (h : w.lookup name = some i) :
    w.Sees i := by
  obtain ⟨k, hmem, hk⟩ := List.exists_of_findSome?_eq_some h
  exact sees_of_own? hw hmem hk

theorem stays_refer {resolution : Resolution} (id : Ident)
    (h : ∀ i, resolution = .binding i → w.Sees i) : w.Stays (w.refer id resolution) := by
  refine .of_scopes_eq rfl rfl (fun _ b hb => ⟨b, hb, rfl⟩) fun r hr => ?_
  rcases Array.mem_push.1 hr with hr | rfl
  · exact .inl hr
  · refine .inr fun i hi => h i ?_
    cases resolution <;> simp_all [Reference.binding?]

theorem stays_binding (id : Ident) {i : Nat} (h : w.Sees i) : w.Stays (w.refer id (.binding i)) :=
  stays_refer id fun _ heq => by
    cases heq
    exact h

theorem stays_update (w : Walk) (i : Nat) {f : Binding → Binding}
    (hf : ∀ b : Binding, b.Keeps (f b)) : w.Stays (w.update i f) := by
  refine .of_scopes_eq rfl rfl (fun j b hb => ?_) fun _ hr => .inl hr
  simp only [update, Array.getElem?_modify, hb]
  split
  · exact ⟨f b, rfl, (hf b).scope⟩
  · exact ⟨b, rfl, rfl⟩

theorem stays_declare (w : Walk) (id : Ident) (kind : BindingKind) :
    w.Stays (w.declare id kind).1 := by
  cases hown : w.own? id.name with
  | some i =>
    rw [declare_of_some kind hown]
    exact .refl w
  | none =>
    rw [declare_of_none kind hown]
    refine ⟨rfl, by simp, ?_, ?_, fun _ hr => .inl hr⟩
    · intro k s hs
      by_cases hk : w.current = k
      · subst hk
        exact ⟨{ s with names := s.names ++ [(id.name, w.bindings.size)] },
          by simp [Array.getElem?_modify, hs], rfl, rfl, List.prefix_rfl, fun _ => rfl⟩
      · exact ⟨s, by simp [Array.getElem?_modify, hk, hs], rfl, rfl, List.prefix_rfl, fun _ => rfl⟩
    · intro i b hb
      have hlt := (Array.getElem?_eq_some_iff.1 hb).1
      exact ⟨b, by rw [Array.getElem?_push_lt hlt, ← Array.getElem?_eq_getElem hlt, hb], rfl⟩

theorem sees_declare (hw : w.Valid) (id : Ident) (kind : BindingKind) :
    (w.declare id kind).1.Sees (w.declare id kind).2 := by
  cases hown : w.own? id.name with
  | some i =>
    rw [declare_of_some kind hown]
    exact sees_of_own? hw (Scopes.mem_chain_self _ _) hown
  | none =>
    rw [declare_of_none kind hown]
    exact ⟨_, Array.getElem?_push_size, Scopes.mem_chain_self _ _⟩

theorem stays_declareAndRefer (hw : w.Valid) (id : Ident) (kind : BindingKind)
    {f : Binding → Binding} (hf : ∀ b : Binding, b.Keeps (f b)) :
    w.Stays (w.declareAndRefer id kind f) := by
  rw [declareAndRefer_eq]
  have hupdate := stays_update (w.declare id kind).1 (w.declare id kind).2 hf
  exact ((stays_declare w id kind).trans hupdate).trans
    (stays_binding id (hupdate.sees (sees_declare hw id kind)))

theorem stays_use (hw : w.Valid) (id : Ident) : w.Stays (w.use id) := by
  unfold use
  split
  next i h => exact stays_binding id (sees_of_lookup hw h)
  next =>
    refine stays_refer id fun i hi => ?_
    split at hi <;> cases hi

theorem stays_assign (hw : w.Valid) (id : Ident) (op : AssignOp) (params : Option (List String)) :
    w.Stays (w.assign id op params) := by
  unfold assign
  dsimp only
  split
  next i h =>
    have hsees : w.Sees i := by
      split at h
      · exact sees_of_own? hw (Scopes.mem_chain_self _ _) h
      · exact sees_of_lookup hw h
    split
    · exact (stays_binding id hsees).trans
        (.of_scopes_eq rfl rfl (fun _ b hb => ⟨b, hb, rfl⟩) fun _ hr => .inl hr)
    · exact stays_binding id hsees
  next =>
    split
    next params => exact stays_declareAndRefer hw id .func (Binding.keeps_params params)
    next => exact stays_declareAndRefer hw id .var Binding.Keeps.refl

theorem stays_useMember (hw : w.Valid) (base name : Ident) : w.Stays (w.useMember base name) := by
  obtain ⟨i, x, hlookup, hx, hkind⟩ | hother := w.alias_or_other base
  · rw [useMember_of_alias name hlookup hx hkind]
    exact (stays_binding base (sees_of_lookup hw hlookup)).trans
      (stays_refer name fun _ h => by cases h)
  · rw [useMember_of_other name hother]
    exact stays_use hw base

/-- A step that neither enters nor leaves a scope stays where it is. -/
theorem stays_step (hw : w.Valid) (pairs : Bracket.Pairs) {e : Event} (he : e.isPlain = true) :
    w.Stays (w.step pairs e) := by
  cases e with
  | enter start opening => cases he
  | leave => cases he
  | use id => exact stays_use hw id
  | assign id op params => exact stays_assign hw id op params
  | param id => exact stays_declareAndRefer hw id .param Binding.Keeps.refl
  | bind id =>
    rw [step]
    split
    · exact .refl w
    · exact stays_declareAndRefer hw id .var Binding.Keeps.refl
  | func id params =>
    rw [step_func]
    exact (stays_declare w id .func).trans (stays_update _ _ (Binding.keeps_func params))
  | importModule id path =>
    exact stays_declareAndRefer hw id .moduleAlias (Binding.keeps_modulePath path)
  | importMember id path text =>
    exact stays_declareAndRefer hw id .imported (Binding.keeps_member path text)
  | member base name => exact stays_useMember hw base name

/-! ## Entering a scope -/

theorem enter_getElem? (w : Walk) (span : Span) {k : Nat} (hk : k < w.scopes.size) :
    (w.enter span).scopes[k]? = if w.current = k then w.scopes[k]?.map fun s =>
      { s with children := s.children ++ [w.scopes.size] } else w.scopes[k]? := by
  simp only [enter, Array.getElem?_push, Array.size_modify, Nat.ne_of_lt hk, if_false,
    Array.getElem?_modify]

theorem enter_getElem?_size (w : Walk) (span : Span) :
    (w.enter span).scopes[w.scopes.size]? = some ⟨some w.current, [], span, []⟩ := by
  simp only [enter, Array.getElem?_push, Array.size_modify, if_true]

/-- The scopes behind a step into a scope: the new one, and those that were there. -/
theorem enter_cases {span : Span} {k : Nat} {s' : Scope} (h : (w.enter span).scopes[k]? = some s') :
    k = w.scopes.size ∧ s' = ⟨some w.current, [], span, []⟩
      ∨ k < w.scopes.size ∧ ∃ s, w.scopes[k]? = some s ∧ s'.parent = s.parent ∧ s'.span = s.span
        ∧ (s'.children = s.children
          ∨ k = w.current ∧ s'.children = s.children ++ [w.scopes.size]) := by
  rcases Nat.lt_or_ge k w.scopes.size with hk | hk
  · rw [enter_getElem? w span hk] at h
    right
    refine ⟨hk, ?_⟩
    split at h
    next hcurrent =>
      obtain ⟨s, hs, rfl⟩ := Option.map_eq_some_iff.1 h
      exact ⟨s, hs, rfl, rfl, .inr ⟨hcurrent.symm, rfl⟩⟩
    next => exact ⟨s', h, rfl, rfl, .inl rfl⟩
  · have hsize := (Array.getElem?_eq_some_iff.1 h).1
    obtain rfl : k = w.scopes.size := by
      simp only [enter, Array.size_push, Array.size_modify] at hsize
      omega
    rw [enter_getElem?_size] at h
    exact .inl ⟨rfl, (Option.some.inj h).symm⟩

theorem extends_enter (w : Walk) (span : Span) :
    Extends (· = w.current) w.scopes (w.enter span).scopes := by
  intro k s hs
  have hk := (Array.getElem?_eq_some_iff.1 hs).1
  rw [enter_getElem? w span hk, hs]
  by_cases hcurrent : w.current = k
  · rw [if_pos hcurrent]
    exact ⟨_, rfl, rfl, rfl, List.prefix_append _ _, fun h => absurd hcurrent.symm h⟩
  · rw [if_neg hcurrent]
    exact ⟨s, rfl, rfl, rfl, List.prefix_rfl, fun _ => rfl⟩

theorem rooted_enter (hrooted : w.scopes.Rooted) (span : Span) :
    (w.enter span).scopes.Rooted := by
  intro k s' hs' c hc
  have hextends := extends_enter w span
  have hold {s : Scope} (hs : w.scopes[k]? = some s) (hmem : c ∈ s.children) :
      k < c ∧ ∃ t, (w.enter span).scopes[c]? = some t ∧ t.parent = some k := by
    obtain ⟨hlt, t, ht, hparent⟩ := hrooted k s hs c hmem
    obtain ⟨t', ht', hparent', -⟩ := hextends c t ht
    exact ⟨hlt, t', ht', hparent'.trans hparent⟩
  rcases enter_cases hs' with ⟨-, rfl⟩ | ⟨hk, s, hs, -, -, hsame | ⟨hcurrent, hmore⟩⟩
  · cases hc
  · exact hold hs (hsame ▸ hc)
  · rw [hmore, List.mem_append, List.mem_singleton] at hc
    rcases hc with hc | rfl
    · exact hold hs hc
    · exact ⟨hk, _, enter_getElem?_size w span, by rw [hcurrent]⟩

/-- A position that no scope inside of the current one contains yet. -/
structure Fresh (w : Walk) (pos : Position) : Prop where
  reaches : w.scopes.Reaches pos w.current
  outside : w.scopes.childAt? pos w.current = none

theorem childAt?_enter (hw : w.Valid) (hrooted : w.scopes.Rooted) {pos : Position} (span : Span)
    (h : w.Fresh pos) : (w.enter span).scopes.childAt? pos w.current
      = if span.contains pos then some w.scopes.size else none := by
  have hs := Array.getElem?_eq_getElem hw.current
  have hfind := (extends_enter w span).find?_children hrooted hs pos
  rw [h.outside] at hfind
  rw [Scopes.childAt?, enter_getElem? w span hw.current, if_pos rfl, hs, Option.map_some,
    Option.map_some, Option.getD_some, List.find?_append, hfind, Option.none_or, List.find?_cons,
    enter_getElem?_size, Option.any_some]
  cases span.contains pos <;> rfl

/-- In a new scope that contains the position there is no other one yet. -/
theorem Fresh.enter (hw : w.Valid) (hrooted : w.scopes.Rooted) {pos : Position} {span : Span}
    (h : w.Fresh pos) (hspan : span.contains pos = true) : (w.enter span).Fresh pos where
  reaches := by
    have hchild := childAt?_enter hw hrooted span h
    rw [if_pos hspan] at hchild
    exact .child ((extends_enter w span).reaches hrooted h.reaches) hchild
  outside := by
    show (w.enter span).scopes.childAt? pos w.scopes.size = none
    rw [Scopes.childAt?, enter_getElem?_size]
    rfl

/-! ## Whole walks -/

/-- A walk that fits together, and whose uses refer to bindings of scopes around a scope on the way
    down to the use. -/
structure Sighted (w : Walk) : Prop where
  valid : w.Valid
  rooted : w.scopes.Rooted
  sighted : ∀ r ∈ w.references, ∀ i, r.binding? = some i → ∃ b c, w.bindings[i]? = some b
    ∧ b.scope ∈ w.scopes.chain c ∧ w.scopes.Reaches r.ident.pos c

namespace Sighted

/-- A use that was in sight stays in sight. -/
theorem mono (h : w.Sighted) {ids : List Ident} (hgrows : Grows ids w w') {grow : Nat → Prop}
    (hscopes : Extends grow w.scopes w'.scopes) {r : Reference} (hr : r ∈ w.references) {i : Nat}
    (hi : r.binding? = some i) : ∃ b c, w'.bindings[i]? = some b ∧ b.scope ∈ w'.scopes.chain c
      ∧ w'.scopes.Reaches r.ident.pos c := by
  obtain ⟨b, c, hb, hmem, hreaches⟩ := h.sighted r hr i hi
  obtain ⟨b', hb', hkeeps⟩ := hgrows.keeps hb
  exact ⟨b', c, hb', hkeeps.scope ▸ hscopes.mem_chain hmem, hscopes.reaches h.rooted hreaches⟩

theorem enter (h : w.Sighted) (span : Span) : (w.enter span).Sighted where
  valid := h.valid.enter span
  rooted := rooted_enter h.rooted span
  sighted := fun _ hr _ hi =>
    h.mono (Change.enter span : Change [] w (w.enter span)).grows (extends_enter w span) hr hi

theorem leave (h : w.Sighted) : w.leave.Sighted := ⟨h.valid.leave, h.rooted, h.sighted⟩

theorem plain (h : w.Sighted) (pairs : Bracket.Pairs) {e : Event} (he : e.isPlain = true)
    (hfresh : ∀ id ∈ e.idents, w.Fresh id.pos) : (w.step pairs e).Sighted := by
  have hstays := stays_step h.valid pairs he
  have hgrows := grows_step h.valid pairs e
  refine ⟨h.valid.step pairs e, h.rooted.of_extends hstays.scopes hstays.size, fun r hr i hi => ?_⟩
  obtain ⟨more, hmore, hids⟩ := hgrows.references
  rw [hmore, Array.mem_append] at hr
  rcases hr with hr | hr
  · exact h.mono hgrows hstays.scopes hr hi
  · rcases hstays.references r (by rw [hmore]; exact Array.mem_append_right _ hr) with hold | hsees
    · exact h.mono hgrows hstays.scopes hold hi
    · obtain ⟨b, hb, hmem⟩ := hsees i hi
      refine ⟨b, _, hb, hmem, ?_⟩
      rw [hstays.current]
      exact hstays.scopes.reaches h.rooted (hfresh r.ident (hids r hr)).reaches

end Sighted

theorem Fresh.plain (h : w.Sighted) (pairs : Bracket.Pairs) {e : Event} (he : e.isPlain = true)
    {pos : Position} (hfresh : w.Fresh pos) : (w.step pairs e).Fresh pos := by
  have hstays := stays_step h.valid pairs he
  constructor
  · rw [hstays.current]
    exact hstays.scopes.reaches h.rooted hfresh.reaches
  · have hs := Array.getElem?_eq_getElem h.valid.current
    rw [hstays.current, hstays.scopes.childAt?_eq h.rooted hs not_false pos, hfresh.outside]

/-- A step keeps the scopes that are there. -/
theorem extends_step (hw : w.Valid) (pairs : Bracket.Pairs) (e : Event) :
    Extends (fun _ => True) w.scopes (w.step pairs e).scopes := by
  have hweaken {grow : Nat → Prop} {scopes scopes' : Scopes}
      (h : Extends grow scopes scopes') : Extends (fun _ => True) scopes scopes' := by
    intro k s hs
    obtain ⟨s', hs', hparent, hspan, hchildren, -⟩ := h k s hs
    exact ⟨s', hs', hparent, hspan, hchildren, fun hk => absurd trivial hk⟩
  by_cases hplain : e.isPlain = true
  · exact hweaken (stays_step hw pairs hplain).scopes
  · cases e with
    | enter start opening => exact hweaken (extends_enter w _)
    | leave => exact .refl _ _
    | _ => exact absurd rfl hplain

/-- A whole walk keeps the scopes that are there. -/
theorem extends_run (hw : w.Valid) (pairs : Bracket.Pairs) (es : List Event) :
    Extends (fun _ => True) w.scopes (w.run pairs es).scopes := by
  induction es generalizing w with
  | nil => exact .refl _ _
  | cons e es ih => exact (extends_step hw pairs e).trans (ih (hw.step pairs e)) fun _ _ _ => trivial

theorem run_append (pairs : Bracket.Pairs) (w : Walk) (es fs : List Event) :
    w.run pairs (es ++ fs) = (w.run pairs es).run pairs fs := List.foldl_append

theorem run_inScope (pairs : Bracket.Pairs) (w : Walk) (start opening : Position)
    (inner : List Event) : w.run pairs (Event.inScope start opening inner)
      = ((w.enter (pairs.span start opening)).run pairs inner).leave := by
  rw [Event.inScope, ← List.cons_append, run_append]
  rfl

/-- A walk that came back to the scope `w` is in, and put no scopes into older ones. -/
structure Returns (w w' : Walk) : Prop where
  current : w'.current = w.current
  scopes : Extends (· = w.current) w.scopes w'.scopes

theorem Returns.refl (w : Walk) : w.Returns w := ⟨rfl, .refl _ _⟩

theorem Returns.trans {w'' : Walk} (h : w.Returns w') (h' : w'.Returns w'') : w.Returns w'' where
  current := h'.current.trans h.current
  scopes := h.scopes.trans h'.scopes fun _ _ hk => hk.trans h.current

theorem Stays.returns (h : w.Stays w') : w.Returns w' where
  current := h.current
  scopes := by
    intro k s hs
    obtain ⟨s', hs', hparent, hspan, hchildren, hsame⟩ := h.scopes k s hs
    exact ⟨s', hs', hparent, hspan, hchildren, fun _ => hsame not_false⟩

/-- Leaving a scope leads back to where it was entered. -/
theorem Returns.leave {span : Span} (h : (w.enter span).Returns w') :
    w.Returns w'.leave where
  current := by
    obtain ⟨s', hs', hparent, -⟩ := h.scopes _ _ (enter_getElem?_size w span)
    have hcurrent : w'.current = w.scopes.size := h.current
    simp [Walk.leave, hcurrent, hs', hparent]
  scopes := (extends_enter w span).trans h.scopes fun k hk hnew => absurd hnew (Nat.ne_of_lt hk)

/-- A position behind a scope stays outside of all scopes inside of the current one. -/
theorem Fresh.leave (hw : w.Valid) (hrooted : w.scopes.Rooted) {span : Span}
    (h : (w.enter span).Returns w') {pos : Position} (hfresh : w.Fresh pos)
    (hspan : span.contains pos = false) : w'.leave.Fresh pos := by
  have hreturns := h.leave
  constructor
  · rw [hreturns.current]
    exact hreturns.scopes.reaches hrooted hfresh.reaches
  · have hold := Array.getElem?_eq_getElem hw.current
    obtain ⟨s, hs, -⟩ := extends_enter w span w.current _ hold
    have hne : w.current ≠ (w.enter span).current := Nat.ne_of_lt hw.current
    have hchild := h.scopes.childAt?_eq (rooted_enter hrooted span) hs hne pos
    rw [childAt?_enter hw hrooted span hfresh, hspan] at hchild
    rw [hreturns.current]
    exact hchild

/-- A walk along steps that are laid out keeps all uses in sight. -/
theorem Sighted.run {pairs : Bracket.Pairs} {ts : List Token} {es : List Event}
    (hlaid : Laid pairs ts es) {w : Walk} (h : w.Sighted)
    (hfresh : ∀ id ∈ es.flatMap Event.idents, w.Fresh id.pos) :
    (w.run pairs es).Sighted ∧ w.Returns (w.run pairs es) := by
  induction hlaid generalizing w with
  | nil => exact ⟨h, .refl w⟩
  | @plain ts e es he _ _ ih =>
    rw [List.flatMap_cons, List.forall_mem_append] at hfresh
    obtain ⟨hsighted, hreturns⟩ := ih (h.plain pairs he hfresh.1) fun id hid =>
      (hfresh.2 id hid).plain h pairs he
    exact ⟨hsighted, (stays_step h.valid pairs he).returns.trans hreturns⟩
  | @scope ts us start opening inner es _ _ hplaces hinner hbehind _ ihinner ih =>
    rw [List.flatMap_append, Event.flatMap_idents_inScope, List.forall_mem_append] at hfresh
    rw [run_append, run_inScope]
    rw [← hplaces] at hbehind
    -- the names of the inner steps lie in the new scope, those behind it do not
    obtain ⟨hsighted, hreturns⟩ := ihinner (h.enter (pairs.span start opening)) fun id hid =>
      (hfresh.1 id hid).enter h.valid h.rooted (hplaces.ge (hinner.idents id hid))
    obtain ⟨hsighted', hreturns'⟩ := ih hsighted.leave fun id hid =>
      (hfresh.2 id hid).leave h.valid h.rooted hreturns
        (Bool.eq_false_iff.2 (hbehind.idents id hid))
    exact ⟨hsighted', hreturns.leave.trans hreturns'⟩

theorem sighted_start (stop : Position) : (start stop).Sighted where
  valid := valid_start stop
  rooted := by
    intro k s hs
    grind [start]
  sighted := by simp [start]

theorem fresh_start (stop pos : Position) : (start stop).Fresh pos := ⟨.root, rfl⟩

end Walk

/-! ## Texts -/

namespace Analysis

/-- Where nothing is reported, the scope at a use sees the binding that the walk chose: the scope
    that owns the binding is the scope at the use or one around it. -/
theorem binding_in_sight {text : String} (h : (Program.parse text).diagnostics = []) {r : Reference}
    (hr : r ∈ (ofText text).references) {i : Nat} (hi : r.binding? = some i) :
    ∃ b, (ofText text).bindings[i]? = some b
      ∧ b.scope ∈ (ofText text).scopeChain ((ofText text).scopeAt r.ident.pos) := by
  obtain ⟨hsighted, -⟩ := (Walk.sighted_start (Bracket.Pairs.ofText text).stop).run
    (Program.laid_events h) fun id _ => Walk.fresh_start _ id.pos
  obtain ⟨b, c, hb, hmem, hreaches⟩ := hsighted.sighted r hr i hi
  exact ⟨b, hb, Scopes.mem_chain_trans hmem (hreaches.mem_chain hsighted.rooted)⟩

/-- A comprehension whose sequence is another one, and with a function in an interpolation. -/
def nestedComprehension : String :=
  "a = 1\nb = [t\"$\x7bfunc(k) \x7b k + y \x7d\x7d\" for y in [z for z in a] if y]"

/-- The name `a` lies inside of both comprehensions, and it is used in front of both. -/
theorem binding_in_sight_comprehension :
    (∃ b, (ofText nestedComprehension).bindings[0]? = some b
      ∧ b.scope ∈ (ofText nestedComprehension).scopeChain
        ((ofText nestedComprehension).scopeAt ⟨2, 51⟩))
    ∧ ∃ b, (ofText nestedComprehension).bindings[3]? = some b
      ∧ b.scope ∈ (ofText nestedComprehension).scopeChain
        ((ofText nestedComprehension).scopeAt ⟨2, 24⟩) := by
  have hclean : (Program.parse nestedComprehension).diagnostics = [] :=
    List.isEmpty_iff.1 (by decide +kernel)
  constructor
  · exact binding_in_sight hclean (r := ⟨⟨"a", ⟨2, 51⟩⟩, .binding 0⟩) (by decide +kernel) rfl
  · exact binding_in_sight hclean (r := ⟨⟨"y", ⟨2, 24⟩⟩, .binding 3⟩) (by decide +kernel) rfl

end Analysis

end Welle
