import Welle.Proofs.Spans

set_option autoImplicit false

/-! # The tables of scopes and the names in sight

Every binding stands in the table of one scope, its own, and no table has a name twice. So a name
that is looked up has one answer, and the names in sight, which are collected table by table, are the
ones that a look-up finds. -/

namespace Welle

/-! ## Tables -/

namespace Walk

variable {w w' : Walk}

/-- No table has a name twice, and every binding stands under its name in the table of its scope. -/
structure Tabled (w : Walk) : Prop where
  nodup : ∀ (k : Nat) (s : Scope), w.scopes[k]? = some s → (s.names.map (·.1)).Nodup
  listed : ∀ (i : Nat) (b : Binding), w.bindings[i]? = some b →
    w.scopes.own? b.scope b.name = some i

namespace Tabled

theorem enter (h : w.Tabled) (span : Span) : (w.enter span).Tabled where
  nodup := by
    intro k s hs
    have := h.nodup
    grind [Walk.enter]
  listed := fun i b hb => (Change.enter span : Change [] w _).own? (h.listed i b hb)

theorem declare (h : w.Tabled) (hw : w.Valid) {id : Ident} (kind : BindingKind)
    (hnew : w.own? id.name = none) : (w.declare id kind).1.Tabled where
  nodup := by
    intro k s hs
    rw [declare_of_none kind hnew] at hs
    simp only [Array.getElem?_modify] at hs
    split at hs
    next hk =>
      subst hk
      obtain ⟨s', hs', rfl⟩ := Option.map_eq_some_iff.1 hs
      have habsent : id.name ∉ s'.names.map (·.1) := by
        rw [own?, Scopes.own?, hs'] at hnew
        rw [List.mem_map]
        rintro ⟨e, he, hname⟩
        exact absurd hname.symm (by simpa using List.lookup_eq_none_iff.1 hnew e he)
      rw [List.map_append, List.map_singleton, ← List.concat_eq_append, List.nodup_concat]
      exact ⟨habsent, h.nodup _ s' hs'⟩
    next => exact h.nodup k s hs
  listed := by
    intro i b hb
    have hown := own?_declare hw id kind
    rw [declare_of_none kind hnew] at hb hown ⊢
    rw [Array.getElem?_push] at hb
    split at hb
    next hi =>
      subst hi
      obtain rfl := Option.some.inj hb
      exact hown
    next =>
      have hchange : Change [id] w (w.declare id kind).1 := .declare kind (by simp) hnew
      rw [declare_of_none kind hnew] at hchange
      exact hchange.own? (h.listed i b hb)

theorem update (h : w.Tabled) (i : Nat) {f : Binding → Binding}
    (hf : ∀ b : Binding, b.Keeps (f b)) : (w.update i f).Tabled where
  nodup := h.nodup
  listed := by
    intro j b hb
    simp only [Walk.update, Array.getElem?_modify] at hb
    split at hb
    · obtain ⟨a, ha, rfl⟩ := Option.map_eq_some_iff.1 hb
      rw [(hf a).scope, (hf a).name]
      exact h.listed _ a ha
    · exact h.listed j b hb

theorem change {ids : List Ident} (h : w.Tabled) (hw : w.Valid) (hchange : Change ids w w') :
    w'.Tabled := by
  cases hchange with
  | enter span => exact h.enter span
  | declare kind hid hnew => exact h.declare hw kind hnew
  | update i hf => exact h.update i hf
  | leave => exact ⟨h.nodup, h.listed⟩
  | report diagnostics => exact ⟨h.nodup, h.listed⟩
  | refer hid hmeans => exact ⟨h.nodup, h.listed⟩

theorem changes {ids : List Ident} (h : w.Tabled) (hw : w.Valid) (hchanges : Changes ids w w') :
    w'.Tabled := by
  induction hchanges with
  | refl => exact h
  | tail hfront hlast ih => exact ih.change (hw.changes hfront) hlast

/-- A whole walk keeps its tables. -/
theorem run (h : w.Tabled) (hw : w.Valid) (pairs : Bracket.Pairs) (es : List Event) :
    (w.run pairs es).Tabled := by
  induction es generalizing w with
  | nil => exact h
  | cons e es ih => exact ih (h.changes hw (changes_step hw pairs e)) (hw.step pairs e)

end Tabled

theorem tabled_start (stop : Position) : (start stop).Tabled where
  nodup := by
    intro k s hs
    rw [(getElem?_start hs).2]
    exact .nil
  listed := by simp [start]

end Walk

/-! ## Names in sight -/

namespace Analysis

variable {scopes : Scopes} {seen : List String} {chain : List Nat}

theorem mem_fresh {names : List (String × Nat)} {name : String} {i : Nat} :
    (name, i) ∈ fresh seen names ↔ (name, i) ∈ names ∧ name ∉ seen := by
  simp [fresh]

theorem nodup_fresh {names : List (String × Nat)} (h : (names.map (·.1)).Nodup) :
    ((fresh seen names).map (·.1)).Nodup :=
  h.sublist (List.filter_sublist.map _)

/-- The table of a scope has what a look-up in the scope finds. -/
theorem own?_eq_some_iff {k : Nat} (h : ∀ s, scopes[k]? = some s → (s.names.map (·.1)).Nodup)
    {name : String} {i : Nat} : scopes.own? k name = some i
      ↔ (name, i) ∈ (scopes[k]?.map (·.names)).getD [] := by
  rw [Scopes.own?]
  cases hs : scopes[k]? with
  | none => simp
  | some s =>
    rw [Option.bind_some, Option.map_some, Option.getD_some]
    exact ⟨Walk.mem_of_lookup, Bracket.lookup_of_mem (h s hs)⟩

/-- The names that are collected along some scopes are those that a look-up along the scopes finds. -/
theorem mem_visibleNames
    (h : ∀ (k : Nat) (s : Scope), scopes[k]? = some s → (s.names.map (·.1)).Nodup)
    {name : String} {i : Nat} : (name, i) ∈ visibleNames scopes seen chain
      ↔ name ∉ seen ∧ chain.findSome? (scopes.own? · name) = some i := by
  induction chain generalizing seen with
  | nil => simp [visibleNames]
  | cons k chain ih =>
    have htaken : name ∈ (fresh seen ((scopes[k]?.map (·.names)).getD [])).map (·.1)
        ↔ (∃ j, scopes.own? k name = some j) ∧ name ∉ seen := by
      simp only [own?_eq_some_iff (h k), List.mem_map, Prod.exists, exists_eq_right, mem_fresh,
        exists_and_right]
    rw [visibleNames, List.mem_append, ih, mem_fresh, ← own?_eq_some_iff (h k), List.mem_append,
      htaken, List.findSome?_cons]
    cases hown : scopes.own? k name with
    | some j => simp [and_comm]
    | none => simp

/-- No name is collected twice. -/
theorem nodup_visibleNames
    (h : ∀ (k : Nat) (s : Scope), scopes[k]? = some s → (s.names.map (·.1)).Nodup) :
    ((visibleNames scopes seen chain).map (·.1)).Nodup := by
  induction chain generalizing seen with
  | nil => exact .nil
  | cons k chain ih =>
    rw [visibleNames, List.map_append, List.nodup_append]
    refine ⟨nodup_fresh ?_, ih, ?_⟩
    · cases hs : scopes[k]? with
      | none => exact .nil
      | some s => exact h k s hs
    · -- further out, the names that were collected are left out
      rintro name hown _ hfurther rfl
      obtain ⟨⟨_, i⟩, hmem, rfl⟩ := List.mem_map.1 hfurther
      exact (mem_visibleNames h).1 hmem |>.1 (List.mem_append_left _ hown)

/-! ## Texts -/

/-- The scopes of an analysis are a tree whose root is the file, their tables say where each binding
    is, and the names in sight of a scope are those that it can look up. -/
structure Ordered (an : Analysis) : Prop where
  root : ∃ s, an.scopes[rootScope]? = some s ∧ s.parent = none
  parent : ∀ (c : Nat) (t : Scope), an.scopes[c]? = some t → c ≠ rootScope →
    ∃ k s, t.parent = some k ∧ k < c ∧ an.scopes[k]? = some s ∧ s.children.count c = 1
  table : ∀ (k : Nat) (s : Scope), an.scopes[k]? = some s → (s.names.map (·.1)).Nodup
    ∧ ∀ name i, (name, i) ∈ s.names → ∃ b, an.bindings[i]? = some b ∧ b.name = name ∧ b.scope = k
  binding : ∀ (i : Nat) (b : Binding), an.bindings[i]? = some b → ∀ k name,
    (∃ s, an.scopes[k]? = some s ∧ (name, i) ∈ s.names) ↔ k = b.scope ∧ name = b.name
  visible : ∀ scope, (an.visible scope).Pairwise fun i j => ∀ b c, an.bindings[i]? = some b →
    an.bindings[j]? = some c → b.name ≠ c.name
  mem_visible : ∀ scope i, i ∈ an.visible scope
    ↔ ∃ b, an.bindings[i]? = some b ∧ an.lookup scope b.name = some i

theorem tabled_ofText (text : String) :
    (Walk.ofProgram (.ofText text) (Program.parse text).program).Tabled :=
  (Walk.tabled_start _).run (Walk.valid_start _) _ _

/-- What a look-up finds is a binding of the name. -/
theorem binding_of_lookup {text name : String} {scope i : Nat}
    (h : (ofText text).lookup scope name = some i) :
    ∃ b, (ofText text).bindings[i]? = some b ∧ b.name = name := by
  obtain ⟨k, -, hk⟩ := List.exists_of_findSome?_eq_some h
  exact Walk.named_of_own? (Walk.valid_ofProgram (.ofText text) (Program.parse text).program) hk

/-- The names in sight, with their bindings, are those that a look-up finds. -/
theorem mem_visibleNames_ofText {text name : String} {scope i : Nat} :
    (name, i) ∈ visibleNames (ofText text).scopes [] ((ofText text).scopeChain scope)
      ↔ (ofText text).lookup scope name = some i := by
  have hmem : (name, i) ∈ visibleNames (ofText text).scopes [] ((ofText text).scopeChain scope)
      ↔ name ∉ [] ∧ (ofText text).lookup scope name = some i :=
    mem_visibleNames (tabled_ofText text).nodup
  rwa [and_iff_right List.not_mem_nil] at hmem

/-- The analysis of a text is ordered, also where the text is broken. -/
theorem ordered_ofText (text : String) : (ofText text).Ordered := by
  have hvalid := Walk.valid_ofProgram (.ofText text) (Program.parse text).program
  have htabled := tabled_ofText text
  have htree := tree_ofText text
  refine ⟨?_, ?_, ?_, ?_, ?_, ?_⟩
  · -- the scope of the file stays the root
    have hwalk := Walk.extends_run (Walk.valid_start (endPosition text)) (.ofText text)
      (Program.parse text).program.events
    obtain ⟨s, hs, hparent, -⟩ := hwalk rootScope _ rfl
    exact ⟨s, hs, hparent⟩
  · -- any other scope is listed by its parent, once
    intro c t ht hc
    obtain ⟨k, s, hparent, hs, hmem⟩ := (htree.listed c t ht).resolve_left hc
    have hnodup : s.children.Nodup := (htree.ordered k s hs).imp Nat.ne_of_lt
    exact ⟨k, s, hparent, (htree.rooted k s hs c hmem).1, hs,
      List.count_eq_one_of_mem hnodup hmem⟩
  · exact fun k s hs => ⟨htabled.nodup k s hs, fun name i hmem => hvalid.entry k s hs _ hmem⟩
  · -- a binding stands in the table of its own scope only
    intro i b hb k name
    constructor
    · rintro ⟨s, hs, hmem⟩
      obtain ⟨b', hb', hname, hscope⟩ := hvalid.entry k s hs _ hmem
      obtain rfl := Option.some.inj (hb.symm.trans hb')
      exact ⟨hscope.symm, hname.symm⟩
    · rintro ⟨rfl, rfl⟩
      obtain ⟨s, hs, hlookup⟩ := Option.bind_eq_some_iff.1 (htabled.listed i b hb)
      exact ⟨s, hs, Walk.mem_of_lookup hlookup⟩
  · -- no name is in sight twice
    intro scope
    have hnodup : ((visibleNames (ofText text).scopes [] ((ofText text).scopeChain scope)).map
        (·.1)).Nodup := nodup_visibleNames htabled.nodup
    rw [Analysis.visible, List.pairwise_map]
    refine (List.pairwise_map.1 hnodup).imp_of_mem ?_
    rintro ⟨name, i⟩ ⟨name', j⟩ hi hj hne b c hb hc
    obtain ⟨b', hb', rfl⟩ := binding_of_lookup (mem_visibleNames_ofText.1 hi)
    obtain ⟨c', hc', rfl⟩ := binding_of_lookup (mem_visibleNames_ofText.1 hj)
    rwa [Option.some.inj (hb.symm.trans hb'), Option.some.inj (hc.symm.trans hc')]
  · -- what is in sight is what a look-up finds
    intro scope i
    rw [Analysis.visible, List.mem_map]
    constructor
    · rintro ⟨⟨name, i⟩, hmem, rfl⟩
      have hlookup := mem_visibleNames_ofText.1 hmem
      obtain ⟨b, hb, rfl⟩ := binding_of_lookup hlookup
      exact ⟨b, hb, hlookup⟩
    · rintro ⟨b, -, hlookup⟩
      exact ⟨(b.name, i), mem_visibleNames_ofText.2 hlookup, rfl⟩

end Analysis

end Welle
