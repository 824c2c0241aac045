import Welle.Proofs.Walk

set_option autoImplicit false

/-! # What a walk records at an identifier

No two identifiers of a program stand at the same place, so a walk records at most one thing at a
place: one use with one meaning, and if a binding is declared there, the use means that binding.
Only functions are declared without a use. -/

namespace Welle

namespace Walk

/-! ## What one step records -/

/-- A step that names the given identifiers adds at most one use for each of them, and at most one
    binding. Only a function is declared without a use. -/
structure Adds (ids : List Ident) (w w' : Walk) : Prop where
  references : ∃ more : List Reference, w'.references.toList = w.references.toList ++ more
    ∧ (more.map (·.ident)).Sublist ids
    ∧ ∀ b, w'.bindings[w.bindings.size]? = some b → b.decl ∈ ids
      ∧ (∀ r ∈ more, r.ident.pos = b.decl.pos → r.resolution = .binding w.bindings.size)
      ∧ (b.kind = .func ∨ ∃ r ∈ more, r.ident = b.decl)
  size : w'.bindings.size ≤ w.bindings.size + 1

section Steps

variable {ids : List Ident} {w : Walk}

theorem Adds.of_bindings_eq {w' : Walk} (hbindings : w'.bindings = w.bindings)
    {more : List Reference} (hreferences : w'.references.toList = w.references.toList ++ more)
    (hmore : (more.map (·.ident)).Sublist ids) : Adds ids w w' where
  references := ⟨more, hreferences, hmore, by simp [hbindings]⟩
  size := by simp [hbindings]

theorem adds_refer (w : Walk) (id : Ident) (resolution : Resolution) :
    Adds [id] w (w.refer id resolution) :=
  .of_bindings_eq rfl (by simp [refer]; rfl) (.refl _)

theorem adds_declareAndRefer (w : Walk) (id : Ident) (kind : BindingKind)
    {f : Binding → Binding} (hf : ∀ b : Binding, b.Keeps (f b)) :
    Adds [id] w (w.declareAndRefer id kind f) := by
  rw [declareAndRefer_eq]
  cases hown : w.own? id.name with
  | some i =>
    rw [declare_of_some kind hown]
    refine ⟨⟨[⟨id, .binding i⟩], by simp [refer, update], by simp, ?_⟩, by simp [refer, update]⟩
    simp [refer, update]
  | none =>
    rw [declare_of_none kind hown]
    refine ⟨⟨[⟨id, .binding w.bindings.size⟩], by simp [refer, update], by simp, ?_⟩,
      by simp [refer, update]⟩
    intro b hb
    simp only [refer, update, Array.getElem?_modify, if_true, Array.getElem?_push_size,
      Option.map_some, Option.some.injEq] at hb
    have hdecl : b.decl = id := by rw [← hb, (hf _).decl]
    simp [hdecl]

theorem adds_use (w : Walk) (id : Ident) : Adds [id] w (w.use id) := by
  unfold use
  split <;> exact adds_refer w id _

theorem adds_assign (w : Walk) (id : Ident) (op : AssignOp) (params : Option (List String)) :
    Adds [id] w (w.assign id op params) := by
  unfold assign
  dsimp only
  split
  next i _ =>
    have hrefer := adds_refer w id (.binding i)
    split
    · exact ⟨hrefer.references, hrefer.size⟩
    · exact hrefer
  next =>
    split
    next params => exact adds_declareAndRefer w id .func (Binding.keeps_params params)
    next => exact adds_declareAndRefer w id .var Binding.Keeps.refl

theorem adds_useMember (w : Walk) (base name : Ident) :
    Adds [base, name] w (w.useMember base name) := by
  obtain ⟨i, x, hlookup, hx, hkind⟩ | hother := w.alias_or_other base
  · rw [useMember_of_alias name hlookup hx hkind]
    exact .of_bindings_eq rfl (by simp [refer]; rfl) (.refl _)
  · rw [useMember_of_other name hother]
    obtain ⟨more, hreferences, hmore, hnew⟩ := (adds_use w base).references
    refine ⟨⟨more, hreferences, hmore.trans (by simp), fun b hb => ?_⟩, (adds_use w base).size⟩
    obtain ⟨hdecl, hrest⟩ := hnew b hb
    exact ⟨List.mem_append_left [name] hdecl, hrest⟩

theorem adds_func (w : Walk) (pairs : Bracket.Pairs) (id : Ident) (params : List String) :
    Adds [id] w (w.step pairs (.func id params)) := by
  rw [step_func]
  cases hown : w.own? id.name with
  | some i =>
    rw [declare_of_some .func hown]
    exact ⟨⟨[], by simp [update], by simp, by simp [update]⟩, by simp [update]⟩
  | none =>
    rw [declare_of_none .func hown]
    refine ⟨⟨[], by simp [update], by simp, fun b hb => ?_⟩, by simp [update]⟩
    simp only [update, Array.getElem?_modify, if_true, Array.getElem?_push_size,
      Option.map_some, Option.some.injEq] at hb
    simp [← hb]

theorem adds_step (w : Walk) (pairs : Bracket.Pairs) (e : Event) :
    Adds e.idents w (w.step pairs e) := by
  cases e with
  | enter start opening => exact .of_bindings_eq rfl (List.append_nil _).symm (.refl _)
  | leave => exact .of_bindings_eq rfl (List.append_nil _).symm (.refl _)
  | use id => exact adds_use w id
  | assign id op params => exact adds_assign w id op params
  | param id => exact adds_declareAndRefer w id .param Binding.Keeps.refl
  | bind id =>
    rw [step]
    split
    · exact .of_bindings_eq rfl (List.append_nil _).symm (by simp)
    · exact adds_declareAndRefer w id .var Binding.Keeps.refl
  | func id params => exact adds_func w pairs id params
  | importModule id path =>
    exact adds_declareAndRefer w id .moduleAlias (Binding.keeps_modulePath path)
  | importMember id path text =>
    exact adds_declareAndRefer w id .imported (Binding.keeps_member path text)
  | member base name => exact adds_useMember w base name

end Steps

/-! ## What a whole walk records -/

/-- At each place at most one use is recorded, and at the place where a binding is declared no use
    of anything else. Only functions are declared without a use. -/
structure Recorded (w : Walk) : Prop where
  use : ∀ r ∈ w.references, ∀ r' ∈ w.references, r.ident.pos = r'.ident.pos → r = r'
  declaration : ∀ (i : Nat) (b : Binding), w.bindings[i]? = some b → ∀ r ∈ w.references,
    r.ident.pos = b.decl.pos → r.resolution = .binding i
  binding : ∀ (i j : Nat) (b b' : Binding), w.bindings[i]? = some b → w.bindings[j]? = some b' →
    b.decl.pos = b'.decl.pos → i = j
  used : ∀ (i : Nat) (b : Binding), w.bindings[i]? = some b →
    b.kind = .func ∨ ∃ r ∈ w.references, r.ident = b.decl

/-- Whether nothing is recorded at a position. -/
structure Unmet (w : Walk) (pos : Position) : Prop where
  use : ∀ r ∈ w.references, r.ident.pos ≠ pos
  declaration : ∀ (i : Nat) (b : Binding), w.bindings[i]? = some b → b.decl.pos ≠ pos

theorem Grows.unmet {ids : List Ident} {w w' : Walk} (h : Grows ids w w') {pos : Position}
    (hpos : pos ∉ ids.map (·.pos)) (hw : w.Unmet pos) : w'.Unmet pos where
  use := by
    intro r hr
    obtain ⟨more, hmore, hids⟩ := h.references
    rw [hmore, Array.mem_append] at hr
    obtain hr | hr := hr
    · exact hw.use r hr
    · exact fun heq => hpos (heq ▸ List.mem_map_of_mem (hids r hr))
  declaration := by
    intro i b hb
    obtain ⟨a, ha, hkeeps⟩ | ⟨-, hdecl⟩ := h.bindings i b hb
    · rw [hkeeps.decl]
      exact hw.declaration i a ha
    · exact fun heq => hpos (heq ▸ List.mem_map_of_mem hdecl)

theorem Unmet.update {w : Walk} {pos : Position} (h : w.Unmet pos) (i : Nat)
    {f : Binding → Binding} (hf : ∀ b : Binding, b.Keeps (f b)) : (w.update i f).Unmet pos where
  use := h.use
  declaration := by
    intro j b hb
    simp only [Walk.update, Array.getElem?_modify] at hb
    split at hb
    · obtain ⟨a, ha, rfl⟩ := Option.map_eq_some_iff.1 hb
      rw [(hf a).decl]
      exact h.declaration _ a ha
    · exact h.declaration j b hb

theorem Recorded.step {w : Walk} (h : w.Recorded) (hw : w.Valid) (pairs : Bracket.Pairs)
    (e : Event) (hnodup : (e.idents.map (·.pos)).Nodup)
    (hunmet : ∀ id ∈ e.idents, w.Unmet id.pos) : (w.step pairs e).Recorded := by
  have hgrows := grows_step hw pairs e
  obtain ⟨⟨more, hreferences, hsub, hnew⟩, hsize⟩ := adds_step w pairs e
  have hmem (r : Reference) : r ∈ (w.step pairs e).references ↔ r ∈ w.references ∨ r ∈ more := by
    rw [← Array.mem_toList_iff, hreferences, List.mem_append, Array.mem_toList_iff]
  have hunmet' (r : Reference) (hr : r ∈ more) : w.Unmet r.ident.pos :=
    hunmet _ (hsub.subset (List.mem_map_of_mem hr))
  have hpairs : (more.map (·.ident.pos)).Nodup := by
    have := hnodup.sublist (hsub.map (·.pos))
    rwa [List.map_map] at this
  -- A binding is an old one, or the one that this step declares.
  have hbinding (i : Nat) (b : Binding) (hb : (w.step pairs e).bindings[i]? = some b) :
      (∃ a, w.bindings[i]? = some a ∧ a.Keeps b)
        ∨ (i = w.bindings.size ∧ b.decl ∈ e.idents
          ∧ (∀ r ∈ more, r.ident.pos = b.decl.pos → r.resolution = .binding i)
          ∧ (b.kind = .func ∨ ∃ r ∈ more, r.ident = b.decl)) := by
    obtain hold | ⟨hi, -⟩ := hgrows.bindings i b hb
    · exact .inl hold
    · have hlt := (Array.getElem?_eq_some_iff.1 hb).1
      obtain rfl : i = w.bindings.size := by omega
      exact .inr ⟨rfl, hnew b hb⟩
  refine ⟨?_, ?_, ?_, ?_⟩
  · intro r hr r' hr' hpos
    obtain hr | hr := (hmem r).1 hr
    · obtain hr' | hr' := (hmem r').1 hr'
      · exact h.use r hr r' hr' hpos
      · exact absurd hpos ((hunmet' r' hr').use r hr)
    · obtain hr' | hr' := (hmem r').1 hr'
      · exact absurd hpos.symm ((hunmet' r hr).use r' hr')
      · exact List.inj_on_of_nodup_map hpairs hr hr' hpos
  · intro i b hb r hr hpos
    obtain ⟨a, ha, hkeeps⟩ | ⟨rfl, hdecl, huse, -⟩ := hbinding i b hb
    · rw [hkeeps.decl] at hpos
      obtain hr | hr := (hmem r).1 hr
      · exact h.declaration i a ha r hr hpos
      · exact absurd hpos.symm ((hunmet' r hr).declaration i a ha)
    · obtain hr | hr := (hmem r).1 hr
      · exact absurd hpos ((hunmet _ hdecl).use r hr)
      · exact huse r hr hpos
  · intro i j b b' hb hb' hpos
    obtain ⟨a, ha, hkeeps⟩ | ⟨rfl, hdecl, -⟩ := hbinding i b hb
    · obtain ⟨a', ha', hkeeps'⟩ | ⟨rfl, hdecl', -⟩ := hbinding j b' hb'
      · exact h.binding i j a a' ha ha' (hkeeps.decl ▸ hkeeps'.decl ▸ hpos)
      · exact absurd (hkeeps.decl ▸ hpos) ((hunmet _ hdecl').declaration i a ha)
    · obtain ⟨a', ha', hkeeps'⟩ | ⟨rfl, -⟩ := hbinding j b' hb'
      · exact absurd (hkeeps'.decl ▸ hpos.symm) ((hunmet _ hdecl).declaration j a' ha')
      · rfl
  · intro i b hb
    obtain ⟨a, ha, hkeeps⟩ | ⟨-, -, -, hused⟩ := hbinding i b hb
    · obtain hkind | hkind := hkeeps.kind
      · obtain hfunc | ⟨r, hr, hident⟩ := h.used i a ha
        · exact .inl (hkind.trans hfunc)
        · exact .inr ⟨r, (hmem r).2 (.inl hr), hident.trans hkeeps.decl.symm⟩
      · exact .inl hkind
    · exact hused.imp_right fun ⟨r, hr, hident⟩ => ⟨r, (hmem r).2 (.inr hr), hident⟩

theorem Recorded.run (pairs : Bracket.Pairs) {events : List Event} {w : Walk} (h : w.Recorded)
    (hw : w.Valid) (hnodup : ((events.flatMap Event.idents).map (·.pos)).Nodup)
    (hunmet : ∀ id ∈ events.flatMap Event.idents, w.Unmet id.pos) :
    (w.run pairs events).Recorded := by
  induction events generalizing w with
  | nil => exact h
  | cons e events ih =>
    rw [List.flatMap_cons] at hnodup hunmet
    rw [List.map_append, List.nodup_append] at hnodup
    obtain ⟨hfirst, hrest, hapart⟩ := hnodup
    refine ih (h.step hw pairs e hfirst fun id hid => hunmet id (List.mem_append_left _ hid))
      (hw.step pairs e) hrest fun id hid => ?_
    refine (grows_step hw pairs e).unmet ?_ (hunmet id (List.mem_append_right _ hid))
    exact fun hmem => hapart _ hmem _ (List.mem_map_of_mem hid) rfl

/-- The walk of a text records everything once. -/
theorem recorded_ofText (text : String) :
    (ofProgram (.ofText text) (Program.parse text).program).Recorded := by
  refine Recorded.run _ (w := start _) ⟨?_, ?_, ?_, ?_⟩ (valid_start _)
    (Program.nodup_eventPositions text) fun id _ => ⟨?_, ?_⟩ <;> simp [start]

/-! ## One step of a walk -/

theorem mem_references_declareAndRefer (w : Walk) (id : Ident) (kind : BindingKind)
    (f : Binding → Binding) : ⟨id, .binding (w.declare id kind).2⟩
      ∈ (w.declareAndRefer id kind f).references :=
  Array.mem_push_self

/-- The walk of a text comes to a step, with others left. What the step names is named neither
    before nor behind it. -/
structure Meets (text : String) (w : Walk) (e : Event) (back : List Event) : Prop where
  valid : w.Valid
  unmet : ∀ id ∈ e.idents, w.Unmet id.pos
  apart : ∀ id ∈ e.idents, id.pos ∉ (back.flatMap Event.idents).map (·.pos)
  rest : ofProgram (.ofText text) (Program.parse text).program
    = (w.step (.ofText text) e).run (.ofText text) back

theorem meets_of_events_eq {text : String} {front back : List Event} {e : Event}
    (h : (Program.parse text).program.events = front ++ e :: back) :
    Meets text ((start (Bracket.Pairs.ofText text).stop).run (.ofText text) front) e back := by
  have hnodup := Program.nodup_eventPositions text
  rw [Program.eventIdents, h, List.flatMap_append, List.flatMap_cons, List.map_append,
    List.map_append, List.nodup_append] at hnodup
  obtain ⟨-, hbehind, hbefore⟩ := hnodup
  obtain ⟨-, -, hapart⟩ := List.nodup_append.1 hbehind
  have hvalid := valid_start (Bracket.Pairs.ofText text).stop
  refine ⟨hvalid.run _ front, fun id hid => ?_, fun id hid hmem => ?_, ?_⟩
  · have hmem : id.pos ∈ e.idents.map (·.pos) := List.mem_map_of_mem hid
    refine (grows_run hvalid _ front).unmet ?_ ⟨?_, ?_⟩
    · exact fun hfront => hbefore _ hfront _ (List.mem_append_left _ hmem) rfl
    · simp [start]
    · simp [start]
  · exact hapart _ (List.mem_map_of_mem hid) _ hmem rfl
  · rw [ofProgram, h, run, List.foldl_append]
    rfl

namespace Meets

variable {text : String} {w : Walk} {e : Event} {back : List Event}

/-- What the step adds stays. -/
theorem grows (h : Meets text w e back) : Grows (back.flatMap Event.idents)
    (w.step (.ofText text) e) (ofProgram (.ofText text) (Program.parse text).program) := by
  rw [h.rest]
  exact grows_run (h.valid.step _ e) _ back

theorem mem_references (h : Meets text w e back) {r : Reference}
    (hr : r ∈ (w.step (.ofText text) e).references) : r ∈ (Analysis.ofText text).references := by
  obtain ⟨more, hmore, -⟩ := h.grows.references
  show r ∈ (ofProgram (.ofText text) (Program.parse text).program).references
  rw [hmore]
  exact Array.mem_append_left _ hr

end Meets

end Walk

end Welle
