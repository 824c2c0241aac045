import Mathlib.Data.List.Basic
import Welle.Path

set_option autoImplicit false

/-! # Normal forms of paths

The normal form of an absolute path is written from the names that lead to a place (`Path.names`), and
it reads back as these names. A path that is joined to an absolute one only adds steps behind those of
that path, so where it leads depends on nothing but the names: the path may be normalized before or
not. -/

namespace Welle

theorem not_mem_of_mem_splitOn {α : Type} [DecidableEq α] {sep : α} {xs piece : List α}
    (h : piece ∈ xs.splitOn sep) : sep ∉ piece := by
  induction xs generalizing piece with
  | nil =>
    obtain rfl := List.mem_singleton.1 h
    exact List.not_mem_nil
  | cons x xs ih =>
    simp only [List.splitOn_cons_eq_if_modifyHead, beq_iff_eq] at h
    split at h
    · rcases List.mem_cons.1 h with rfl | h
      · exact List.not_mem_nil
      · exact ih h
    next hx =>
      obtain ⟨first, more, hpieces⟩ := List.exists_cons_of_ne_nil (List.splitOn_ne_nil sep xs)
      rw [hpieces] at h ih
      rcases List.mem_cons.1 h with rfl | h
      · rw [List.mem_cons, not_or]
        exact ⟨Ne.symm hx, ih List.mem_cons_self⟩
      · exact ih (List.mem_cons_of_mem first h)

namespace Path

/-! ## Names -/

/-- What can name a place within a directory. -/
structure IsName (label : Bytes) : Prop where
  ne_nil : label ≠ []
  ne_dot : label ≠ [dot]
  ne_dots : label ≠ [dot, dot]
  slash : Path.slash ∉ label

/-- The steps that the segments of a path say. -/
def steps (p : Path) : List Component := p.segments.filterMap Component.ofSegment?

theorem isName_of_ofSegment? {segment label : Bytes} (hslash : slash ∉ segment)
    (h : Component.ofSegment? segment = some (.name label)) : IsName label := by
  unfold Component.ofSegment? at h
  split at h
  · cases h
  next hidle =>
    split at h
    · cases h
    next hdots =>
      cases h
      rw [isIdle, Bool.or_eq_true, decide_eq_true_eq, decide_eq_true_eq, not_or] at hidle
      exact ⟨hidle.1, hidle.2, hdots, hslash⟩

theorem isName_of_mem_steps {p : Path} {label : Bytes} (h : .name label ∈ p.steps) :
    IsName label := by
  obtain ⟨segment, hsegment, hlabel⟩ := List.mem_filterMap.1 h
  exact isName_of_ofSegment? (not_mem_of_mem_splitOn hsegment) hlabel

/-- Names are only taken from the steps. -/
theorem mem_foldl_advance {names : List Bytes} {components : List Component} {label : Bytes}
    (h : label ∈ components.foldl advance names) : label ∈ names ∨ .name label ∈ components := by
  induction components generalizing names with
  | nil => exact .inl h
  | cons c cs ih =>
    rcases ih h with h | h
    · cases c with
      | root => cases h
      | here => exact .inl h
      | up => exact .inl ((List.dropLast_sublist names).subset h)
      | name other =>
        rcases List.mem_append.1 h with h | h
        · exact .inl h
        · rw [List.mem_singleton.1 h]
          exact .inr List.mem_cons_self
    · exact .inr (List.mem_cons_of_mem c h)

/-! ## Absolute paths -/

theorem exists_of_isAbsolute {p : Path} (h : p.isAbsolute = true) :
    ∃ rest, p.bytes = slash :: rest := by
  have hhead : p.bytes.head? = some slash := by simpa [isAbsolute] using h
  exact List.head?_eq_some_iff.1 hhead

theorem components_of_isAbsolute {p : Path} (h : p.isAbsolute = true) :
    p.components = .root :: p.steps := by
  obtain ⟨rest, hrest⟩ := exists_of_isAbsolute h
  have hsegments : p.segments = [] :: rest.splitOn slash := by
    rw [segments, hrest, List.splitOn_cons_eq_if_modifyHead, if_pos (beq_self_eq_true slash)]
  have hidle : Component.ofSegment? [] = none := rfl
  rw [components, steps, hsegments, List.filterMap_cons_none hidle]
  simp only [h, if_true]

/-- The names of an absolute path are those that its steps lead along. -/
theorem names_of_isAbsolute {p : Path} (h : p.isAbsolute = true) :
    p.names = p.steps.foldl advance [] := by
  rw [names, components_of_isAbsolute h, List.foldl_cons, advance]

theorem isName_of_mem_names {p : Path} (h : p.isAbsolute = true) {label : Bytes}
    (hlabel : label ∈ p.names) : IsName label := by
  rw [names_of_isAbsolute h] at hlabel
  rcases mem_foldl_advance hlabel with hnil | hstep
  · cases hnil
  · exact isName_of_mem_steps hstep

theorem normalize_of_isAbsolute {p : Path} (h : p.isAbsolute = true) :
    p.normalize = ofNames p.names := by
  obtain ⟨rest, hrest⟩ := exists_of_isAbsolute h
  exact if_neg (by simp [hrest])

/-! ## Paths from names -/

theorem isAbsolute_ofNames (names : List Bytes) : (ofNames names).isAbsolute = true := rfl

theorem segments_ofNames {names : List Bytes} (h : ∀ label ∈ names, IsName label) :
    (ofNames names).segments = [] :: if names = [] then [[]] else names := by
  rw [segments, ofNames, List.splitOn_cons_eq_if_modifyHead, if_pos (beq_self_eq_true slash)]
  split
  next hnil =>
    rw [hnil]
    rfl
  next hne => rw [List.splitOn_intercalate slash (fun label hlabel => (h label hlabel).slash) hne]

/-- The steps of a path from names are these names. -/
theorem steps_ofNames {names : List Bytes} (h : ∀ label ∈ names, IsName label) :
    (ofNames names).steps = names.map .name := by
  have hstep : ∀ label ∈ names, Component.ofSegment? label = some (.name label) := by
    intro label hlabel
    obtain ⟨hnil, hdot, hdots, -⟩ := h label hlabel
    simp [Component.ofSegment?, isIdle, hnil, hdot, hdots]
  have hidle : Component.ofSegment? [] = none := rfl
  rw [steps, segments_ofNames h, List.filterMap_cons_none hidle]
  split
  next hnil =>
    rw [hnil]
    rfl
  next => rw [List.filterMap_congr hstep, List.filterMap_eq_map']

theorem foldl_advance_names (front names : List Bytes) :
    (names.map Component.name).foldl advance front = front ++ names := by
  induction names generalizing front with
  | nil => simp
  | cons label names ih => rw [List.map_cons, List.foldl_cons, ih, advance, List.append_assoc]; rfl

theorem names_ofNames {names : List Bytes} (h : ∀ label ∈ names, IsName label) :
    (ofNames names).names = names := by
  rw [names_of_isAbsolute (isAbsolute_ofNames names), steps_ofNames h, foldl_advance_names,
    List.nil_append]

/-- The normal form of a path leads to where the path leads. -/
theorem names_normalize {p : Path} (h : p.isAbsolute = true) : p.normalize.names = p.names := by
  rw [normalize_of_isAbsolute h]
  exact names_ofNames fun label hlabel => isName_of_mem_names h hlabel

/-! ## Joined paths -/

theorem segments_append_slash (front back : Bytes) :
    segments ⟨front ++ slash :: back⟩ = segments ⟨front⟩ ++ segments ⟨back⟩ :=
  List.splitOn_append_cons_self front back

/-- A relative path that is joined to an absolute one adds its steps. -/
theorem steps_join {p q : Path} (hp : p.isAbsolute = true) (hq : q.isAbsolute = false) :
    (p.join q).steps = p.steps ++ q.steps := by
  obtain ⟨rest, hrest⟩ := exists_of_isAbsolute hp
  have hne : p.bytes ≠ [] := by simp [hrest]
  unfold join
  rw [if_neg (by simp [hq])]
  split
  next hslash =>
    -- behind a slash at the end stands one more segment, which says nothing
    rw [Bool.or_eq_true, decide_eq_true_eq, decide_eq_true_eq, or_iff_right hne] at hslash
    obtain ⟨front, hfront⟩ := List.getLast?_eq_some_iff.1 hslash
    have hsegments : p.segments = segments ⟨front⟩ ++ [[]] := by
      rw [segments, hfront]
      exact segments_append_slash front []
    rw [steps, steps, steps, hsegments, hfront, List.append_assoc, List.singleton_append,
      segments_append_slash]
    simp [Component.ofSegment?, isIdle]
  next => rw [steps, segments_append_slash, List.filterMap_append]; rfl

theorem isAbsolute_join {p q : Path} (hp : p.isAbsolute = true) : (p.join q).isAbsolute = true := by
  obtain ⟨rest, hrest⟩ := exists_of_isAbsolute hp
  unfold join
  split
  next hq => exact hq
  split <;> simp [isAbsolute, hrest]

theorem names_join {p q : Path} (hp : p.isAbsolute = true) (hq : q.isAbsolute = false) :
    (p.join q).names = q.steps.foldl advance p.names := by
  rw [names_of_isAbsolute (isAbsolute_join hp), steps_join hp hq, List.foldl_append,
    names_of_isAbsolute hp]

/-- Absolute paths have the same normal form exactly if they lead along the same names. -/
theorem normalize_eq_iff {p q : Path} (hp : p.isAbsolute = true) (hq : q.isAbsolute = true) :
    p.normalize = q.normalize ↔ p.names = q.names := by
  constructor
  · intro heq
    rw [← names_normalize hp, heq, names_normalize hq]
  · intro hnames
    rw [normalize_of_isAbsolute hp, normalize_of_isAbsolute hq, hnames]

/-- The normal form of an absolute path is absolute and has no dots and no steps up, it is its own
    normal form, and a relative path leads from it to where it leads from the path itself. -/
theorem normalize_join {p q : Path} (hp : p.isAbsolute = true) (hq : q.isAbsolute = false) :
    p.normalize.isAbsolute = true
      ∧ .here ∉ p.normalize.components ∧ .up ∉ p.normalize.components
      ∧ [dot] ∉ p.normalize.segments ∧ [dot, dot] ∉ p.normalize.segments
      ∧ p.normalize.normalize = p.normalize
      ∧ (p.normalize.join q).normalize = (p.join q).normalize := by
  have hnames : ∀ label ∈ p.names, IsName label := fun label => isName_of_mem_names hp
  have habsolute : p.normalize.isAbsolute = true := by
    rw [normalize_of_isAbsolute hp]
    exact isAbsolute_ofNames p.names
  have hcomponents : p.normalize.components = .root :: p.names.map .name := by
    rw [components_of_isAbsolute habsolute, normalize_of_isAbsolute hp, steps_ofNames hnames]
  have hsegments : ∀ segment ∈ p.normalize.segments, segment = [] ∨ IsName segment := by
    intro segment hsegment
    rw [normalize_of_isAbsolute hp, segments_ofNames hnames] at hsegment
    rcases List.mem_cons.1 hsegment with hnil | hsegment
    · exact .inl hnil
    · split at hsegment
      · exact .inl (List.mem_singleton.1 hsegment)
      · exact .inr (hnames segment hsegment)
  refine ⟨habsolute, ?_, ?_, ?_, ?_, ?_, ?_⟩
  · simp [hcomponents]
  · simp [hcomponents]
  · intro hdot
    rcases hsegments _ hdot with hnil | hname
    · cases hnil
    · exact hname.ne_dot rfl
  · intro hdots
    rcases hsegments _ hdots with hnil | hname
    · cases hnil
    · exact hname.ne_dots rfl
  · rw [normalize_eq_iff habsolute hp, names_normalize hp]
  · rw [normalize_eq_iff (isAbsolute_join habsolute) (isAbsolute_join hp), names_join habsolute hq,
      names_join hp hq, names_normalize hp]

/-- A path that climbs above the root, and one that climbs above where it leads. -/
theorem normalize_join_climbing :
    isAbsolute ⟨"/../a/./b//"⟩ = true ∧ isAbsolute ⟨"../../../c"⟩ = false
      ∧ normalize ⟨"/../a/./b//"⟩ = ⟨"/a/b"⟩ ∧ (join ⟨"/a/b"⟩ ⟨"../../../c"⟩).normalize
        = (join ⟨"/../a/./b//"⟩ ⟨"../../../c"⟩).normalize := by
  have habsolute : isAbsolute ⟨"/../a/./b//"⟩ = true := by decide +kernel
  have hrelative : isAbsolute ⟨"../../../c"⟩ = false := by decide +kernel
  have hnormal : normalize ⟨"/../a/./b//"⟩ = ⟨"/a/b"⟩ := by decide +kernel
  obtain ⟨-, -, -, -, -, -, hjoin⟩ := normalize_join habsolute hrelative
  rw [hnormal] at hjoin
  exact ⟨habsolute, hrelative, hnormal, hjoin⟩

end Path

end Welle
