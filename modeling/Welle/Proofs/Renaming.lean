import Welle.Proofs.Renaming.Walk

set_option autoImplicit false

/-! # Renaming a variable or a parameter

The places where a file names a variable or a parameter can all be written with another name. If the
name is new to the program, nothing else changes: every name still stands for what it stood for. -/

namespace Welle

/-- The identifier, with the name `n` if it stands at one of the places. -/
def Ident.renameAt (places : List Position) (n : String) (id : Ident) : Ident :=
  if id.pos ∈ places then ⟨n, id.pos⟩ else id

namespace Analysis

/-- `firstAt` leaves out no place that is not among `seen`. -/
theorem mem_positions_firstAt (seen : List Position) (ids : List Ident) (pos : Position) :
    pos ∈ (firstAt seen ids).map (·.pos) ↔ pos ∉ seen ∧ pos ∈ ids.map (·.pos) := by
  induction ids generalizing seen with
  | nil => simp [firstAt]
  | cons id ids ih =>
    rw [firstAt]
    split
    next hseen =>
      rw [ih]
      have := List.contains_iff_mem.1 hseen
      grind
    next hseen =>
      rw [List.map_cons, List.mem_cons, ih]
      have : id.pos ∉ seen := fun h => hseen (List.contains_iff_mem.2 h)
      grind

/-- The places that name a binding are those where the walk records it. -/
theorem mem_places_iff {an : Analysis} {w : Walk} (hbindings : an.bindings = w.bindings)
    (hreferences : an.references = w.references) {b : Nat} {x : Binding}
    (hx : an.bindings[b]? = some x) (pos : Position) :
    pos ∈ (an.occurrencesOf (.declaration b) true).map (·.pos) ↔ w.NamedAt b pos := by
  have hoccurrences : an.occurrencesOf (.declaration b) true =
      x.decl :: firstAt [x.decl.pos] ((an.referencesTo b).map (·.ident)) := by
    simp [occurrencesOf, Site.binding?, hx]
  have huses : pos ∈ ((an.referencesTo b).map (·.ident)).map (·.pos) ↔
      ∃ r ∈ w.references, r.binding? = some b ∧ r.ident.pos = pos := by
    simp [referencesTo, hreferences, and_assoc]
  have hdecl : (∃ y, w.bindings[b]? = some y ∧ y.decl.pos = pos) ↔ pos = x.decl.pos := by
    simp [← hbindings, hx, eq_comm]
  rw [hoccurrences, List.map_cons, List.mem_cons, mem_positions_firstAt, huses, Walk.NamedAt, hdecl,
    List.mem_singleton]
  tauto

theorem walk_renamed (pairs : Bracket.Pairs) {program : Program}
    (hnodup : (program.eventIdents.map (·.pos)).Nodup) {b : Nat} {x : Binding}
    (hx : (Walk.ofProgram pairs program).bindings[b]? = some x)
    (hkind : x.kind = .var ∨ x.kind = .param) {n : String} (hdiscard : n ≠ "_")
    (hfresh : ∀ id ∈ program.idents, id.name ≠ n) {places : List Position}
    (hplaces : ∀ pos, pos ∈ places ↔ (Walk.ofProgram pairs program).NamedAt b pos) :
    Walk.Renamed (Ident.renameAt places n) b n (Walk.ofProgram pairs program)
      (Walk.ofProgram pairs (program.mapIdents (Ident.renameAt places n))) := by
  have hstart : Walk.Renamed (Ident.renameAt places n) b n (Walk.start pairs.stop)
      (Walk.start pairs.stop) :=
    ⟨by simp [Walk.start, Scope.rename], by simp [Walk.start], by simp [Walk.start], rfl⟩
  refine hstart.run hdiscard pairs (Walk.valid_start pairs.stop) (by simp [Walk.start])
    (program.events_mapIdents _) (fun id hid => hfresh id (program.eventIdents_subperm.subset hid))
    hnodup (fun id _ => by simp [Walk.NamedAt, Walk.start]) ?_ ?_
  · intro y hy
    rwa [← Option.some.inj (hx.symm.trans hy)]
  · intro id _
    refine Walk.Fits.congr ⟨?_, ?_⟩ (hplaces id.pos)
    · intro hmem
      exact if_pos hmem
    · intro hmem
      exact if_neg hmem

/-- A new name for a variable or a parameter, written at all places that name it, captures nothing
    and leaves no use behind: the walk finds the same scopes, the same bindings and the same
    references with the same meaning. -/
theorem rename_keeps_meaning (text : String) {b : Nat} {x : Binding}
    (hx : (ofText text).bindings[b]? = some x) (hkind : x.kind = .var ∨ x.kind = .param)
    {n : String} (hdiscard : n ≠ "_") (hfresh : ∀ id ∈ (ofText text).program.idents, id.name ≠ n) :
    let an := ofText text
    let rename := Ident.renameAt ((an.occurrencesOf (.declaration b) true).map (·.pos)) n
    let w := Walk.ofProgram (.ofText text) (an.program.mapIdents rename)
    w.scopes.map (fun s => (s.parent, s.children, s.span))
        = an.scopes.map (fun s => (s.parent, s.children, s.span))
      ∧ w.bindings.map (fun y => (y.kind, y.scope, y.decl.pos, y.name))
        = an.bindings.mapIdx (fun i y =>
            (y.kind, y.scope, y.decl.pos, if i = b then n else y.name))
      ∧ w.references = an.references.map (fun r => ⟨rename r.ident, r.resolution⟩) := by
  intro an rename w
  have hside : Walk.Renamed rename b n (Walk.ofProgram (.ofText text) an.program) w :=
    walk_renamed _ (Program.nodup_eventPositions text) hx hkind hdiscard hfresh
      (mem_places_iff rfl rfl hx)
  refine ⟨?_, ?_, hside.references⟩
  · rw [hside.scopes, Array.map_map]
    rfl
  · -- what the statement says of a binding needs none of the texts that it copies
    have hbare : w.bindings.map (fun y => (y.kind, y.scope, y.decl.pos, y.name)) =
        (w.bindings.map Binding.bare).map fun y => (y.kind, y.scope, y.decl.pos, y.name) := by
      rw [Array.map_map]
      rfl
    rw [hbare, hside.bindings]
    apply Array.ext_getElem?
    intro i
    simp only [Array.getElem?_map, Array.getElem?_mapIdx, Option.map_map]
    refine congrArg (Option.map · an.bindings[i]?) (funext fun y => ?_)
    dsimp only [Function.comp]
    split <;> rfl

/-- A parameter that a loop in its function hides: the loop keeps its own variable. -/
theorem rename_shadowed_param :
    let text := "t = 0\nfunc add(a, b) \x7b t = a; for a in b \x7b t += a \x7d \x7d\n"
    let rename := Ident.renameAt [⟨2, 10⟩, ⟨2, 22⟩] "z"
    (ofText text).bindings[2]? = some ⟨"a", .param, ⟨"a", ⟨2, 10⟩⟩, 1, [], none, none⟩
      ∧ ((ofText text).occurrencesOf (.declaration 2) true).map (·.pos) = [⟨2, 10⟩, ⟨2, 22⟩]
      ∧ (Walk.ofProgram (.ofText text) ((ofText text).program.mapIdents rename)).references
        = (ofText text).references.map fun r => ⟨rename r.ident, r.resolution⟩ := by
  intro text rename
  have hx : (ofText text).bindings[2]? = some ⟨"a", .param, ⟨"a", ⟨2, 10⟩⟩, 1, [], none, none⟩ := by
    decide +kernel
  have hplaces : ((ofText text).occurrencesOf (.declaration 2) true).map (·.pos)
      = [⟨2, 10⟩, ⟨2, 22⟩] := by
    decide +kernel
  have hmeaning := rename_keeps_meaning text hx (.inr rfl) (n := "z") (by decide)
    (by decide +kernel)
  dsimp only at hmeaning
  rw [hplaces] at hmeaning
  exact ⟨hx, hplaces, hmeaning.2.2⟩

end Analysis

end Welle
