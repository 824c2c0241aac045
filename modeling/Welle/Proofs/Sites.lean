import Welle.Proofs.Editor
import Welle.Proofs.Recorded

set_option autoImplicit false

/-! # What stands at an identifier

At the place of an identifier the analysis finds what the walk recorded there and nothing else: no
other identifier reaches that far. -/

namespace Welle

/-- An identifier ends on the line it starts on, behind its bytes, of which there is at least one. -/
theorem Program.after_name {text : String} {id : Ident}
    (h : id ∈ (Program.parse text).program.idents) :
    id.pos.after id.name.toList = ⟨id.pos.line, id.pos.column + id.name.utf8ByteSize⟩ ∧
      0 < id.name.utf8ByteSize := by
  obtain ⟨before, behind, -, -, hword, -⟩ := Program.located_of_mem h
  obtain ⟨c, hc, -⟩ := hword.starts
  obtain ⟨rest, hrest⟩ := List.head?_eq_some_iff.1 hc
  rw [Text.utf8ByteSize_eq]
  refine ⟨Position.after_of_not_mem _ (Editor.newline_not_mem hword), ?_⟩
  have := c.utf8Size_pos
  rw [hrest, Text.byteLength]
  omega

namespace Analysis

/-- Only the identifier itself covers the place where it starts. -/
theorem eq_of_covers {text : String} {a b : Ident} (ha : a ∈ (Program.parse text).program.idents)
    (hb : b ∈ (Program.parse text).program.idents) (h : a.covers b.pos = true) : a = b := by
  by_contra hne
  have hcovers : b.pos.line = a.pos.line ∧ a.pos.column ≤ b.pos.column
      ∧ b.pos.column ≤ a.pos.column + max a.name.utf8ByteSize 1 := by
    simpa [Ident.covers, and_assoc] using h
  obtain ⟨hafter, hsize⟩ := Program.after_name ha
  obtain ⟨hafter', hsize'⟩ := Program.after_name hb
  obtain hlt | hlt := Program.apart_of_ne ha hb hne
  · rw [hafter, Position.lt_iff] at hlt
    simp only at hlt
    omega
  · rw [hafter', Position.lt_iff] at hlt
    simp only at hlt
    omega

section Text

variable {text : String}

/-- Everything that a walk records is an identifier that its steps name. -/
theorem ident_mem_eventIdents {r : Reference} (hr : r ∈ (ofText text).references) :
    r.ident ∈ (Program.parse text).program.eventIdents := by
  have hgrows := Walk.grows_ofProgram (.ofText text) (Program.parse text).program
  obtain ⟨more, hmore, hids⟩ := hgrows.references
  have hr' : r ∈ more := by
    have hall : (ofText text).references = (Walk.start _).references ++ more := hmore
    simpa [hall, Walk.start] using hr
  exact hids r hr'

theorem decl_mem_eventIdents {i : Nat} {b : Binding} (hb : (ofText text).bindings[i]? = some b) :
    b.decl ∈ (Program.parse text).program.eventIdents := by
  have hgrows := Walk.grows_ofProgram (.ofText text) (Program.parse text).program
  obtain ⟨a, ha, -⟩ | ⟨-, hdecl⟩ := hgrows.bindings i b hb
  · simp [Walk.start] at ha
  · exact hdecl

theorem ident_mem {r : Reference} (hr : r ∈ (ofText text).references) :
    r.ident ∈ (Program.parse text).program.idents :=
  (Program.eventIdents_subperm _).subset (ident_mem_eventIdents hr)

theorem decl_mem {i : Nat} {b : Binding} (hb : (ofText text).bindings[i]? = some b) :
    b.decl ∈ (Program.parse text).program.idents :=
  (Program.eventIdents_subperm _).subset (decl_mem_eventIdents hb)

theorem decl_name {i : Nat} {b : Binding} (hb : (ofText text).bindings[i]? = some b) :
    b.decl.name = b.name :=
  (Walk.valid_ofProgram (.ofText text) (Program.parse text).program).declared i b hb

/-- A use of a binding is spelled like it. -/
theorem name_of_binding {r : Reference} (hr : r ∈ (ofText text).references) {i : Nat}
    (hres : r.resolution = .binding i) {b : Binding}
    (hb : (ofText text).bindings[i]? = some b) : r.ident.name = b.name := by
  have hmeans := (Walk.valid_ofProgram (.ofText text) (Program.parse text).program).means r hr
  rw [hres] at hmeans
  obtain ⟨a, ha, hname⟩ := hmeans
  rw [← hname, Option.some.inj (ha.symm.trans hb)]

/-- A use of a member of a module is spelled like it. -/
theorem name_of_member {r : Reference} (hr : r ∈ (ofText text).references)
    {base spec member : String} (hres : r.resolution = .moduleMember base spec member) :
    r.ident.name = member := by
  have hmeans := (Walk.valid_ofProgram (.ofText text) (Program.parse text).program).means r hr
  rw [hres] at hmeans
  exact hmeans.symm

theorem recorded (text : String) :
    (Walk.ofProgram (.ofText text) (Program.parse text).program).Recorded :=
  Walk.recorded_ofText text

/-! ## Sites -/

theorem siteAt?_reference {r : Reference} (hr : r ∈ (ofText text).references) :
    (ofText text).siteAt? r.ident.pos = some (.reference r) := by
  have hself : r.ident.covers r.ident.pos = true := by simp [Ident.covers]
  obtain ⟨found, hfound⟩ := Option.isSome_iff_exists.1 <|
    (Array.find?_isSome (p := fun r' => r'.ident.covers r.ident.pos)).2 ⟨r, hr, hself⟩
  have hmem := Array.mem_of_find?_eq_some hfound
  have hcovers : found.ident.covers r.ident.pos = true := by
    simpa using Array.find?_some hfound
  have hident := eq_of_covers (ident_mem hmem) (ident_mem hr) hcovers
  have hsame : found = r := (recorded text).use found hmem r hr (by rw [hident])
  rw [siteAt?, hfound, hsame]

theorem find?_references_eq_none {id : Ident} (hid : id ∈ (Program.parse text).program.idents)
    (hnone : ∀ r ∈ (ofText text).references, r.ident ≠ id) :
    (ofText text).references.find? (·.ident.covers id.pos) = none := by
  rw [Array.find?_eq_none]
  intro r hr hcovers
  exact hnone r hr (eq_of_covers (ident_mem hr) hid hcovers)

/-- At a declaration that is no use stands the binding that it declares. -/
theorem siteAt?_declaration {i : Nat} {b : Binding} (hb : (ofText text).bindings[i]? = some b)
    (hnone : ∀ r ∈ (ofText text).references, r.ident ≠ b.decl) :
    (ofText text).siteAt? b.decl.pos = some (.declaration i) := by
  have hfind : (ofText text).bindings.findIdx? (·.decl.covers b.decl.pos) = some i := by
    rw [Array.findIdx?_eq_some_iff_getElem]
    obtain ⟨hlt, hget⟩ := Array.getElem?_eq_some_iff.1 hb
    refine ⟨hlt, by simp [hget, Ident.covers], fun j hj hcovers => ?_⟩
    have hj' : (ofText text).bindings[j]? = some (ofText text).bindings[j] :=
      Array.getElem?_eq_getElem (Nat.lt_trans hj hlt)
    have hdecl := eq_of_covers (decl_mem hj') (decl_mem hb) hcovers
    have hsame := (recorded text).binding j i _ _ hj' hb (by rw [hdecl])
    omega
  rw [siteAt?, find?_references_eq_none (decl_mem hb) hnone, hfind]
  rfl

/-- Where nothing is recorded stands nothing. -/
theorem siteAt?_eq_none {id : Ident} (hid : id ∈ (Program.parse text).program.idents)
    (hreferences : ∀ r ∈ (ofText text).references, r.ident ≠ id)
    (hbindings : ∀ (i : Nat) (b : Binding), (ofText text).bindings[i]? = some b → b.decl ≠ id) :
    (ofText text).siteAt? id.pos = none := by
  have hfind : (ofText text).bindings.findIdx? (·.decl.covers id.pos) = none := by
    rw [Array.findIdx?_eq_none_iff]
    intro b hb
    obtain ⟨i, hi⟩ := Array.getElem?_of_mem hb
    rw [Bool.eq_false_iff]
    exact fun hcovers => hbindings i b hi (eq_of_covers (decl_mem hi) hid hcovers)
  rw [siteAt?, find?_references_eq_none hid hreferences, hfind]
  rfl

end Text

end Analysis

end Welle
