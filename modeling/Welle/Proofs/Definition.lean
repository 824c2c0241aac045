import Welle.Feature.Definition
import Welle.Proofs.Edits
import Welle.Proofs.Store
import Welle.Proofs.TopLevel

set_option autoImplicit false

/-! # Where definitions and references lead

A location that is found for a name covers the name and nothing else. For a name of the document
this is a matter of one text. For a member of another module two things come together that are read
separately: the identifier comes from the index of the module, which is kept for open documents, and
the range from the text. They fit because the index that is kept is always that of the text. -/

namespace Welle

namespace Site

/-- A site stands for the member of a module: it is a member of a name for the module, or it has an
    imported binding. -/
inductive Imports (an : Analysis) : Site → String → String → Prop where
  | member {id : Ident} {base spec text : String} :
      Imports an (.reference ⟨id, .moduleMember base spec text⟩) spec text
  | imported {site : Site} {i : Nat} {b : Binding} {spec text : String}
      (hsite : site.binding? = some i) (hb : an.bindings[i]? = some b) (hkind : b.kind = .imported)
      (hspec : b.modulePath = some spec) (hmember : b.member = some text) :
      Imports an site spec text

/-- A site has a binding that is declared in its own file. -/
structure Local (an : Analysis) (site : Site) (b : Binding) : Prop where
  binding : ∃ i, site.binding? = some i ∧ an.bindings[i]? = some b
  kind : b.kind ≠ .imported

/-- The name of a site in its own file: that of its binding, or that of a member. -/
inductive Named (an : Analysis) : Site → String → Prop where
  | member {id : Ident} {base spec text : String} :
      Named an (.reference ⟨id, .moduleMember base spec text⟩) text
  | binding {site : Site} {i : Nat} {b : Binding} (hsite : site.binding? = some i)
      (hb : an.bindings[i]? = some b) : Named an site b.name

end Site

namespace Analysis

variable {text : String}

theorem occurrencesOf_subset (an : Analysis) (site : Site) (withDeclaration : Bool) :
    an.occurrencesOf site withDeclaration ⊆ an.occurrencesOf site true := by
  unfold occurrencesOf
  split
  · exact List.Subset.refl _
  · split
    · exact List.Subset.refl _
    · split
      · exact List.Subset.refl _
      · cases withDeclaration
        · exact List.subset_cons_self _ _
        · exact List.Subset.refl _

/-- The identifiers that stand for the same member as a site are spelled like the member. -/
theorem name_of_mem_occurrencesOf_member {used id : Ident} {base spec member : String}
    {withDeclaration : Bool} (h : id ∈ (ofText text).occurrencesOf
      (.reference ⟨used, .moduleMember base spec member⟩) withDeclaration) :
    id.name = member ∧ id ∈ (Program.parse text).program.idents := by
  obtain ⟨r, hr, rfl⟩ := List.mem_map.1 (firstAt_subset _ _ h)
  obtain ⟨hr, hnames⟩ := List.mem_filter.1 hr
  have hr := Array.mem_toList_iff.1 hr
  refine ⟨?_, ident_mem hr⟩
  unfold namesMember at hnames
  split at hnames
  next a path m hres =>
    simp only [Bool.and_eq_true, decide_eq_true_eq] at hnames
    rw [name_of_member hr hres, hnames.2]
  next => cases hnames

/-- The identifiers that stand for the same as a site are spelled like the name of the site. -/
theorem named_of_mem_occurrencesOf {site : Site} {withDeclaration : Bool} {id : Ident}
    (h : id ∈ (ofText text).occurrencesOf site withDeclaration) :
    site.Named (ofText text) id.name ∧ id ∈ (Program.parse text).program.idents := by
  have hbinding {i : Nat} (hsite : site.binding? = some i) :
      site.Named (ofText text) id.name ∧ id ∈ (Program.parse text).program.idents := by
    cases hb : (ofText text).bindings[i]? with
    | none =>
      rw [occurrencesOf_eq_nil hsite hb] at h
      cases h
    | some b =>
      obtain ⟨hmem, hname⟩ := (occurrencesOf_spelled hsite hb).1 id (occurrencesOf_subset _ _ _ h)
      exact ⟨hname ▸ .binding hsite hb, hmem⟩
  obtain ⟨used, resolution⟩ | i := site
  · cases resolution with
    | binding i => exact hbinding rfl
    | moduleMember base spec member =>
      obtain ⟨hname, hmem⟩ := name_of_mem_occurrencesOf_member h
      exact ⟨hname ▸ .member, hmem⟩
    | builtin => cases h
    | unresolved => cases h
  · exact hbinding rfl

end Analysis

namespace Workspace

variable {ws : Workspace}

/-- The index of a module is that of the text that is read for it, be it kept or not. -/
theorem moduleIndex_eq (h : ws.store.Consistent) (p : Path) :
    ws.moduleIndex p = (ws.readText p).map .ofText := by
  unfold moduleIndex readText
  rw [h.index]
  cases ws.store.textAt? p with
  | some text => rfl
  | none => rfl

/-- A location covers a member of the module that the document at `uri` names by `spec`, in the text
    that is read for the module. -/
def CoversMember (ws : Workspace) (uri : Uri) (spec member : String) (loc : Location) : Prop :=
  ∃ importer p current offset, uri.path? = some importer ∧ ws.resolve importer spec = .ok p
    ∧ Uri.ofPath? p = some loc.uri ∧ ws.readText p = .ok current
    ∧ Editor.CoversWord current loc.range member offset

/-- What a module declares under a name is an identifier of its text with that name. -/
theorem ident_of_lookup {text name : String} {id : Ident}
    (h : (ModuleIndex.ofText text).exports.lookup name = some id
      ∨ (ModuleIndex.ofText text).defs.lookup name = some id) :
    id.name = name ∧ id ∈ (Program.parse text).program.idents := by
  have hlists := ModuleIndex.lists_ofProgram (Program.parse text).program
  obtain ⟨hname, hmem⟩ : id.name = name ∧ id ∈ (Program.parse text).program.declared := by
    obtain h | h := h
    · exact hlists.exports (name, id) (Walk.mem_of_lookup h)
    · exact hlists.defs (name, id) (Walk.mem_of_lookup h)
  exact ⟨hname, Program.declared_subset_idents _ hmem⟩

theorem coversMember_of_memberDefinition? (hstore : ws.store.Consistent) {uri : Uri}
    {spec member : String} {loc : Location} (h : ws.memberDefinition? uri spec member = some loc) :
    ws.CoversMember uri spec member loc := by
  obtain ⟨importer, himporter, h⟩ := Option.bind_eq_some_iff.1 h
  obtain ⟨p, hp, h⟩ := Option.bind_eq_some_iff.1 h
  obtain ⟨index, hindex, h⟩ := Option.bind_eq_some_iff.1 h
  obtain ⟨id, hid, h⟩ : ∃ id,
      (index.exports.lookup member = some id ∨ index.defs.lookup member = some id)
      ∧ (do
          let text ← (ws.readText p).toOption
          return (⟨← Uri.ofPath? p, Editor.identRange text id⟩ : Location)) = some loc := by
    dsimp only at h
    split at h
    next id hid => exact ⟨id, .inl hid, h⟩
    next =>
      obtain ⟨id, hid, h⟩ := Option.bind_eq_some_iff.1 h
      exact ⟨id, .inr hid, h⟩
  obtain ⟨text, htext, h⟩ := Option.bind_eq_some_iff.1 h
  obtain ⟨target, htarget, h⟩ := Option.bind_eq_some_iff.1 h
  obtain rfl := Option.some.inj h
  -- The index and the text were read separately.
  have htext := ok_of_toOption htext
  have hfit : index = .ofText text := by
    rw [moduleIndex_eq hstore, htext] at hindex
    exact (Option.some.inj hindex).symm
  subst hfit
  obtain ⟨rfl, hmem⟩ := ident_of_lookup hid
  obtain ⟨offset, hcovers⟩ := Editor.identRange_covers hmem
  exact ⟨importer, p, text, offset, himporter, ok_of_toOption hp, htarget, htext, hcovers⟩

/-- What is found for a site: its member in the module that it is from, or its declaration. -/
theorem definition?_cases {uri : Uri} {text : String} {cursor : Editor.Cursor} {loc : Location}
    (h : ws.definition? uri text cursor = some loc) : ∃ site,
      (Editor.positionOf? text cursor).bind (Analysis.ofText text).siteAt? = some site
      ∧ ((∃ b, site.Local (.ofText text) b ∧ loc = ⟨uri, Editor.identRange text b.decl⟩)
        ∨ ∃ spec member, site.Imports (.ofText text) spec member
          ∧ ws.memberDefinition? uri spec member = some loc) := by
  obtain ⟨pos, hpos, h⟩ := Option.bind_eq_some_iff.1 h
  obtain ⟨site, hsite, h⟩ := Option.bind_eq_some_iff.1 h
  refine ⟨site, by rw [hpos, Option.bind_some, hsite], ?_⟩
  split at h
  next id base spec member => exact .inr ⟨spec, member, .member, h⟩
  next =>
    obtain ⟨i, hi, h⟩ := Option.bind_eq_some_iff.1 h
    obtain ⟨b, hb, h⟩ := Option.bind_eq_some_iff.1 h
    split at h
    next hkind =>
      obtain ⟨spec, hspec, h⟩ := Option.bind_eq_some_iff.1 h
      obtain ⟨member, hmember, h⟩ := Option.bind_eq_some_iff.1 h
      exact .inr ⟨spec, member, .imported hi hb hkind hspec hmember, h⟩
    next hkind => exact .inl ⟨b, ⟨⟨i, hi, hb⟩, hkind⟩, (Option.some.inj h).symm⟩

/-- A definition that is found covers exactly the name of what it defines: for a name of the
    document the name of its binding, in the given text, and for an imported name or a member of a
    module the name of the member, in the text that is read for the module. So do references, if
    the name under the cursor is no export of a module that resolves: they cover the name in the
    given text. -/
theorem definition?_covers {ops : List Store.Operation} (hstore : ws.store = Store.run ops)
    (uri : Uri) (text : String) (cursor : Editor.Cursor) :
    (∀ loc, ws.definition? uri text cursor = some loc → ∃ site,
      (Editor.positionOf? text cursor).bind (Analysis.ofText text).siteAt? = some site
      ∧ ((∃ b offset, site.Local (.ofText text) b ∧ loc.uri = uri
          ∧ Editor.CoversWord text loc.range b.name offset)
        ∨ ∃ spec member, site.Imports (.ofText text) spec member
          ∧ ws.CoversMember uri spec member loc))
    ∧ ∀ site withDeclaration locations,
      (Editor.positionOf? text cursor).bind (Analysis.ofText text).siteAt? = some site →
      (∀ key, ws.exportKey uri (.ofText text) site ≠ .ok (some key)) →
      ws.references uri text cursor withDeclaration = .ok locations →
      ∀ loc ∈ locations, loc.uri = uri ∧ ∃ name offset, site.Named (.ofText text) name
        ∧ Editor.CoversWord text loc.range name offset := by
  have hconsistent : ws.store.Consistent := hstore ▸ Store.consistent_run ops
  constructor
  · intro loc hloc
    obtain ⟨site, hsite, hcases⟩ := definition?_cases hloc
    refine ⟨site, hsite, ?_⟩
    obtain ⟨b, hlocal, rfl⟩ | ⟨spec, member, himports, hmember⟩ := hcases
    · obtain ⟨i, -, hb⟩ := hlocal.binding
      obtain ⟨offset, hcovers⟩ := Editor.identRange_covers (Analysis.decl_mem hb)
      rw [Analysis.decl_name hb] at hcovers
      exact .inl ⟨b, offset, hlocal, rfl, hcovers⟩
    · exact .inr ⟨spec, member, himports, coversMember_of_memberDefinition? hconsistent hmember⟩
  · intro site withDeclaration locations hsite hkey hlocations loc hloc
    -- no export is meant, so the places are those of the document
    have hlocal : locations = ((Analysis.ofText text).occurrencesOf site withDeclaration).map
        fun id => ⟨uri, Editor.identRange text id⟩ := by
      simp only [references, hsite] at hlocations
      exact (Except.ok.inj hlocations).symm
    subst hlocal
    obtain ⟨id, hid, rfl⟩ := List.mem_map.1 hloc
    obtain ⟨hnamed, hmem⟩ := Analysis.named_of_mem_occurrencesOf hid
    obtain ⟨offset, hcovers⟩ := Editor.identRange_covers hmem
    exact ⟨rfl, id.name, offset, hnamed, hcovers⟩

/-- A module on disk that is open with other text, and a document that imports its function under
    another name. -/
def editedModule : Workspace :=
  let disk := FileSystem.empty.write ["lib.wll"] "export func a() \x7b \x7d\n".toUTF8
  let ws := (ofRoot disk ⟨"/"⟩ {}).openDocument ⟨"file", some .empty, "/lib.wll", ""⟩
    "n = \"\u00e9\"; export func a() \x7b \x7d\n" 1
  ws.openDocument ⟨"file", some .empty, "/main.wll", ""⟩ "from \"./lib\" import a as b\nb()\n" 1

/-- The definition of the other name covers the name of the function in the text that is open. -/
theorem definition?_covers_edited_module :
    let main : Uri := ⟨"file", some .empty, "/main.wll", ""⟩
    let text := "from \"./lib\" import a as b\nb()\n"
    let loc : Location := ⟨⟨"file", some .empty, "/lib.wll", ""⟩, ⟨⟨0, 21⟩, ⟨0, 22⟩⟩⟩
    editedModule.definition? main text ⟨1, 0⟩ = some loc
      ∧ editedModule.CoversMember main "./lib" "a" loc := by
  intro main text loc
  have hstore : editedModule.store = Store.run [
      .opens ⟨"file", some .empty, "/lib.wll", ""⟩
        "n = \"\u00e9\"; export func a() \x7b \x7d\n" 1,
      .opens main text 1] := rfl
  have hloc : editedModule.definition? main text ⟨1, 0⟩ = some loc := by decide +kernel
  obtain ⟨site, hsite, hcovers⟩ := (definition?_covers hstore main text ⟨1, 0⟩).1 loc hloc
  have huse : (Editor.positionOf? text ⟨1, 0⟩).bind (Analysis.ofText text).siteAt?
      = some (.reference ⟨⟨"b", ⟨2, 1⟩⟩, .binding 0⟩) := by
    decide +kernel
  have hbinding : (Analysis.ofText text).bindings[0]?
      = some ⟨"b", .imported, ⟨"b", ⟨1, 26⟩⟩, 0, [], some "./lib", some "a"⟩ := by
    decide +kernel
  obtain rfl := Option.some.inj (hsite.symm.trans huse)
  refine ⟨hloc, ?_⟩
  obtain ⟨b, offset, hlocal, -⟩ | ⟨spec, member, himports, hcovers⟩ := hcovers
  · obtain ⟨i, hi, hb⟩ := hlocal.binding
    obtain rfl := Option.some.inj hi
    obtain rfl := Option.some.inj (hb.symm.trans hbinding)
    exact absurd rfl hlocal.kind
  · cases himports with
    | imported hi hb hkind hspec hmember =>
      obtain rfl := Option.some.inj hi
      obtain rfl := Option.some.inj (hb.symm.trans hbinding)
      obtain rfl := Option.some.inj hspec
      obtain rfl := Option.some.inj hmember
      exact hcovers

end Workspace

end Welle
