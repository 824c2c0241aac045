import Welle.Proofs.Edits

set_option autoImplicit false

/-! # Finding references from everywhere

From every place that names an export the search finds the export and so all its places. The one
exception are import lists: a name that is bound under another name stands for nothing in its file,
and one whose binding belongs to another symbol stands for that one. -/

namespace Welle

namespace Program

/-- The steps of a text name each identifier once, and none that an import list binds under another
    name. -/
theorem nodup_eventIdents_replaced (text : String) : ((Program.parse text).program.eventIdents
    ++ ImportedName.replaced (Program.parse text).program.importedNames).Nodup := by
  rw [List.nodup_iff_count_le_one]
  intro a
  rw [List.count_append]
  exact (Stmt.count_listEvents a (Program.parse text).program.stmts).trans
    (List.nodup_iff_count_le_one.1 (List.Nodup.of_map _ (nodup_positions text)) a)

/-- No step names what an import list binds under another name. -/
theorem not_mem_eventIdents_of_replaced {text : String} {imported : ImportedName}
    (h : imported ∈ (Program.parse text).program.importedNames)
    (hname : imported.item.asName.isSome) :
    imported.item.name ∉ (Program.parse text).program.eventIdents := by
  intro hmem
  have hreplaced : imported.item.name ∈
      ImportedName.replaced (Program.parse text).program.importedNames := by
    obtain ⟨asName, hasName⟩ := Option.isSome_iff_exists.1 hname
    exact List.mem_filterMap.2 ⟨imported, h, by simp [ImportedName.replaced?, hasName]⟩
  obtain ⟨-, -, hapart⟩ := List.nodup_append.1 (nodup_eventIdents_replaced text)
  exact hapart _ hmem _ hreplaced rfl

end Program

namespace SourceFile

variable {ws : Workspace} {file : SourceFile}

/-- The identifier of a file leads back to the file: it names its path, and imports resolve from
    there as they do from the file. -/
structure Addressed (ws : Workspace) (file : SourceFile) (p : Path) : Prop where
  path : file.uri.path? = some p
  tidy : p.normalize.tidy = file.path.tidy
  resolve : ∀ spec, (ws.resolve p.normalize spec).toOption.map Path.tidy
    = (ws.resolve file.path spec).toOption.map Path.tidy

variable {p : Path}

/-- A member of a module has the same symbol for the index and for the search. -/
theorem Addressed.importedKey (h : file.Addressed ws p) {spec member : String} {found : SymbolKey}
    (hfound : ws.memberKey? file spec member = some found) :
    ∃ key, ws.importedKey file.uri spec member = .ok key ∧ key.tidy = found.tidy := by
  obtain ⟨target, htarget, rfl⟩ := Option.map_eq_some_iff.1 hfound
  have hresolve := h.resolve spec
  rw [htarget, Option.map_some] at hresolve
  obtain ⟨other, hother, htidy⟩ := Option.map_eq_some_iff.1 hresolve
  have hok := Workspace.ok_of_toOption hother
  refine ⟨.exported other member, ?_, by rw [SymbolKey.tidy, SymbolKey.tidy, htidy]⟩
  simp [Workspace.importedKey, h.path, hok]

/-- An export has the same symbol for the index and for the search. -/
theorem Addressed.exportKeyOfBinding (h : file.Addressed ws p) {b : Binding} {found : SymbolKey}
    (hfound : ws.bindingKey? file b = some found) {modulePath : Path} {name : String}
    (hexport : found.tidy = .exported modulePath name) :
    ∃ key, ws.exportKeyOfBinding file.uri file.analysis b = .ok (some key)
      ∧ key.tidy = found.tidy := by
  unfold Workspace.bindingKey? at hfound
  split at hfound
  next hkind =>
    obtain ⟨spec, hspec, hfound⟩ := Option.bind_eq_some_iff.1 hfound
    obtain ⟨member, hmember, hfound⟩ := Option.bind_eq_some_iff.1 hfound
    obtain ⟨key, hkey, htidy⟩ := h.importedKey hfound
    refine ⟨key, ?_, htidy⟩
    simp [Workspace.exportKeyOfBinding, hkind, hspec, hmember, hkey, Except.map]
  next hkind =>
    obtain rfl := Option.some.inj hfound
    unfold ownKey at hexport ⊢
    split at hexport
    next hown =>
      rw [if_pos hown]
      simp only [Bool.and_eq_true, Bool.or_eq_true, decide_eq_true_eq] at hown
      obtain ⟨⟨hscope, hfunc⟩, hexported⟩ := hown
      refine ⟨.exported p.normalize b.name, ?_, by rw [SymbolKey.tidy, SymbolKey.tidy, h.tidy]⟩
      have hexported' : (ModuleIndex.ofProgram file.analysis.program).isExported b.name = true :=
        hexported
      obtain hfunc | hfunc := hfunc <;>
        simp [Workspace.exportKeyOfBinding, hfunc, hscope, hexported', h.path]
    next hown => cases hexport

end SourceFile

namespace Workspace

variable {ws : Workspace} {file : SourceFile} {p : Path}

theorem exportKey_of_binding {uri : Uri} {an : Analysis} {site : Site} {i : Nat} {b : Binding}
    (hsite : site.binding? = some i) (hb : an.bindings[i]? = some b) :
    ws.exportKey uri an site = ws.exportKeyOfBinding uri an b := by
  rcases Analysis.site_cases hsite with rfl | ⟨id, rfl⟩ <;>
    simp [exportKey, Site.binding?, Reference.binding?, hb]

/-- The search finds all places of the symbol under the cursor. -/
theorem references_of_site {index : WorkspaceIndex} (hindex : ws.index = .ok index) {uri : Uri}
    {text : String} {id : Ident} (hid : id ∈ (Program.parse text).program.idents) {site : Site}
    (hsite : (Analysis.ofText text).siteAt? id.pos = some site) {key found : SymbolKey}
    (hkey : ws.exportKey uri (.ofText text) site = .ok (some found))
    (htidy : found.tidy = key.tidy) :
    ws.references uri text (Editor.identRange text id).start true
      = .ok (locationsOf (index.occurrences key)) := by
  have hoccurrences : index.occurrences found = index.occurrences key := by
    unfold WorkspaceIndex.occurrences
    rw [htidy]
  simp [references, Editor.positionOf?_identRange hid, hsite, hkey, hindex, hoccurrences, bind,
    Except.bind, pure, Except.pure]

end Workspace

namespace SourceFile

variable {ws : Workspace} {file : SourceFile} {p : Path}

/-- What stands under a cursor at a use or a declaration of an export is the export. -/
theorem Names.site (hfile : file.analysis = .ofText file.text) (haddr : file.Addressed ws p)
    {id : Ident} {found : SymbolKey} {role : Role} (h : file.Names ws id found role)
    (hrole : role ≠ .importName) {modulePath : Path} {name : String}
    (hexport : found.tidy = .exported modulePath name) :
    ∃ site key, (Analysis.ofText file.text).siteAt? id.pos = some site
      ∧ ws.exportKey file.uri (.ofText file.text) site = .ok (some key)
      ∧ key.tidy = found.tidy := by
  have hrecorded := Analysis.recorded file.text
  -- A site of a binding stands for the export that the binding stands for.
  have hbinding {site : Site} {i : Nat} {b : Binding} (hsite : site.binding? = some i)
      (hb : file.analysis.bindings[i]? = some b) (hkey : ws.bindingKey? file b = some found) :
      ∃ key, ws.exportKey file.uri (.ofText file.text) site = .ok (some key)
        ∧ key.tidy = found.tidy := by
    obtain ⟨key, hkey, htidy⟩ := haddr.exportKeyOfBinding hkey hexport
    refine ⟨key, ?_, htidy⟩
    rw [hfile] at hkey hb
    rw [Workspace.exportKey_of_binding hsite hb, hkey]
  have hdeclared {i : Nat} {b : Binding} (hb : file.analysis.bindings[i]? = some b)
      (hkey : ws.bindingKey? file b = some found) :
      ∃ site key, (Analysis.ofText file.text).siteAt? b.decl.pos = some site
        ∧ ws.exportKey file.uri (.ofText file.text) site = .ok (some key)
        ∧ key.tidy = found.tidy := by
    have hb' : (Analysis.ofText file.text).bindings[i]? = some b := hfile ▸ hb
    by_cases hused : ∃ r ∈ (Analysis.ofText file.text).references, r.ident = b.decl
    · obtain ⟨r, hr, hident⟩ := hused
      have hres := hrecorded.declaration i b hb' r hr (by rw [hident])
      have hsite : (Site.reference r).binding? = some i := by
        simp [Site.binding?, Reference.binding?, hres]
      obtain ⟨key, hkey, htidy⟩ := hbinding hsite hb hkey
      exact ⟨_, key, hident ▸ Analysis.siteAt?_reference hr, hkey, htidy⟩
    · obtain ⟨key, hkey, htidy⟩ := hbinding (rfl : (Site.declaration i).binding? = some i) hb hkey
      exact ⟨_, key, Analysis.siteAt?_declaration hb' fun r hr heq => hused ⟨r, hr, heq⟩, hkey, htidy⟩
  cases h with
  | imported hmem hkey => exact absurd rfl hrole
  | declared hb hkind hkey => exact hdeclared hb hkey
  | aliased hb hkind halias hkey => exact hdeclared hb hkey
  | @used r i b _ hr hres hb hkey =>
    have hsite : (Site.reference r).binding? = some i := by
      simp [Site.binding?, Reference.binding?, hres]
    obtain ⟨key, hkey, htidy⟩ := hbinding hsite hb hkey
    exact ⟨_, key, Analysis.siteAt?_reference (hfile ▸ hr), hkey, htidy⟩
  | @member r base spec text _ hr hres hkey =>
    obtain ⟨key, hkey, htidy⟩ := haddr.importedKey hkey
    refine ⟨_, key, Analysis.siteAt?_reference (hfile ▸ hr), ?_, htidy⟩
    obtain ⟨id, resolution⟩ := r
    obtain rfl : resolution = _ := hres
    simp [Workspace.exportKey, hkey, Except.map]

end SourceFile

namespace Workspace

variable {ws : Workspace} {file : SourceFile} {p : Path}

/-- Finding references from a place of an export gives all places of the export, also from an import
    list if the name there is a use of the export as well. From a name that an import list binds
    under another name it gives nothing, although the name is such a place. -/
theorem references_of_occurrence {index : WorkspaceIndex} (hindex : ws.index = .ok index)
    (hfile : ws.Indexes file) (haddr : file.Addressed ws p) {e : IndexEntry}
    (he : e ∈ ws.fileEntries file) {modulePath : Path} {name : String}
    (hkey : e.key.tidy = (SymbolKey.exported modulePath name).tidy) :
    e.occurrence ∈ index.occurrences (.exported modulePath name)
    ∧ ((e.occurrence.role = .importName → ∃ id found role, file.Names ws id found role
        ∧ role ≠ .importName ∧ found.tidy = (SymbolKey.exported modulePath name).tidy
        ∧ e.occurrence.range = Editor.identRange file.text id) →
      ws.references e.occurrence.uri file.text e.occurrence.range.start true
        = .ok (locationsOf (index.occurrences (.exported modulePath name))))
    ∧ ∀ imported ∈ file.importedNames, imported.item.asName.isSome →
      e.occurrence.range = Editor.identRange file.text imported.item.name →
      ws.references e.occurrence.uri file.text e.occurrence.range.start true = .ok [] := by
  obtain ⟨id, hnames, hocc⟩ := names_of_mem_fileEntries he
  have huri : e.occurrence.uri = file.uri := by
    rw [hocc]
    rfl
  have hrange : e.occurrence.range = Editor.identRange file.text id := by
    rw [hocc]
    rfl
  refine ⟨?_, fun hbound => ?_, fun imported hmem hname hrange' => ?_⟩
  · refine List.mem_map_of_mem (List.mem_filter.2 ⟨?_, by simpa using hkey⟩)
    exact (mem_entries_index hindex e).2 ⟨file, hfile, he⟩
  · -- The identifier is recorded, as an occurrence other than in an import list or besides it.
    obtain ⟨id, found, role, hnames, hrole, htidy, hrange⟩ : ∃ id found role,
        file.Names ws id found role ∧ role ≠ .importName
        ∧ found.tidy = (SymbolKey.exported modulePath name).tidy
        ∧ e.occurrence.range = Editor.identRange file.text id := by
      by_cases hrole : e.occurrence.role = .importName
      · exact hbound hrole
      · exact ⟨id, e.key, _, hnames, hrole, hkey, hrange⟩
    obtain ⟨site, key, hsite, hkey, hsame⟩ := hnames.site hfile.analysis haddr hrole htidy
    rw [huri, hrange]
    exact references_of_site hindex (hnames.ident_mem hfile.analysis) hsite hkey (hsame.trans htidy)
  · rw [SourceFile.importedNames, hfile.analysis] at hmem
    have hnone := Program.not_mem_eventIdents_of_replaced hmem hname
    have hsite : (Analysis.ofText file.text).siteAt? imported.item.name.pos = none :=
      Analysis.siteAt?_eq_none (Program.importedName_mem hmem)
        (fun r hr heq => hnone (heq ▸ Analysis.ident_mem_eventIdents hr))
        (fun i b hb heq => hnone (heq ▸ Analysis.decl_mem_eventIdents hb))
    rw [hrange']
    simp [references, Editor.positionOf?_identRange (Program.importedName_mem hmem), hsite]

/-- A module on disk, and a document that imports its function under another name. -/
def renamedImport : Workspace :=
  let disk := FileSystem.empty.write ["lib.wll"] "export func a() \x7b \x7d\n".toUTF8
  (ofRoot disk ⟨"/"⟩ {}).openDocument ⟨"file", some .empty, "/main.wll", ""⟩
    "from \"./lib\" import a as b\nb()\n" 1

/-- The document of `renamedImport`. -/
def renamedImportFile : SourceFile :=
  .ofText ⟨"file", some .empty, "/main.wll", ""⟩ ⟨"/main.wll"⟩
    "from \"./lib\" import a as b\nb()\n"

theorem sourceFile?_eq {ws : Workspace} {p : Path} {uri : Uri} {text : String}
    (htext : (ws.readText p).toOption = some text) (huri : Uri.ofPath? p = some uri) :
    ws.sourceFile? p = some (.ofText uri p text) := by
  simp [sourceFile?, htext, huri]

/-- From the other name the search finds all places, from the name in the import list none. -/
theorem references_of_renamed_import :
    let places : List Location :=
      [⟨⟨"file", some .empty, "/lib.wll", ""⟩, ⟨⟨0, 12⟩, ⟨0, 13⟩⟩⟩,
        ⟨⟨"file", some .empty, "/main.wll", ""⟩, ⟨⟨0, 20⟩, ⟨0, 21⟩⟩⟩,
        ⟨⟨"file", some .empty, "/main.wll", ""⟩, ⟨⟨0, 25⟩, ⟨0, 26⟩⟩⟩,
        ⟨⟨"file", some .empty, "/main.wll", ""⟩, ⟨⟨1, 0⟩, ⟨1, 1⟩⟩⟩]
    renamedImport.references renamedImportFile.uri renamedImportFile.text ⟨0, 25⟩ true = .ok places
      ∧ renamedImport.references renamedImportFile.uri renamedImportFile.text ⟨0, 20⟩ true
        = .ok [] := by
  intro places
  have hfiles : renamedImport.files.toOption = some [⟨"/lib.wll"⟩, ⟨"/main.wll"⟩] := by
    decide +kernel
  have hfile : renamedImport.Indexes renamedImportFile :=
    ⟨_, ⟨"/main.wll"⟩, ok_of_toOption hfiles, by simp,
      sourceFile?_eq (by decide +kernel) (by decide +kernel)⟩
  have haddr : renamedImportFile.Addressed renamedImport ⟨"/main.wll"⟩ :=
    ⟨by decide +kernel, by decide +kernel, fun spec => by
      rw [show Path.normalize ⟨"/main.wll"⟩ = renamedImportFile.path by decide +kernel]⟩
  have hlocations : renamedImport.index.toOption.map (fun index =>
      locationsOf (index.occurrences (.exported ⟨"/lib.wll"⟩ "a"))) = some places := by
    decide +kernel
  obtain ⟨index, hindex, hplaces⟩ := Option.map_eq_some_iff.1 hlocations
  have halias : ⟨.exported ⟨"/lib.wll"⟩ "a", ⟨renamedImportFile.uri, ⟨⟨0, 25⟩, ⟨0, 26⟩⟩, .aliasUse⟩⟩
      ∈ renamedImport.fileEntries renamedImportFile := by
    decide +kernel
  have hname : ⟨.exported ⟨"/lib.wll"⟩ "a", ⟨renamedImportFile.uri, ⟨⟨0, 20⟩, ⟨0, 21⟩⟩, .importName⟩⟩
      ∈ renamedImport.fileEntries renamedImportFile := by
    decide +kernel
  have hfound := references_of_occurrence (ok_of_toOption hindex) hfile haddr halias rfl
  have hnothing := references_of_occurrence (ok_of_toOption hindex) hfile haddr hname rfl
  refine ⟨?_, ?_⟩
  · rw [← hplaces]
    exact hfound.2.1 fun hrole => by cases hrole
  · exact hnothing.2.2 ⟨"./lib", ⟨⟨"a", ⟨1, 21⟩⟩, some ⟨"b", ⟨1, 26⟩⟩⟩⟩ (by decide +kernel) rfl
      (by decide +kernel)

end Workspace

end Welle
