import Welle.Proofs.Symbols
import Welle.Proofs.TopLevel

set_option autoImplicit false

/-! # Places of exports

What a file exports is found in two ways: the index of the module reads it off the statements, and
the index of the workspace goes by the bindings of the walk. The place that the module names is a
place of the exported symbol if the binding of the name stands for the export at all, and, for a
function, if it is the function that declared the name. -/

namespace Welle

namespace SourceFile

variable {ws : Workspace} {file : SourceFile}

/-- An export is declared at the top level of its file, under its name. -/
theorem declared_of_export (hfile : file.analysis = .ofText file.text) {name : String} {id : Ident}
    (h : file.exports.exports.lookup name = some id) :
    id.name = name ∧ id ∈ (Program.parse file.text).program.declared := by
  rw [exports, hfile] at h
  exact (ModuleIndex.lists_ofProgram _).exports (name, id) (Walk.mem_of_lookup h)

/-- A function at the top level of a file that exports its name is an export. -/
theorem bindingKey?_of_func {b : Binding} (hkind : b.kind = .func) (hscope : b.scope = rootScope)
    (hexported : file.exports.isExported b.name = true) :
    ws.bindingKey? file b = some (.exported file.path b.name) := by
  simp [Workspace.bindingKey?, ownKey, hkind, hscope, hexported]

/-- At the name of a declaration of the file the walk records all symbols that are named there. -/
theorem Names.records (hfile : file.analysis = .ofText file.text) {id : Ident} {key : SymbolKey}
    {role : Role} (h : file.Names ws id key role) {e : Event} (hdeclares : e.Declares id)
    (hstep : e ∈ (Program.parse file.text).program.events) : file.Records ws id key := by
  obtain ⟨imported, hmem, rfl, -⟩ | hrecords := h.imported_or_records
  · rw [importedNames, hfile] at hmem
    obtain ⟨-, hevent⟩ := Program.event_of_name_mem hmem hstep (by simp [hdeclares.idents])
    rw [hevent] at hdeclares
    cases hdeclares
  · exact hrecords

/-- Nothing is named where nothing is recorded. -/
theorem Records.not_unmet (hfile : file.analysis = .ofText file.text) {id : Ident} {key : SymbolKey}
    (h : file.Records ws id key) :
    ¬(Walk.ofProgram (.ofText file.text) (Program.parse file.text).program).Unmet id.pos := by
  intro hunmet
  cases h with
  | declared hb hkey =>
    rw [hfile] at hb
    exact hunmet.declaration _ _ hb rfl
  | used hr hres hb hkey =>
    rw [hfile] at hr
    exact hunmet.use _ hr rfl
  | member hr hres hkey =>
    rw [hfile] at hr
    exact hunmet.use _ hr rfl

/-- Where a file declares an export, it names the export under two conditions: the binding of the
    name stands for the export, and a function is itself the declaration of that binding. -/
theorem exists_names_iff (ws : Workspace) (hfile : file.analysis = .ofText file.text) {name : String}
    {id : Ident} (h : file.exports.exports.lookup name = some id) : ∃ i b,
      file.analysis.topLevel? name = some i ∧ file.analysis.bindings[i]? = some b
      ∧ ((∃ key role, file.Names ws id key role
          ∧ key.tidy = (SymbolKey.exported file.path name).tidy)
        ↔ (ws.bindingKey? file b).map SymbolKey.tidy
            = some (SymbolKey.exported file.path name).tidy
          ∧ ∀ params, .func id params ∈ file.analysis.program.events → b.decl = id) := by
  obtain ⟨rfl, hdeclared⟩ := declared_of_export hfile h
  obtain ⟨i, b, htop, hb, hname, hscope, hplace⟩ := Analysis.exists_binding_of_declared hdeclared
  rw [← hfile] at htop hb
  refine ⟨i, b, htop, hb, ?_⟩
  cases hplace with
  | function params hstep hkind hplace =>
    have hexported : file.exports.isExported b.name = true := by
      rw [ModuleIndex.isExported, hname, h, Option.isSome_some]
    have hkey : ws.bindingKey? file b = some (.exported file.path id.name) :=
      hname ▸ bindingKey?_of_func hkind hscope hexported
    constructor
    · rintro ⟨key, role, hnames, htidy⟩
      have hrecords := hnames.records hfile (.func params) hstep
      refine ⟨by rw [hkey, Option.map_some], fun _ _ => ?_⟩
      exact hplace.resolve_right (hrecords.not_unmet hfile)
    · rintro ⟨-, hdecl⟩
      have hdecl := hdecl params (by rw [hfile]; exact hstep)
      have hnames := Names.declared hb (by simp [hkind]) hkey
      rw [hdecl] at hnames
      exact ⟨_, _, hnames, rfl⟩
  | assigned op params hstep huse =>
    have hr : ⟨id, .binding i⟩ ∈ file.analysis.references := hfile ▸ huse
    constructor
    · rintro ⟨key, role, hnames, htidy⟩
      have hrecords := hnames.records hfile (.assign op params) hstep
      rw [hrecords.bindingKey? hfile hr rfl rfl hb, Option.map_some, htidy]
      refine ⟨rfl, fun params' hfunc => ?_⟩
      -- No step but the assignment names the identifier.
      rw [hfile] at hfunc
      obtain ⟨hevents, -⟩ := List.nodup_append.1 (Program.nodup_eventIdents_replaced file.text)
      have hsame := List.eq_of_nodup_flatMap (b := id) hevents hfunc hstep (by simp [Event.idents])
        (by simp [Event.idents])
      cases hsame
    · rintro ⟨hkey, -⟩
      obtain ⟨key, hkey, htidy⟩ := Option.map_eq_some_iff.1 hkey
      exact ⟨key, _, .used hr rfl hb hkey, htidy⟩

end SourceFile

namespace Workspace

variable {ws : Workspace} {file : SourceFile}

/-- A place where a file with a URI of its own names a symbol is listed among the places of the
    symbol, and nothing else is. -/
theorem exists_occurrence_iff {index : WorkspaceIndex} (hindex : ws.index = .ok index)
    (hfile : ws.Indexes file)
    (halone : ∀ other, ws.Indexes other → other.uri = file.uri → other.path = file.path)
    {id : Ident} (hid : id ∈ (Program.parse file.text).program.idents) {key : SymbolKey} :
    (∃ o ∈ index.occurrences key, o.uri = file.uri ∧ o.range = Editor.identRange file.text id)
    ↔ ∃ found role, file.Names ws id found role ∧ found.tidy = key.tidy := by
  constructor
  · rintro ⟨o, ho, huri, hrange⟩
    obtain ⟨found, id', hnames, htidy, hrange'⟩ := names_of_occurrence hindex hfile halone ho huri
    obtain rfl : id' = id := Editor.eq_of_identRange_eq (hnames.ident_mem hfile.analysis) hid
      (hrange'.symm.trans hrange)
    exact ⟨found, _, hnames, htidy⟩
  · rintro ⟨found, role, hnames, htidy⟩
    obtain ⟨o, ho, hocc, -⟩ := exists_occurrence hindex hfile hnames htidy
    exact ⟨o, ho, by rw [hocc]; rfl, by rw [hocc]; rfl⟩

/-- Where a file declares an export is a place of the export if and only if the binding of the name
    in the scope of the file stands for the export, and, where a function is declared, was declared
    by that function. -/
theorem declaration_listed_iff {index : WorkspaceIndex} (hindex : ws.index = .ok index)
    (hfile : ws.Indexes file)
    (halone : ∀ other, ws.Indexes other → other.uri = file.uri → other.path = file.path)
    {name : String} {id : Ident} (h : file.exports.exports.lookup name = some id) : ∃ i b,
      file.analysis.topLevel? name = some i ∧ file.analysis.bindings[i]? = some b
      ∧ ((∃ o ∈ index.occurrences (.exported file.path name), o.uri = file.uri
          ∧ o.range = Editor.identRange file.text id)
        ↔ (ws.bindingKey? file b).map SymbolKey.tidy
            = some (SymbolKey.exported file.path name).tidy
          ∧ ∀ params, .func id params ∈ file.analysis.program.events → b.decl = id) := by
  obtain ⟨i, b, htop, hb, hiff⟩ := SourceFile.exists_names_iff ws hfile.analysis h
  have hid := Program.declared_subset_idents _ (SourceFile.declared_of_export hfile.analysis h).2
  exact ⟨i, b, htop, hb, (exists_occurrence_iff hindex hfile halone hid).trans hiff⟩

/-- A module on disk that assigns to a name in front of the exported function of that name. -/
def assignedBefore : Workspace :=
  let disk := FileSystem.empty.write ["lib.wll"] "a = 1\nexport func a() \x7b \x7d\n".toUTF8
  ofRoot disk ⟨"/"⟩ {}

/-- The module of `assignedBefore`. -/
def assignedBeforeFile : SourceFile :=
  .ofText ⟨"file", some .empty, "/lib.wll", ""⟩ ⟨"/lib.wll"⟩
    "a = 1\nexport func a() \x7b \x7d\n"

/-- The name of the exported function is no place of the export, the name in front of it is. -/
theorem declaration_listed_iff_assigned_before : ∃ index,
    assignedBefore.index = .ok index
      ∧ (∃ o ∈ index.occurrences (.exported ⟨"/lib.wll"⟩ "a"), o.range = ⟨⟨0, 0⟩, ⟨0, 1⟩⟩)
      ∧ ¬∃ o ∈ index.occurrences (.exported ⟨"/lib.wll"⟩ "a"),
        o.uri = assignedBeforeFile.uri ∧ o.range = ⟨⟨1, 12⟩, ⟨1, 13⟩⟩ := by
  have hfiles : assignedBefore.files.toOption = some [⟨"/lib.wll"⟩] := by decide +kernel
  have hfile : assignedBefore.Indexes assignedBeforeFile :=
    ⟨_, ⟨"/lib.wll"⟩, ok_of_toOption hfiles, by simp,
      sourceFile?_eq (by decide +kernel) (by decide +kernel)⟩
  have halone : ∀ other, assignedBefore.Indexes other → other.uri = assignedBeforeFile.uri →
      other.path = assignedBeforeFile.path :=
    forall_indexes hfiles (by decide +kernel)
  have hplaces : assignedBefore.index.toOption.map (fun index =>
      (index.occurrences (.exported ⟨"/lib.wll"⟩ "a")).map (·.range)) =
        some [⟨⟨0, 0⟩, ⟨0, 1⟩⟩] := by
    decide +kernel
  obtain ⟨index, hindex, hplaces⟩ := Option.map_eq_some_iff.1 hplaces
  refine ⟨index, ok_of_toOption hindex, ?_, ?_⟩
  · simpa using congrArg ((⟨⟨0, 0⟩, ⟨0, 1⟩⟩ : Editor.Range) ∈ ·) hplaces
  · have hexport : assignedBeforeFile.exports.exports.lookup "a" = some ⟨"a", ⟨2, 13⟩⟩ := by
      decide +kernel
    obtain ⟨i, b, htop, hb, hiff⟩ :=
      declaration_listed_iff (ok_of_toOption hindex) hfile halone hexport
    have hi : assignedBeforeFile.analysis.topLevel? "a" = some 0 := by decide +kernel
    obtain rfl := Option.some.inj (htop.symm.trans hi)
    have hdecl : (assignedBeforeFile.analysis.bindings[0]?).map (·.decl) = some ⟨"a", ⟨1, 1⟩⟩ := by
      decide +kernel
    rw [hb, Option.map_some, Option.some.injEq] at hdecl
    have hrange : Editor.identRange assignedBeforeFile.text ⟨"a", ⟨2, 13⟩⟩
        = ⟨⟨1, 12⟩, ⟨1, 13⟩⟩ := by
      decide +kernel
    rw [hrange] at hiff
    intro hlisted
    have hsame := (hiff.1 hlisted).2 [] (by decide +kernel)
    rw [hdecl] at hsame
    exact absurd hsame (by decide)

end Workspace

end Welle
