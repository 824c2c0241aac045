import Welle.Proofs.References

set_option autoImplicit false

/-! # One symbol at each place

What a walk records at an identifier is one symbol. The index knows of one more: an import list
names members of a module. That is the symbol which the name is bound to, unless the name was bound
before the import or a later import binds it once more. -/

namespace Welle

/-- A list without duplicates that is put together from parts has each element from one part. -/
theorem List.eq_of_nodup_flatMap {α β : Type} {f : α → List β} {xs : List α}
    (h : (xs.flatMap f).Nodup) {x y : α} (hx : x ∈ xs) (hy : y ∈ xs) {b : β} (hbx : b ∈ f x)
    (hby : b ∈ f y) : x = y := by
  by_contra hne
  have : Std.Symm (Function.onFun List.Disjoint f) := ⟨fun _ _ h _ hb ha => h ha hb⟩
  exact (List.nodup_flatMap.1 h).2.forall hx hy hne hbx hby

/-! ## Import lists -/

namespace Program

/-- A name of an import list that is not bound under another name is named by its step. -/
theorem name_mem_event {imported : ImportedName} (h : imported.item.asName = none) :
    imported.item.name ∈ imported.event.idents := by
  simp [ImportedName.event, Event.idents, ImportItem.bound, h]

/-- No step but that of an import list names what an import list names. -/
theorem event_of_name_mem {text : String} {imported : ImportedName}
    (h : imported ∈ (Program.parse text).program.importedNames) {e : Event}
    (he : e ∈ (Program.parse text).program.events) (hmem : imported.item.name ∈ e.idents) :
    imported.item.asName = none ∧ e = imported.event := by
  obtain ⟨hevents, -, -⟩ := List.nodup_append.1 (nodup_eventIdents_replaced text)
  cases hname : imported.item.asName with
  | none =>
    exact ⟨rfl, List.eq_of_nodup_flatMap hevents he (event_mem h) hmem
      (name_mem_event hname)⟩
  | some asName =>
    refine absurd (List.mem_flatMap.2 ⟨e, he, hmem⟩) (not_mem_eventIdents_of_replaced h ?_)
    rw [hname, Option.isSome_some]

/-- No two names of import lists stand at the same place. -/
theorem spec_eq_of_name_eq {text : String} {imported other : ImportedName}
    (h : imported ∈ (Program.parse text).program.importedNames)
    (h' : other ∈ (Program.parse text).program.importedNames)
    (hname : imported.item.name = other.item.name) : imported.spec = other.spec := by
  cases hsome : imported.item.asName with
  | none =>
    obtain ⟨-, hevent⟩ := event_of_name_mem h' (event_mem h)
      (hname ▸ name_mem_event hsome)
    exact (Event.importMember.inj hevent).2.1
  | some asName =>
    cases hsome' : other.item.asName with
    | none =>
      obtain ⟨hnone, -⟩ := event_of_name_mem h (event_mem h')
        (hname ▸ name_mem_event hsome')
      cases hsome.symm.trans hnone
    | some asName' =>
      obtain ⟨-, hreplaced, -⟩ := List.nodup_append.1 (nodup_eventIdents_replaced text)
      rw [ImportedName.replaced, List.filterMap_eq_flatMap_toList] at hreplaced
      rw [List.eq_of_nodup_flatMap (b := imported.item.name) hreplaced h h'
        (by simp [ImportedName.replaced?, hsome]) (by simp [ImportedName.replaced?, hsome', hname])]

end Program

/-! ## Places of a file -/

namespace SourceFile

variable {ws : Workspace} {file : SourceFile}

/-- What a file records at one place is one use, and one binding. -/
theorem recorded_once (hfile : file.analysis = .ofText file.text) :
    (∀ r ∈ file.analysis.references, ∀ r' ∈ file.analysis.references,
      r.ident.pos = r'.ident.pos → r = r')
    ∧ (∀ (i : Nat) (b : Binding), file.analysis.bindings[i]? = some b →
      ∀ r ∈ file.analysis.references, r.ident.pos = b.decl.pos → r.resolution = .binding i)
    ∧ ∀ (i j : Nat) (b b' : Binding), file.analysis.bindings[i]? = some b →
      file.analysis.bindings[j]? = some b' → b.decl.pos = b'.decl.pos → i = j := by
  have hrecorded := Analysis.recorded file.text
  rw [hfile]
  exact ⟨hrecorded.use, hrecorded.declaration, hrecorded.binding⟩

/-- The walk of a file records a symbol at an identifier: a binding that is declared or used there,
    or a member of a module. -/
inductive Records (ws : Workspace) (file : SourceFile) : Ident → SymbolKey → Prop
  | declared {i : Nat} {b : Binding} {key : SymbolKey} (hb : file.analysis.bindings[i]? = some b)
    (hkey : ws.bindingKey? file b = some key) : Records ws file b.decl key
  | used {r : Reference} {i : Nat} {b : Binding} {key : SymbolKey}
    (hr : r ∈ file.analysis.references) (hres : r.resolution = .binding i)
    (hb : file.analysis.bindings[i]? = some b) (hkey : ws.bindingKey? file b = some key) :
    Records ws file r.ident key
  | member {r : Reference} {base spec text : String} {key : SymbolKey}
    (hr : r ∈ file.analysis.references) (hres : r.resolution = .moduleMember base spec text)
    (hkey : ws.memberKey? file spec text = some key) : Records ws file r.ident key

theorem Names.imported_or_records {id : Ident} {key : SymbolKey} {role : Role}
    (h : file.Names ws id key role) :
    (∃ imported ∈ file.importedNames, imported.item.name = id
      ∧ ws.memberKey? file imported.spec imported.item.name.name = some key)
    ∨ file.Records ws id key := by
  cases h with
  | imported hmem hkey => exact .inl ⟨_, hmem, rfl, hkey⟩
  | declared hb hkind hkey => exact .inr (.declared hb hkey)
  | aliased hb hkind halias hkey => exact .inr (.declared hb hkey)
  | used hr hres hb hkey => exact .inr (.used hr hres hb hkey)
  | member hr hres hkey => exact .inr (.member hr hres hkey)

/-- At a use of a binding the symbol of the binding is recorded. -/
theorem Records.bindingKey? (hfile : file.analysis = .ofText file.text) {id : Ident}
    {key : SymbolKey} (h : file.Records ws id key) {r : Reference}
    (hr : r ∈ file.analysis.references) (hid : id.pos = r.ident.pos) {i : Nat} {b : Binding}
    (hres : r.resolution = .binding i) (hb : file.analysis.bindings[i]? = some b) :
    ws.bindingKey? file b = some key := by
  obtain ⟨huse, hdeclaration, hbinding⟩ := recorded_once hfile
  cases h with
  | @declared j b' _ hb' hkey =>
    have hres' := hdeclaration j b' hb' r hr hid.symm
    obtain rfl := Resolution.binding.inj (hres.symm.trans hres')
    rwa [← Option.some.inj (hb'.symm.trans hb)]
  | @used r' j b' _ hr' hres' hb' hkey =>
    obtain rfl := huse r' hr' r hr hid
    obtain rfl := Resolution.binding.inj (hres.symm.trans hres')
    rwa [← Option.some.inj (hb'.symm.trans hb)]
  | @member r' base spec text _ hr' hres' hkey =>
    obtain rfl := huse r' hr' r hr hid
    cases hres.symm.trans hres'

/-- The walk records one symbol at an identifier. -/
theorem Records.unique (hfile : file.analysis = .ofText file.text) {id id' : Ident}
    {key key' : SymbolKey} (h : file.Records ws id key) (h' : file.Records ws id' key')
    (hid : id.pos = id'.pos) : key = key' := by
  obtain ⟨huse, hdeclaration, hbinding⟩ := recorded_once hfile
  cases h with
  | @used r i b _ hr hres hb hkey =>
    exact Option.some.inj (hkey.symm.trans (h'.bindingKey? hfile hr hid.symm hres hb))
  | @declared i b _ hb hkey =>
    cases h' with
    | @declared j b' _ hb' hkey' =>
      obtain rfl := hbinding i j b b' hb hb' hid
      obtain rfl := Option.some.inj (hb.symm.trans hb')
      exact Option.some.inj (hkey.symm.trans hkey')
    | @used r j b' _ hr hres hb' hkey' =>
      have hkey := (Records.declared hb hkey).bindingKey? hfile hr hid hres hb'
      exact Option.some.inj (hkey.symm.trans hkey')
    | @member r base spec text _ hr hres' hkey' =>
      have hres := hdeclaration i b hb r hr hid.symm
      cases hres.symm.trans hres'
  | @member r base spec text _ hr hres hkey =>
    cases h' with
    | @declared j b' _ hb' hkey' =>
      have hres' := hdeclaration j b' hb' r hr hid
      cases hres.symm.trans hres'
    | @used r' j b' _ hr' hres' hb' hkey' =>
      have hkey := (Records.member hr hres hkey).bindingKey? hfile hr' hid hres' hb'
      exact Option.some.inj (hkey.symm.trans hkey')
    | @member r' base' spec' text' _ hr' hres' hkey' =>
      obtain rfl := huse r hr r' hr' hid
      obtain ⟨-, rfl, rfl⟩ := Resolution.moduleMember.inj (hres.symm.trans hres')
      exact Option.some.inj (hkey.symm.trans hkey')

/-- A name in an import list is recorded as a use of a binding that stands for another symbol than
    the list names. -/
def Clashes (ws : Workspace) (file : SourceFile) : Prop :=
  ∃ imported ∈ file.importedNames, ∃ r ∈ file.analysis.references, r.ident = imported.item.name
    ∧ ∃ i b listed bound, r.resolution = .binding i ∧ file.analysis.bindings[i]? = some b
      ∧ ws.memberKey? file imported.spec imported.item.name.name = some listed
      ∧ ws.bindingKey? file b = some bound ∧ bound.tidy ≠ listed.tidy

/-- A name in an import list that is recorded at all is recorded as a use of a binding. -/
theorem exists_reference_of_imported (hfile : file.analysis = .ofText file.text)
    {imported : ImportedName} (hmem : imported ∈ file.importedNames) {key : SymbolKey}
    (h : file.Records ws imported.item.name key) :
    ∃ r ∈ file.analysis.references, r.ident = imported.item.name
      ∧ ∃ i b, r.resolution = .binding i ∧ file.analysis.bindings[i]? = some b := by
  rw [importedNames, hfile] at hmem
  cases hname : imported.item.asName with
  | some asName =>
    have hnone := Program.not_mem_eventIdents_of_replaced hmem (by rw [hname, Option.isSome_some])
    refine absurd ?_ hnone
    generalize imported.item.name = id at h
    cases h with
    | declared hb hkey => exact Analysis.decl_mem_eventIdents (hfile ▸ hb)
    | used hr hres hb hkey => exact Analysis.ident_mem_eventIdents (hfile ▸ hr)
    | member hr hres hkey => exact Analysis.ident_mem_eventIdents (hfile ▸ hr)
  | none =>
    have hevent : imported.event ∈ (Program.parse file.text).program.events :=
      Program.event_mem hmem
    have hbound : imported.item.bound = imported.item.name := by simp [ImportItem.bound, hname]
    rw [ImportedName.event, hbound] at hevent
    obtain ⟨front, back, hevents⟩ := List.append_of_mem hevent
    have hr := (Walk.meets_of_events_eq hevents).mem_references
      (Walk.mem_references_declareAndRefer _ imported.item.name .imported _)
    obtain ⟨b, hb, -⟩ :=
      (Walk.valid_ofProgram (.ofText file.text) (Program.parse file.text).program).means _ hr
    rw [hfile]
    exact ⟨_, hr, rfl, _, b, rfl, hb⟩

/-- An identifier names one symbol where no import list clashes. -/
theorem Names.unique (hfile : file.analysis = .ofText file.text) (hnone : ¬file.Clashes ws)
    {id : Ident} {key key' : SymbolKey} {role role' : Role} (h : file.Names ws id key role)
    (h' : file.Names ws id key' role') : key.tidy = key'.tidy := by
  -- The symbol of an import list is the one that the walk records there.
  have hlisted {imported : ImportedName} {listed recorded : SymbolKey}
      (hmem : imported ∈ file.importedNames)
      (hkey : ws.memberKey? file imported.spec imported.item.name.name = some listed)
      (hrecords : file.Records ws imported.item.name recorded) : recorded.tidy = listed.tidy := by
    obtain ⟨r, hr, hident, i, b, hres, hb⟩ := exists_reference_of_imported hfile hmem hrecords
    by_contra hne
    exact hnone ⟨imported, hmem, r, hr, hident, i, b, listed, recorded, hres, hb, hkey,
      hrecords.bindingKey? hfile hr (by rw [hident]) hres hb, hne⟩
  obtain ⟨imported, hmem, rfl, hkey⟩ | hrecords := h.imported_or_records
  · obtain ⟨other, hmem', hname, hkey'⟩ | hrecords' := h'.imported_or_records
    · rw [importedNames, hfile] at hmem hmem'
      rw [hname, Program.spec_eq_of_name_eq hmem' hmem hname] at hkey'
      rw [Option.some.inj (hkey.symm.trans hkey')]
    · exact (hlisted hmem hkey hrecords').symm
  · obtain ⟨imported, hmem, rfl, hkey'⟩ | hrecords' := h'.imported_or_records
    · exact hlisted hmem hkey' hrecords
    · rw [hrecords.unique hfile hrecords' rfl]

/-- Where an import list clashes, one identifier names two symbols. -/
theorem Clashes.names (h : file.Clashes ws) : ∃ id listed bound role,
    file.Names ws id listed .importName ∧ file.Names ws id bound role
      ∧ bound.tidy ≠ listed.tidy := by
  obtain ⟨imported, hmem, r, hr, hident, i, b, listed, bound, hres, hb, hkey, hbound, hne⟩ := h
  have hused := Names.used hr hres hb hbound
  rw [hident] at hused
  exact ⟨imported.item.name, listed, bound, _, .imported hmem hkey, hused, hne⟩

end SourceFile

namespace Workspace

variable {ws : Workspace} {file : SourceFile}

/-- The path of a file tells which file it is. -/
theorem Indexes.eq_of_path_eq {other : SourceFile} (hother : ws.Indexes other)
    (hfile : ws.Indexes file) (hpath : other.path = file.path) : other = file := by
  have hsource {f : SourceFile} (h : ws.Indexes f) : ws.sourceFile? f.path = some f := by
    obtain ⟨files, p, -, -, hp⟩ := h
    have hp' := hp
    obtain ⟨text, -, hp'⟩ := Option.bind_eq_some_iff.1 hp'
    obtain ⟨uri, -, hp'⟩ := Option.bind_eq_some_iff.1 hp'
    rw [← Option.some.inj hp'] at hp ⊢
    exact hp
  have hsame := hsource hother
  rw [hpath, hsource hfile] at hsame
  exact (Option.some.inj hsame).symm

/-- What is listed as a place in a file with a URI of its own is named there. -/
theorem names_of_occurrence {index : WorkspaceIndex} (hindex : ws.index = .ok index)
    (hfile : ws.Indexes file)
    (halone : ∀ other, ws.Indexes other → other.uri = file.uri → other.path = file.path)
    {key : SymbolKey} {o : Occurrence} (ho : o ∈ index.occurrences key) (huri : o.uri = file.uri) :
    ∃ found id, file.Names ws id found o.role ∧ found.tidy = key.tidy
      ∧ o.range = Editor.identRange file.text id := by
  obtain ⟨other, found, id, hother, hnames, htidy, hocc⟩ := mem_occurrences hindex ho
  have huri' : other.uri = file.uri := by
    rw [← huri, hocc]
    rfl
  obtain rfl := hother.eq_of_path_eq hfile (halone other hother huri')
  refine ⟨found, id, hnames, htidy, ?_⟩
  rw [hocc]
  rfl

/-- In a file with a URI of its own every range is listed as a place of one symbol only, if and only
    if no name in an import list is bound to another symbol than the member of the module. -/
theorem one_symbol_at_range_iff {index : WorkspaceIndex} (hindex : ws.index = .ok index)
    (hfile : ws.Indexes file)
    (halone : ∀ other, ws.Indexes other → other.uri = file.uri → other.path = file.path) :
    (∀ key key' o o', o ∈ index.occurrences key → o' ∈ index.occurrences key' →
      o.uri = file.uri → o'.uri = file.uri → o.range = o'.range → key.tidy = key'.tidy)
    ↔ ¬file.Clashes ws := by
  constructor
  · -- the name in the list is a place of the member and of what it is bound to
    intro hone hclash
    obtain ⟨id, listed, bound, role, hlisted, hbound, hne⟩ := hclash.names
    obtain ⟨o, ho, hocc, -⟩ := exists_occurrence hindex hfile hlisted rfl
    obtain ⟨o', ho', hocc', -⟩ := exists_occurrence hindex hfile hbound rfl
    refine hne (hone bound listed o' o ho' ho ?_ ?_ ?_)
    · rw [hocc']
      rfl
    · rw [hocc]
      rfl
    · rw [hocc, hocc']
      rfl
  · -- places with one range are of one identifier, and that names one symbol
    intro hnone key key' o o' ho ho' huri huri' hrange
    obtain ⟨found, id, hnames, htidy, hid⟩ := names_of_occurrence hindex hfile halone ho huri
    obtain ⟨found', id', hnames', htidy', hid'⟩ :=
      names_of_occurrence hindex hfile halone ho' huri'
    obtain rfl : id = id' := Editor.eq_of_identRange_eq (hnames.ident_mem hfile.analysis)
      (hnames'.ident_mem hfile.analysis) (by rw [← hid, ← hid', hrange])
    rw [← htidy, ← htidy']
    exact hnames.unique hfile.analysis hnone hnames'

/-- A module on disk with two exports, and a document that imports both of them under one name. -/
def importedTwice : Workspace :=
  let disk := FileSystem.empty.write ["lib.wll"] "export x = 1\nexport y = 2\n".toUTF8
  (ofRoot disk ⟨"/"⟩ {}).openDocument ⟨"file", some .empty, "/main.wll", ""⟩
    "from \"./lib\" import x\nfrom \"./lib\" import y as x\n" 1

/-- The document of `importedTwice`. -/
def importedTwiceFile : SourceFile :=
  .ofText ⟨"file", some .empty, "/main.wll", ""⟩ ⟨"/main.wll"⟩
    "from \"./lib\" import x\nfrom \"./lib\" import y as x\n"

/-- The name in the first import list is a place of both exports. -/
theorem one_symbol_at_range_iff_imported_twice : ∃ index key key' o o',
    importedTwice.index = .ok index ∧ o ∈ index.occurrences key ∧ o' ∈ index.occurrences key'
      ∧ o.uri = importedTwiceFile.uri ∧ o'.uri = importedTwiceFile.uri ∧ o.range = o'.range
      ∧ key.tidy ≠ key'.tidy := by
  have hfiles : importedTwice.files.toOption = some [⟨"/lib.wll"⟩, ⟨"/main.wll"⟩] := by
    decide +kernel
  have hfile : importedTwice.Indexes importedTwiceFile :=
    ⟨_, ⟨"/main.wll"⟩, ok_of_toOption hfiles, by simp,
      sourceFile?_eq (by decide +kernel) (by decide +kernel)⟩
  have halone : ∀ other, importedTwice.Indexes other → other.uri = importedTwiceFile.uri →
      other.path = importedTwiceFile.path :=
    forall_indexes hfiles (by decide +kernel)
  have hclash : importedTwiceFile.Clashes importedTwice :=
    ⟨⟨"./lib", ⟨⟨"x", ⟨1, 21⟩⟩, none⟩⟩, by decide +kernel, ⟨⟨"x", ⟨1, 21⟩⟩, .binding 0⟩,
      by decide +kernel, rfl, 0, ⟨"x", .imported, ⟨"x", ⟨1, 21⟩⟩, 0, [], some "./lib", some "y"⟩,
      .exported ⟨"/lib.wll"⟩ "x", .exported ⟨"/lib.wll"⟩ "y", rfl, by decide +kernel,
      by decide +kernel, by decide +kernel, by decide +kernel⟩
  cases hindex : importedTwice.index with
  | error cause =>
    have hok : importedTwice.index.toOption.isSome = true := by decide +kernel
    simp [hindex, Except.toOption] at hok
  | ok index =>
    have hmany := (one_symbol_at_range_iff hindex hfile halone).not.2 (not_not.2 hclash)
    push Not at hmany
    obtain ⟨key, key', o, o', ho, ho', huri, huri', hrange, hne⟩ := hmany
    exact ⟨index, key, key', o, o', rfl, ho, ho', huri, huri', hrange, hne⟩

end Workspace

end Welle
