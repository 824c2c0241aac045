import Welle.Feature.Rename
import Welle.Proofs.Sites

set_option autoImplicit false

/-! # Entries of the index

Which identifiers of a file name which symbols. The index of a file has an entry for each of them
and no others; one that names a symbol in two ways has one entry. -/

namespace Welle

namespace SourceFile

/-- An identifier of a file names a symbol: in an import list, where a binding is declared, or in a
    use of a binding or of a member of a module. -/
inductive Names (ws : Workspace) (file : SourceFile) : Ident → SymbolKey → Role → Prop
  | imported {imported : ImportedName} {key : SymbolKey} (hmem : imported ∈ file.importedNames)
    (hkey : ws.memberKey? file imported.spec imported.item.name.name = some key) :
    Names ws file imported.item.name key .importName
  | declared {i : Nat} {b : Binding} {key : SymbolKey} (hb : file.analysis.bindings[i]? = some b)
    (hkind : b.kind ≠ .imported) (hkey : ws.bindingKey? file b = some key) :
    Names ws file b.decl key .declaration
  | aliased {i : Nat} {b : Binding} {key : SymbolKey} (hb : file.analysis.bindings[i]? = some b)
    (hkind : b.kind = .imported) (halias : file.isAliased b = true)
    (hkey : ws.bindingKey? file b = some key) :
    Names ws file b.decl key .aliasUse
  | used {r : Reference} {i : Nat} {b : Binding} {key : SymbolKey}
    (hr : r ∈ file.analysis.references) (hres : r.resolution = .binding i)
    (hb : file.analysis.bindings[i]? = some b) (hkey : ws.bindingKey? file b = some key) :
    Names ws file r.ident key
      (if b.kind = .imported && file.isAliased b then .aliasUse else .reference)
  | member {r : Reference} {base spec text : String} {key : SymbolKey}
    (hr : r ∈ file.analysis.references) (hres : r.resolution = .moduleMember base spec text)
    (hkey : ws.memberKey? file spec text = some key) :
    Names ws file r.ident key .reference

end SourceFile

namespace Workspace

variable {ws : Workspace} {file : SourceFile}

/-! ## Entries of one file -/

/-- Two entries that the index takes for one. -/
def sameEntry (e e' : IndexEntry) : Prop :=
  e.occurrence.range = e'.occurrence.range ∧ e.key.tidy = e'.key.tidy

theorem addEntry_subset (entries : List IndexEntry) (e : IndexEntry) :
    addEntry entries e ⊆ entries ++ [e] := by
  unfold addEntry
  split
  · exact List.subset_append_left _ _
  · exact List.Subset.refl _

theorem subset_addEntry (entries : List IndexEntry) (e : IndexEntry) :
    entries ⊆ addEntry entries e := by
  unfold addEntry
  split
  · exact List.Subset.refl _
  · exact List.subset_append_left _ _

theorem exists_addEntry (entries : List IndexEntry) (e : IndexEntry) :
    ∃ e' ∈ addEntry entries e, sameEntry e' e := by
  unfold addEntry
  split
  next h =>
    obtain ⟨e', he', hsame⟩ := List.any_eq_true.1 h
    exact ⟨e', he', by simpa [sameEntry] using hsame⟩
  next => exact ⟨e, by simp, rfl, rfl⟩

theorem foldl_addEntry_subset (found entries : List IndexEntry) :
    found.foldl addEntry entries ⊆ entries ++ found := by
  induction found generalizing entries with
  | nil => simp
  | cons e found ih =>
    refine List.Subset.trans (ih (addEntry entries e)) ?_
    rw [List.append_subset]
    refine ⟨List.Subset.trans (addEntry_subset entries e) ?_, ?_⟩
    · rw [List.append_subset]
      exact ⟨List.subset_append_left _ _, by simp⟩
    · exact List.subset_append_of_subset_right _ (List.subset_cons_self _ _)

theorem subset_foldl_addEntry (found entries : List IndexEntry) :
    entries ⊆ found.foldl addEntry entries := by
  induction found generalizing entries with
  | nil => exact List.Subset.refl _
  | cons e found ih => exact List.Subset.trans (subset_addEntry entries e) (ih _)

theorem exists_foldl_addEntry {found : List IndexEntry} {e : IndexEntry} (he : e ∈ found)
    (entries : List IndexEntry) : ∃ e' ∈ found.foldl addEntry entries, sameEntry e' e := by
  induction found generalizing entries with
  | nil => cases he
  | cons first found ih =>
    obtain rfl | he := List.mem_cons.1 he
    · obtain ⟨e', he', hsame⟩ := exists_addEntry entries e
      exact ⟨e', subset_foldl_addEntry found _ he', hsame⟩
    · exact ih he _

/-- The entries before they are compared with each other. -/
def foundEntries (ws : Workspace) (file : SourceFile) : List IndexEntry :=
  ws.importEntries file ++ file.analysis.bindings.toList.filterMap (ws.bindingEntry? file)
    ++ file.analysis.references.toList.filterMap (ws.referenceEntry? file)

theorem fileEntries_eq (ws : Workspace) (file : SourceFile) :
    ws.fileEntries file = (ws.foundEntries file).foldl addEntry [] := rfl

theorem bindingEntry?_of_imported {b : Binding} {key : SymbolKey}
    (hkey : ws.bindingKey? file b = some key) (hkind : b.kind = .imported) :
    ws.bindingEntry? file b
      = if file.isAliased b then some ⟨key, file.occurrence b.decl .aliasUse⟩ else none := by
  unfold bindingEntry?
  rw [hkey, Option.bind_eq_bind, Option.bind_some, if_pos hkind, guard]
  split <;> rfl

theorem bindingEntry?_eq_some {b : Binding} {e : IndexEntry}
    (h : ws.bindingEntry? file b = some e) : ws.bindingKey? file b = some e.key
      ∧ ((b.kind ≠ .imported ∧ e.occurrence = file.occurrence b.decl .declaration)
        ∨ (b.kind = .imported ∧ file.isAliased b = true
          ∧ e.occurrence = file.occurrence b.decl .aliasUse)) := by
  obtain ⟨key, hkey, hbody⟩ := Option.bind_eq_some_iff.1 h
  by_cases hkind : b.kind = .imported
  · rw [bindingEntry?_of_imported hkey hkind] at h
    obtain ⟨halias, h⟩ := Option.ite_none_right_eq_some.1 h
    obtain rfl := Option.some.inj h
    exact ⟨hkey, .inr ⟨hkind, halias, rfl⟩⟩
  · rw [if_neg hkind] at hbody
    obtain rfl := Option.some.inj hbody
    exact ⟨hkey, .inl ⟨hkind, rfl⟩⟩

/-- Every entry is that of an identifier that names its symbol. -/
theorem names_of_mem_foundEntries {e : IndexEntry} (h : e ∈ ws.foundEntries file) :
    ∃ id, file.Names ws id e.key e.occurrence.role
      ∧ e.occurrence = file.occurrence id e.occurrence.role := by
  rw [foundEntries, List.mem_append, List.mem_append] at h
  obtain (h | h) | h := h
  · obtain ⟨imported, hmem, hentry⟩ := List.mem_filterMap.1 h
    obtain ⟨key, hkey, rfl⟩ := Option.map_eq_some_iff.1 hentry
    exact ⟨imported.item.name, .imported hmem hkey, rfl⟩
  · obtain ⟨b, hmem, hentry⟩ := List.mem_filterMap.1 h
    obtain ⟨i, hb⟩ := List.getElem?_of_mem hmem
    rw [Array.getElem?_toList] at hb
    obtain ⟨hkey, ⟨hkind, hocc⟩ | ⟨hkind, halias, hocc⟩⟩ := bindingEntry?_eq_some hentry
    · rw [hocc]
      exact ⟨b.decl, .declared hb hkind hkey, rfl⟩
    · rw [hocc]
      exact ⟨b.decl, .aliased hb hkind halias hkey, rfl⟩
  · obtain ⟨⟨id, resolution⟩, hmem, hentry⟩ := List.mem_filterMap.1 h
    have hr := Array.mem_toList_iff.1 hmem
    cases resolution with
    | binding i =>
      obtain ⟨b, hb, hentry⟩ := Option.bind_eq_some_iff.1 hentry
      obtain ⟨key, hkey, hentry⟩ := Option.bind_eq_some_iff.1 hentry
      obtain rfl := Option.some.inj hentry
      exact ⟨id, .used hr rfl hb hkey, rfl⟩
    | moduleMember base spec text =>
      obtain ⟨key, hkey, rfl⟩ := Option.map_eq_some_iff.1 hentry
      exact ⟨id, .member hr rfl hkey, rfl⟩
    | builtin => cases hentry
    | unresolved => cases hentry

/-- Every identifier that names a symbol is found. -/
theorem mem_foundEntries {id : Ident} {key : SymbolKey} {role : Role}
    (h : file.Names ws id key role) : ⟨key, file.occurrence id role⟩ ∈ ws.foundEntries file := by
  rw [foundEntries, List.mem_append, List.mem_append]
  cases h with
  | imported hmem hkey =>
    exact .inl (.inl (List.mem_filterMap.2 ⟨_, hmem, by rw [hkey, Option.map_some]⟩))
  | declared hb hkind hkey =>
    refine .inl (.inr (List.mem_filterMap.2 ⟨_, Array.mem_toList_iff.2 (Array.mem_of_getElem? hb), ?_⟩))
    simp [hkey, hkind, bindingEntry?]
  | aliased hb hkind halias hkey =>
    refine .inl (.inr (List.mem_filterMap.2 ⟨_, Array.mem_toList_iff.2 (Array.mem_of_getElem? hb), ?_⟩))
    rw [bindingEntry?_of_imported hkey hkind, if_pos halias]
  | @used r i b key hr hres hb hkey =>
    refine .inr (List.mem_filterMap.2 ⟨r, Array.mem_toList_iff.2 hr, ?_⟩)
    simp [hres, hb, hkey, referenceEntry?]
  | @member r base spec text key hr hres hkey =>
    refine .inr (List.mem_filterMap.2 ⟨r, Array.mem_toList_iff.2 hr, ?_⟩)
    simp [hres, hkey, referenceEntry?]

theorem names_of_mem_fileEntries {e : IndexEntry} (h : e ∈ ws.fileEntries file) :
    ∃ id, file.Names ws id e.key e.occurrence.role
      ∧ e.occurrence = file.occurrence id e.occurrence.role := by
  rw [fileEntries_eq] at h
  exact names_of_mem_foundEntries (by simpa using foldl_addEntry_subset _ _ h)

/-- The index has an entry for every identifier that names a symbol. -/
theorem exists_fileEntry {id : Ident} {key : SymbolKey} {role : Role}
    (h : file.Names ws id key role) : ∃ e ∈ ws.fileEntries file,
      e.occurrence.range = Editor.identRange file.text id ∧ e.key.tidy = key.tidy := by
  obtain ⟨e, he, hrange, hkey⟩ := exists_foldl_addEntry (mem_foundEntries h) []
  exact ⟨e, he, hrange, hkey⟩

end Workspace

end Welle
