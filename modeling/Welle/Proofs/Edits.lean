import Welle.Proofs.Cursors
import Welle.Proofs.ImportLists
import Welle.Proofs.Index

set_option autoImplicit false

/-! # The edits of a renaming

A renaming writes over whole identifiers that are spelled with the old name. For a name of its own
file this holds always. For an export it holds unless a file has an imported binding whose other
name the list of aliases does not know: then the other name is written over. -/

namespace Welle

/-! ## Ranges -/

/-- Edits write over whole identifiers of a text that are spelled as given, and no two of them
    overlap. -/
structure WholeEdits (text word : String) (edits : List Edit) : Prop where
  covers : ∀ e ∈ edits, ∃ range offset, e.range = some range
    ∧ Editor.CoversWord text range word offset
    ∧ ∃ id ∈ (Program.parse text).program.idents,
      id.name = word ∧ range = Editor.identRange text id
  apart : edits.Pairwise fun e e' => ∀ range range', e.range = some range → e'.range = some range' →
    range.stop.notAfter range'.start ∨ range'.stop.notAfter range.start

namespace Editor

/-- The ranges of two identifiers do not overlap. -/
theorem identRange_apart {text : String} {a b : Ident}
    (ha : a ∈ (Program.parse text).program.idents) (hb : b ∈ (Program.parse text).program.idents)
    (hne : a ≠ b) : (identRange text a).stop.notAfter (identRange text b).start
      ∨ (identRange text b).stop.notAfter (identRange text a).start := by
  obtain ⟨before, behind, htext, hpos, hword, -⟩ := Program.located_of_mem ha
  obtain ⟨before', behind', htext', hpos', hword', -⟩ := Program.located_of_mem hb
  have hprefix : before ++ a.name.toList <+: text.toList := ⟨behind, by simp [htext]⟩
  have hprefix' : before' ++ b.name.toList <+: text.toList := ⟨behind', by simp [htext']⟩
  have hstart : before <+: text.toList := ⟨_, htext.symm⟩
  have hstart' : before' <+: text.toList := ⟨_, htext'.symm⟩
  rw [identRange_of_isWordText htext hpos hword, identRange_of_isWordText htext' hpos' hword']
  obtain hlt | hlt := Program.apart_of_ne ha hb hne
  · rw [hpos, hpos', ← Position.after_append] at hlt
    obtain ⟨gap, rfl⟩ := prefix_of_after_le hprefix hstart' (Position.le_of_lt hlt)
    exact .inl (endCursor_append _ gap)
  · rw [hpos, hpos', ← Position.after_append] at hlt
    obtain ⟨gap, rfl⟩ := prefix_of_after_le hprefix' hstart (Position.le_of_lt hlt)
    exact .inr (endCursor_append _ gap)

end Editor

/-! ## Edits by document -/

namespace Workspace

/-- The edit that writes a name at a place. -/
def editAt (newName : String) (l : Location) : Edit := ⟨some l.range, newName⟩

/-- The edits of each document are those at its places, in their order, and the documents with edits
    are those with places. -/
structure Grouped (newName : String) (locations : List Location)
    (edits : List (Uri × List Edit)) : Prop where
  content : ∀ entry ∈ edits,
    entry.2 = (locations.filter (·.uri = entry.1)).map (editAt newName)
  document : ∀ l ∈ locations, ∃ entry ∈ edits, entry.1 = l.uri
  place : ∀ entry ∈ edits, ∃ l ∈ locations, l.uri = entry.1

theorem Grouped.addEdit {newName : String} {locations : List Location}
    {edits : List (Uri × List Edit)} (h : Grouped newName locations edits) (l : Location) :
    Grouped newName (locations ++ [l]) (addEdit edits l.uri (editAt newName l)) := by
  unfold Workspace.addEdit
  split
  -- the document has an entry, which gets one more edit
  next hany =>
    refine ⟨fun entry hentry => ?_, fun l' hl' => ?_, fun entry hentry => ?_⟩
    · obtain ⟨old, hold, rfl⟩ := List.mem_map.1 hentry
      have hedits := h.content old hold
      by_cases huri : old.1 = l.uri
      · simp only [if_pos huri]
        rw [hedits, huri]
        simp
      · simp only [if_neg huri]
        rw [hedits]
        simp [Ne.symm huri]
    · have hdocument : ∃ entry ∈ edits, entry.1 = l'.uri := by
        obtain hl' | hl' := List.mem_append.1 hl'
        · exact h.document l' hl'
        · obtain rfl := List.mem_singleton.1 hl'
          simpa using hany
      obtain ⟨entry, hentry, heq⟩ := hdocument
      refine ⟨_, List.mem_map_of_mem hentry, ?_⟩
      split
      next huri => rw [← huri, heq]
      next => exact heq
    · obtain ⟨old, hold, rfl⟩ := List.mem_map.1 hentry
      split
      next => exact ⟨l, List.mem_append_right _ (List.mem_singleton_self l), rfl⟩
      next =>
        obtain ⟨l', hl', heq⟩ := h.place old hold
        exact ⟨l', List.mem_append_left _ hl', heq⟩
  -- the document gets an entry of its own
  next hany =>
    have hnone (entry : Uri × List Edit) (hentry : entry ∈ edits) : entry.1 ≠ l.uri :=
      fun heq => hany (List.any_eq_true.2 ⟨entry, hentry, by simpa using heq⟩)
    refine ⟨fun entry hentry => ?_, fun l' hl' => ?_, fun entry hentry => ?_⟩
    · obtain hentry | hentry := List.mem_append.1 hentry
      · rw [h.content entry hentry]
        simp [Ne.symm (hnone entry hentry)]
      · obtain rfl := List.mem_singleton.1 hentry
        have hempty : locations.filter (·.uri = l.uri) = [] := by
          rw [List.filter_eq_nil_iff]
          intro l' hl' heq
          obtain ⟨entry, hentry, hdocument⟩ := h.document l' hl'
          exact hnone entry hentry (hdocument.trans (by simpa using heq))
        simp [hempty]
    · obtain hl' | hl' := List.mem_append.1 hl'
      · obtain ⟨entry, hentry, heq⟩ := h.document l' hl'
        exact ⟨entry, List.mem_append_left _ hentry, heq⟩
      · obtain rfl := List.mem_singleton.1 hl'
        exact ⟨_, List.mem_append_right _ (List.mem_singleton_self _), rfl⟩
    · obtain hentry | hentry := List.mem_append.1 hentry
      · obtain ⟨l', hl', heq⟩ := h.place entry hentry
        exact ⟨l', List.mem_append_left _ hl', heq⟩
      · obtain rfl := List.mem_singleton.1 hentry
        exact ⟨l, List.mem_append_right _ (List.mem_singleton_self l), rfl⟩

theorem grouped_editsAt (newName : String) (locations : List Location) :
    Grouped newName locations (editsAt newName locations) := by
  induction locations using List.reverseRecOn with
  | nil => exact ⟨by simp [editsAt], by simp, by simp [editsAt]⟩
  | append_singleton locations l ih =>
    have hlast : editsAt newName (locations ++ [l]) =
        addEdit (editsAt newName locations) l.uri (editAt newName l) := by
      simp [editsAt, editAt]
    rw [hlast]
    exact ih.addEdit l

/-! ## Spelling -/

end Workspace

/-- The name of a symbol. -/
def SymbolKey.name : SymbolKey → String
  | inScope _ _ name => name
  | exported _ name => name

theorem SymbolKey.name_tidy (key : SymbolKey) : key.tidy.name = key.name := by
  cases key <;> rfl

theorem SymbolKey.name_of_tidy_eq {key key' : SymbolKey} (h : key.tidy = key'.tidy) :
    key.name = key'.name := by
  rw [← key.name_tidy, h, key'.name_tidy]

namespace Program

theorem importedName_mem {program : Program} {imported : ImportedName}
    (h : imported ∈ program.importedNames) : imported.item.name ∈ program.idents := by
  cases hname : imported.item.asName with
  | none =>
    have hevent : imported.event ∈ program.events := event_mem h
    have hbound : imported.item.bound = imported.item.name := by simp [ImportItem.bound, hname]
    refine program.eventIdents_subperm.subset (List.mem_flatMap.2 ⟨_, hevent, ?_⟩)
    simp [ImportedName.event, Event.idents, hbound]
  | some asName =>
    have hcount := Stmt.count_listEvents imported.item.name program.stmts
    have hreplaced : imported.item.name ∈ ImportedName.replaced program.importedNames :=
      List.mem_filterMap.2 ⟨imported, h, by simp [ImportedName.replaced?, hname]⟩
    have hpos := List.count_pos_iff.2 hreplaced
    exact List.count_pos_iff.1 (Nat.lt_of_lt_of_le (Nat.add_pos_right _ hpos) hcount)

end Program

namespace SourceFile

variable {ws : Workspace} {file : SourceFile}

/-- An imported binding of a symbol has another name than the symbol, and the list of aliases does
    not know it. -/
def Misnames (ws : Workspace) (file : SourceFile) (key : SymbolKey) : Prop :=
  ∃ b ∈ file.analysis.bindings, b.kind = .imported ∧ file.isAliased b = false ∧ b.name ≠ key.name
    ∧ (ws.bindingKey? file b).map SymbolKey.tidy = some key.tidy

instance (ws : Workspace) (file : SourceFile) (key : SymbolKey) :
    Decidable (file.Misnames ws key) :=
  inferInstanceAs (Decidable (∃ b ∈ file.analysis.bindings, _))

theorem name_of_memberKey? {spec member : String} {key : SymbolKey}
    (h : ws.memberKey? file spec member = some key) : key.name = member := by
  obtain ⟨found, -, rfl⟩ := Option.map_eq_some_iff.1 h
  rfl

theorem name_of_bindingKey? {b : Binding} (hkind : b.kind ≠ .imported) {key : SymbolKey}
    (h : ws.bindingKey? file b = some key) : key.name = b.name := by
  rw [Workspace.bindingKey?, if_neg hkind] at h
  obtain rfl := Option.some.inj h
  unfold ownKey
  split <;> rfl

/-- What names a symbol is an identifier of the file. -/
theorem Names.ident_mem (hfile : file.analysis = .ofText file.text) {id : Ident} {key : SymbolKey}
    {role : Role} (h : file.Names ws id key role) :
    id ∈ (Program.parse file.text).program.idents := by
  cases h with
  | imported hmem hkey =>
    rw [importedNames, hfile] at hmem
    exact Program.importedName_mem hmem
  | declared hb hkind hkey => exact Analysis.decl_mem (hfile ▸ hb)
  | aliased hb hkind halias hkey => exact Analysis.decl_mem (hfile ▸ hb)
  | used hr hres hb hkey => exact Analysis.ident_mem (hfile ▸ hr)
  | member hr hres hkey => exact Analysis.ident_mem (hfile ▸ hr)

/-- What names a symbol and is no use of an alias is spelled like the symbol, unless it is a use of
    a binding that misnames it. -/
theorem Names.spelled (hfile : file.analysis = .ofText file.text) {id : Ident} {key : SymbolKey}
    {role : Role} (h : file.Names ws id key role) (hrole : role ≠ .aliasUse)
    (hnot : ¬file.Misnames ws key) : id.name = key.name := by
  cases h with
  | imported hmem hkey => exact (name_of_memberKey? hkey).symm
  | declared hb hkind hkey =>
    rw [name_of_bindingKey? hkind hkey, Analysis.decl_name (hfile ▸ hb)]
  | aliased hb hkind halias hkey => exact absurd rfl hrole
  | @used r i b key hr hres hb hkey =>
    have hname : r.ident.name = b.name :=
      Analysis.name_of_binding (hfile ▸ hr) hres (hfile ▸ hb)
    by_cases hkind : b.kind = .imported
    · have halias : file.isAliased b = false := by
        by_contra halias
        simp [hkind, halias] at hrole
      by_contra hne
      refine hnot ⟨b, Array.mem_of_getElem? hb, hkind, halias, ?_, by rw [hkey, Option.map_some]⟩
      rwa [← hname]
    · rw [hname, name_of_bindingKey? hkind hkey]
  | member hr hres hkey =>
    rw [name_of_memberKey? hkey, Analysis.name_of_member (hfile ▸ hr) hres]

end SourceFile

/-! ## Places that are renamed -/

theorem List.nodup_eraseDups {α : Type} [BEq α] [LawfulBEq α] (xs : List α) :
    xs.eraseDups.Nodup := by
  induction hn : xs.length using Nat.strongRecOn generalizing xs with
  | ind n ih =>
    cases xs with
    | nil => simp
    | cons x xs =>
      have hlen := List.length_filter_le (fun y => !y == x) xs
      rw [List.length_cons] at hn
      rw [List.eraseDups_cons, List.nodup_cons]
      refine ⟨fun hmem => ?_, ih _ (by omega) _ rfl⟩
      have hmem := List.mem_eraseDups.1 hmem
      simp at hmem

namespace Workspace

variable {ws : Workspace}

/-- Whether a file is one of those that the index of a workspace reads. -/
def Indexes (ws : Workspace) (file : SourceFile) : Prop :=
  ∃ files p, ws.files = .ok files ∧ p ∈ files ∧ ws.sourceFile? p = some file

theorem Indexes.analysis {file : SourceFile} (h : ws.Indexes file) :
    file.analysis = .ofText file.text := by
  obtain ⟨files, p, -, -, hp⟩ := h
  obtain ⟨text, -, hp⟩ := Option.bind_eq_some_iff.1 hp
  obtain ⟨uri, -, hp⟩ := Option.bind_eq_some_iff.1 hp
  obtain rfl := Option.some.inj hp
  rfl

theorem mem_entries_index {index : WorkspaceIndex} (h : ws.index = .ok index) (e : IndexEntry) :
    e ∈ index.entries ↔ ∃ file, ws.Indexes file ∧ e ∈ ws.fileEntries file := by
  unfold Workspace.index at h
  cases hfiles : ws.files with
  | error cause => simp [hfiles, bind, Except.bind] at h
  | ok files =>
    simp only [hfiles, bind, Except.bind, pure, Except.pure, Except.ok.injEq] at h
    rw [← h]
    simp only [List.mem_flatMap, List.mem_filterMap, Indexes]
    constructor
    · rintro ⟨file, ⟨p, hp, hfile⟩, he⟩
      exact ⟨file, ⟨files, p, hfiles, hp, hfile⟩, he⟩
    · rintro ⟨file, ⟨files', p, hfiles', hp, hfile⟩, he⟩
      obtain rfl := Except.ok.inj (hfiles.symm.trans hfiles')
      exact ⟨file, ⟨p, hp, hfile⟩, he⟩

/-- The places of a symbol are those where files name it. -/
theorem mem_occurrences {index : WorkspaceIndex} (h : ws.index = .ok index) {key : SymbolKey}
    {o : Occurrence} (ho : o ∈ index.occurrences key) : ∃ file found id, ws.Indexes file
      ∧ file.Names ws id found o.role ∧ found.tidy = key.tidy ∧ o = file.occurrence id o.role := by
  obtain ⟨e, he, rfl⟩ := List.mem_map.1 ho
  obtain ⟨hmem, hkey⟩ := List.mem_filter.1 he
  obtain ⟨file, hfile, hentry⟩ := (mem_entries_index h e).1 hmem
  obtain ⟨id, hnames, hocc⟩ := names_of_mem_fileEntries hentry
  exact ⟨file, e.key, id, hfile, hnames, by simpa using hkey, hocc⟩

theorem exists_occurrence {index : WorkspaceIndex} (h : ws.index = .ok index) {file : SourceFile}
    (hfile : ws.Indexes file) {id : Ident} {key found : SymbolKey} {role : Role}
    (hnames : file.Names ws id found role) (hkey : found.tidy = key.tidy) :
    ∃ o ∈ index.occurrences key, o = file.occurrence id o.role
      ∧ ∃ known, file.Names ws id known o.role := by
  obtain ⟨e, he, hrange, htidy⟩ := exists_fileEntry hnames
  obtain ⟨id', hnames', hocc⟩ := names_of_mem_fileEntries he
  have hsame : id' = id := by
    refine Editor.eq_of_identRange_eq (hnames'.ident_mem hfile.analysis)
      (hnames.ident_mem hfile.analysis) ?_
    rw [← hrange, hocc]
    rfl
  refine ⟨e.occurrence, List.mem_map_of_mem (List.mem_filter.2 ⟨?_, ?_⟩), ?_⟩
  · exact (mem_entries_index h e).2 ⟨file, hfile, he⟩
  · simpa using htidy.trans hkey
  · exact hsame ▸ ⟨hocc, e.key, hnames'⟩

theorem mem_locationsOf {occurrences : List Occurrence} {l : Location} :
    l ∈ locationsOf occurrences ↔ ∃ o ∈ occurrences, l = ⟨o.uri, o.range⟩ := by
  rw [locationsOf, List.mem_eraseDups, List.mem_map]
  exact exists_congr fun o => and_congr_right fun _ => eq_comm

/-- What a renaming writes over: the places of an export that are no uses of aliases, or the places
    of a name in its file. -/
theorem renamedLocations_cases {uri : Uri} {text : String} {an : Analysis} {site : Site}
    {locations : List Location} (h : ws.renamedLocations uri text an site = .ok locations) :
    (∃ key index, ws.exportKey uri an site = .ok (some key) ∧ ws.index = .ok index
      ∧ locations = locationsOf ((index.occurrences key).filter (·.role ≠ .aliasUse)))
    ∨ (ws.exportKey uri an site = .ok none ∧ locations =
      (an.occurrencesOf site true).map fun id => ⟨uri, Editor.identRange text id⟩) := by
  unfold renamedLocations at h
  cases hkey : ws.exportKey uri an site with
  | error cause => simp [hkey, Except.mapError, bind, Except.bind] at h
  | ok key =>
    cases key with
    | none =>
      simp only [hkey, Except.mapError, bind, Except.bind, pure, Except.pure,
        Except.ok.injEq] at h
      exact .inr ⟨rfl, h.symm⟩
    | some key =>
      cases hindex : ws.index with
      | error cause =>
        simp [hkey, hindex, Except.mapError, bind, Except.bind] at h
      | ok index =>
        simp only [hkey, hindex, Except.mapError, bind, Except.bind, pure, Except.pure,
          Except.ok.injEq] at h
        exact .inl ⟨key, index, rfl, rfl, h.symm⟩

theorem rename_eq_some {uri : Uri} {text : String} {cursor : Editor.Cursor} {newName : String}
    {edits : List (Uri × List Edit)}
    (h : ws.rename uri text cursor newName = .ok (some edits)) : ∃ site locations,
      (Editor.positionOf? text cursor).bind (Analysis.ofText text).siteAt? = some site
      ∧ ws.renamedLocations uri text (.ofText text) site = .ok locations
      ∧ edits = editsAt newName locations := by
  simp only [rename, bind, Except.bind, pure, Except.pure, throw, throwThe,
    MonadExceptOf.throw] at h
  split_ifs at h
  cases hsite : (Editor.positionOf? text cursor).bind (Analysis.ofText text).siteAt? with
  | none => simp [hsite] at h
  | some site =>
    simp only [hsite] at h
    split_ifs at h
    cases hlocations : ws.renamedLocations uri text (.ofText text) site with
    | error cause => simp [hlocations] at h
    | ok locations =>
      refine ⟨site, locations, rfl, hlocations, ?_⟩
      simp only [hlocations] at h
      cases hedits : editsAt newName locations with
      | nil => simp [hedits] at h
      | cons first rest => simpa [hedits] using h.symm

end Workspace

/-! ## Names of a file -/

namespace Analysis

theorem firstAt_subset (seen : List Position) (ids : List Ident) : firstAt seen ids ⊆ ids := by
  induction ids generalizing seen with
  | nil => simp [firstAt]
  | cons id ids ih =>
    rw [firstAt]
    split
    · exact List.Subset.trans (ih seen) (List.subset_cons_self _ _)
    · exact List.cons_subset_cons _ (ih _)

theorem firstAt_not_seen {seen : List Position} {ids : List Ident} {id : Ident}
    (h : id ∈ firstAt seen ids) : id.pos ∉ seen := by
  induction ids generalizing seen with
  | nil => simp [firstAt] at h
  | cons first ids ih =>
    rw [firstAt] at h
    split at h
    next => exact ih h
    next hseen =>
      obtain rfl | h := List.mem_cons.1 h
      · exact fun hmem => hseen (List.contains_iff_mem.2 hmem)
      · exact fun hmem => ih h (List.mem_cons_of_mem _ hmem)

theorem firstAt_pairwise (seen : List Position) (ids : List Ident) :
    (firstAt seen ids).Pairwise fun a b => a.pos ≠ b.pos := by
  induction ids generalizing seen with
  | nil => exact .nil
  | cons id ids ih =>
    rw [firstAt]
    split
    · exact ih seen
    · refine .cons (fun b hb heq => ?_) (ih _)
      exact firstAt_not_seen hb (heq ▸ List.mem_cons_self)

/-- A site of a binding is its declaration or one of its uses. -/
theorem site_cases {site : Site} {i : Nat} (h : site.binding? = some i) :
    site = .declaration i ∨ ∃ id, site = .reference ⟨id, .binding i⟩ := by
  cases site with
  | declaration j =>
    obtain rfl := Option.some.inj h
    exact .inl rfl
  | reference r =>
    obtain ⟨id, resolution⟩ := r
    cases resolution with
    | binding j =>
      obtain rfl := Option.some.inj h
      exact .inr ⟨id, rfl⟩
    | builtin => cases h
    | moduleMember base spec text => cases h
    | unresolved => cases h

/-- The identifiers of a binding: its declaration and its uses. -/
theorem occurrencesOf_binding {an : Analysis} {site : Site} {i : Nat} {b : Binding}
    (hsite : site.binding? = some i) (hb : an.bindings[i]? = some b) :
    an.occurrencesOf site true =
      b.decl :: firstAt [b.decl.pos] ((an.referencesTo i).map (·.ident)) := by
  rcases site_cases hsite with rfl | ⟨id, rfl⟩ <;>
    simp [occurrencesOf, Site.binding?, Reference.binding?, hb]

theorem occurrencesOf_eq_nil {an : Analysis} {site : Site} {i : Nat} (hsite : site.binding? = some i)
    (hb : an.bindings[i]? = none) (withDeclaration : Bool) :
    an.occurrencesOf site withDeclaration = [] := by
  rcases site_cases hsite with rfl | ⟨id, rfl⟩ <;>
    simp [occurrencesOf, Site.binding?, Reference.binding?, hb]

theorem resolution_of_mem_referencesTo {an : Analysis} {i : Nat} {r : Reference}
    (h : r ∈ an.referencesTo i) : r ∈ an.references ∧ r.resolution = .binding i := by
  obtain ⟨hmem, hbinding⟩ := List.mem_filter.1 h
  refine ⟨Array.mem_toList_iff.1 hmem, ?_⟩
  obtain ⟨id, resolution⟩ := r
  cases resolution <;> simp_all [Reference.binding?]

/-- The identifiers of a binding of a text are spelled like it, and no two are at one place. -/
theorem occurrencesOf_spelled {text : String} {site : Site} {i : Nat} {b : Binding}
    (hsite : site.binding? = some i) (hb : (ofText text).bindings[i]? = some b) :
    (∀ id ∈ (ofText text).occurrencesOf site true,
      id ∈ (Program.parse text).program.idents ∧ id.name = b.name)
    ∧ ((ofText text).occurrencesOf site true).Pairwise fun a b => a.pos ≠ b.pos := by
  rw [occurrencesOf_binding hsite hb]
  refine ⟨fun id hid => ?_, .cons (fun id hid heq => ?_) (firstAt_pairwise _ _)⟩
  · obtain rfl | hid := List.mem_cons.1 hid
    · exact ⟨decl_mem hb, decl_name hb⟩
    · obtain ⟨r, hr, rfl⟩ := List.mem_map.1 (firstAt_subset _ _ hid)
      obtain ⟨hmem, hres⟩ := resolution_of_mem_referencesTo hr
      exact ⟨ident_mem hmem, name_of_binding hmem hres hb⟩
  · exact firstAt_not_seen hid (heq ▸ List.mem_singleton_self _)

end Analysis

/-! ## Whole edits -/

theorem wholeEdits_of_locations {text word newName : String} {locations : List Location}
    (hnames : ∀ l ∈ locations, ∃ id ∈ (Program.parse text).program.idents,
      id.name = word ∧ l.range = Editor.identRange text id)
    (hapart : locations.Pairwise fun l l' => l.range ≠ l'.range) :
    WholeEdits text word (locations.map (Workspace.editAt newName)) where
  covers := by
    intro e he
    obtain ⟨l, hl, rfl⟩ := List.mem_map.1 he
    obtain ⟨id, hid, rfl, hrange⟩ := hnames l hl
    obtain ⟨offset, hcovers⟩ := Editor.identRange_covers hid
    exact ⟨l.range, offset, rfl, hrange ▸ hcovers, id, hid, rfl, hrange⟩
  apart := by
    rw [List.pairwise_map]
    refine hapart.imp_of_mem fun {l l'} hl hl' hne range range' hrange hrange' => ?_
    obtain rfl := Option.some.inj hrange
    obtain rfl := Option.some.inj hrange'
    obtain ⟨id, hid, -, hid'⟩ := hnames l hl
    obtain ⟨other, hother, -, hother'⟩ := hnames l' hl'
    rw [hid', hother'] at hne ⊢
    exact Editor.identRange_apart hid hother fun heq => hne (heq ▸ rfl)

namespace Workspace

variable {ws : Workspace}

/-- The name that a renaming replaces: that of the export that a site stands for, or that of the
    binding. -/
def oldName (ws : Workspace) (uri : Uri) (an : Analysis) (site : Site) : String :=
  match ws.exportKey uri an site with
  | .ok (some key) => key.name
  | _ => ((site.binding?.bind (an.bindings[·]?)).map (·.name)).getD ""

/-- A site that is no export of another module names a binding, or has no places at all. -/
theorem binding_or_nil {uri : Uri} {an : Analysis} {site : Site}
    (h : ws.exportKey uri an site = .ok none) :
    (∃ i b, site.binding? = some i ∧ an.bindings[i]? = some b) ∨ an.occurrencesOf site true = [] := by
  have hbound {i : Nat} (hsite : site.binding? = some i) :
      (∃ i b, site.binding? = some i ∧ an.bindings[i]? = some b)
        ∨ an.occurrencesOf site true = [] := by
    cases hb : an.bindings[i]? with
    | none => exact .inr (Analysis.occurrencesOf_eq_nil hsite hb true)
    | some b => exact .inl ⟨i, b, hsite, hb⟩
  cases site with
  | declaration i => exact hbound rfl
  | reference r =>
    obtain ⟨id, resolution⟩ := r
    cases resolution with
    | binding i => exact hbound rfl
    | moduleMember base spec text =>
      rw [exportKey] at h
      cases hkey : ws.importedKey uri spec text <;> simp [hkey, Except.map] at h
    | builtin => exact .inr rfl
    | unresolved => exact .inr rfl

end Workspace

namespace SourceFile

variable {ws : Workspace} {file : SourceFile}

theorem Misnames.congr {key key' : SymbolKey} (h : file.Misnames ws key)
    (hkey : key.tidy = key'.tidy) : file.Misnames ws key' := by
  obtain ⟨b, hb, hkind, halias, hname, hfound⟩ := h
  rw [SymbolKey.name_of_tidy_eq hkey] at hname
  exact ⟨b, hb, hkind, halias, hname, hkey ▸ hfound⟩

/-- The place where a misnaming binding is declared names the symbol, and not as an alias. -/
theorem Misnames.names (hfile : file.analysis = .ofText file.text) {key : SymbolKey}
    (h : file.Misnames ws key) : ∃ id found, file.Names ws id found .reference
      ∧ found.tidy = key.tidy ∧ id.name ≠ key.name
      ∧ ∀ known role, file.Names ws id known role → role ≠ .aliasUse := by
  obtain ⟨b, hmem, hkind, halias, hname, hfound⟩ := h
  obtain ⟨found, hfound, htidy⟩ := Option.map_eq_some_iff.1 hfound
  obtain ⟨i, hb⟩ := Array.getElem?_of_mem hmem
  have hb' : (Analysis.ofText file.text).bindings[i]? = some b := hfile ▸ hb
  have hrecorded := Analysis.recorded file.text
  obtain hfunc | ⟨r, hr', hident⟩ := hrecorded.used i b hb'
  · rw [hkind] at hfunc
    cases hfunc
  have hres := hrecorded.declaration i b hb' r hr' (by rw [hident])
  have hr : r ∈ file.analysis.references := hfile ▸ hr'
  have hnames := Names.used hr hres hb hfound
  rw [halias, Bool.and_false, if_neg Bool.false_ne_true] at hnames
  refine ⟨r.ident, found, hnames, htidy, ?_, fun known role hrole heq => ?_⟩
  · rwa [hident, Analysis.decl_name hb']
  · generalize hid : r.ident = id at hrole
    cases hrole with
    | imported hmem' hkey => cases heq
    | declared hb'' hkind' hkey => cases heq
    | aliased hb'' hkind' halias' hkey =>
      rw [isAliased, ← hid, hident] at halias'
      rw [isAliased, halias'] at halias
      cases halias
    | @used r' j b'' known hr'' hres' hb'' hkey =>
      have hmem' : r' ∈ (Analysis.ofText file.text).references := hfile ▸ hr''
      obtain rfl : r' = r := hrecorded.use r' hmem' r hr' (by rw [hid])
      obtain rfl := Resolution.binding.inj (hres'.symm.trans hres)
      obtain rfl := Option.some.inj (hb''.symm.trans hb)
      simp [halias] at heq
    | member hr'' hres' hkey => cases heq

end SourceFile

namespace Workspace

variable {ws : Workspace}

/-- Two places of one document have different ranges. -/
theorem pairwise_range {locations : List Location} (h : locations.Nodup) (uri : Uri) :
    (locations.filter (·.uri = uri)).Pairwise fun l l' => l.range ≠ l'.range := by
  refine (h.sublist List.filter_sublist).imp_of_mem fun {l l'} hl hl' hne hrange => hne ?_
  obtain ⟨uri₁, range₁⟩ := l
  obtain ⟨uri₂, range₂⟩ := l'
  have h₁ : uri₁ = uri := by simpa using (List.mem_filter.1 hl).2
  have h₂ : uri₂ = uri := by simpa using (List.mem_filter.1 hl').2
  rw [h₁, h₂, show range₁ = range₂ from hrange]

/-- The edits of an export that no file misnames. -/
theorem wholeEdits_export {index : WorkspaceIndex} (hindex : ws.index = .ok index)
    (hcurrent : ∀ file, ws.Indexes file → ws.documentText? file.uri = some file.text)
    {key : SymbolKey} (hnone : ∀ file, ws.Indexes file → ¬file.Misnames ws key)
    {newName : String} {entry : Uri × List Edit} (hentry : entry ∈ editsAt newName
      (locationsOf ((index.occurrences key).filter (·.role ≠ .aliasUse)))) :
    ∃ text, ws.documentText? entry.1 = some text ∧ WholeEdits text key.name entry.2 := by
  have hgrouped := grouped_editsAt newName
    (locationsOf ((index.occurrences key).filter (·.role ≠ .aliasUse)))
  -- What stands at a place of the symbol.
  have hplace {l : Location}
      (hl : l ∈ locationsOf ((index.occurrences key).filter (·.role ≠ .aliasUse))) :
      ∃ text, ws.documentText? l.uri = some text ∧ ∃ id ∈ (Program.parse text).program.idents,
        id.name = key.name ∧ l.range = Editor.identRange text id := by
    obtain ⟨o, ho, rfl⟩ := mem_locationsOf.1 hl
    obtain ⟨ho, hrole⟩ := List.mem_filter.1 ho
    obtain ⟨file, found, id, hfile, hnames, htidy, hocc⟩ := mem_occurrences hindex ho
    have hspelled := hnames.spelled hfile.analysis (by simpa using hrole)
      fun hmis => hnone file hfile (hmis.congr htidy)
    refine ⟨file.text, ?_, id, hnames.ident_mem hfile.analysis,
      hspelled.trans (SymbolKey.name_of_tidy_eq htidy), ?_⟩
    · rw [hocc]
      exact hcurrent file hfile
    · rw [hocc]
      rfl
  obtain ⟨l, hl, huri⟩ := hgrouped.place entry hentry
  obtain ⟨text, htext, -⟩ := hplace hl
  refine ⟨text, huri ▸ htext, ?_⟩
  rw [hgrouped.content entry hentry]
  refine wholeEdits_of_locations (fun l' hl' => ?_)
    (pairwise_range (List.nodup_eraseDups _) entry.1)
  obtain ⟨hl', huri'⟩ := List.mem_filter.1 hl'
  obtain ⟨text', htext', hid⟩ := hplace hl'
  have hsame : text' = text := by
    have huri' : l'.uri = entry.1 := by simpa using huri'
    rw [huri', ← huri] at htext'
    exact Option.some.inj (htext'.symm.trans htext)
  exact hsame ▸ hid

/-- Where a file misnames an export, its other name is written over. -/
theorem not_wholeEdits_of_misnames {index : WorkspaceIndex} (hindex : ws.index = .ok index)
    (hcurrent : ∀ file, ws.Indexes file → ws.documentText? file.uri = some file.text)
    {key : SymbolKey} {file : SourceFile} (hfile : ws.Indexes file) (hmis : file.Misnames ws key)
    (newName : String) : ∃ entry ∈ editsAt newName
      (locationsOf ((index.occurrences key).filter (·.role ≠ .aliasUse))),
      ∀ text, ws.documentText? entry.1 = some text → ¬WholeEdits text key.name entry.2 := by
  obtain ⟨id, found, hnames, htidy, hname, hrole⟩ := hmis.names hfile.analysis
  obtain ⟨o, ho, hocc, known, hknown⟩ := exists_occurrence hindex hfile hnames htidy
  have hl : (⟨o.uri, o.range⟩ : Location) ∈
      locationsOf ((index.occurrences key).filter (·.role ≠ .aliasUse)) :=
    mem_locationsOf.2 ⟨o, List.mem_filter.2 ⟨ho, by simpa using hrole known _ hknown⟩, rfl⟩
  have hgrouped := grouped_editsAt newName
    (locationsOf ((index.occurrences key).filter (·.role ≠ .aliasUse)))
  obtain ⟨entry, hentry, huri⟩ := hgrouped.document _ hl
  refine ⟨entry, hentry, fun text htext hwhole => ?_⟩
  have huri' : entry.1 = file.uri := by
    rw [huri, hocc]
    rfl
  have hsame : text = file.text := by
    rw [huri'] at htext
    exact Option.some.inj (htext.symm.trans (hcurrent file hfile))
  have hedit : editAt newName ⟨o.uri, o.range⟩ ∈ entry.2 := by
    rw [hgrouped.content entry hentry]
    exact List.mem_map_of_mem (List.mem_filter.2 ⟨hl, by simpa using huri.symm⟩)
  obtain ⟨range, -, hrange, -, other, hother, hspelled, hother'⟩ := hwhole.covers _ hedit
  have hrange' : range = Editor.identRange file.text id := by
    rw [← Option.some.inj hrange, hocc]
    rfl
  subst hsame
  have hid : other = id := Editor.eq_of_identRange_eq hother (hnames.ident_mem hfile.analysis)
    (hother'.symm.trans hrange')
  exact hname (hid ▸ hspelled)

/-- The edits of a name of a file. -/
theorem wholeEdits_local {uri : Uri} {text : String} (hdoc : ws.documentText? uri = some text)
    {site : Site} (hkey : ws.exportKey uri (.ofText text) site = .ok none) {newName : String}
    {entry : Uri × List Edit} (hentry : entry ∈ editsAt newName
      (((Analysis.ofText text).occurrencesOf site true).map fun id =>
        ⟨uri, Editor.identRange text id⟩)) :
    ∃ text', ws.documentText? entry.1 = some text'
      ∧ WholeEdits text' (ws.oldName uri (.ofText text) site) entry.2 := by
  obtain ⟨i, b, hsite, hb⟩ | hnil := binding_or_nil hkey
  · have hold : ws.oldName uri (.ofText text) site = b.name := by
      simp [oldName, hkey, hsite, hb]
    obtain ⟨hspelled, hapart⟩ := Analysis.occurrencesOf_spelled hsite hb
    have hgrouped := grouped_editsAt newName
      (((Analysis.ofText text).occurrencesOf site true).map fun id =>
        (⟨uri, Editor.identRange text id⟩ : Location))
    have huri : entry.1 = uri := by
      obtain ⟨l, hl, heq⟩ := hgrouped.place entry hentry
      obtain ⟨id, -, rfl⟩ := List.mem_map.1 hl
      exact heq.symm
    refine ⟨text, huri ▸ hdoc, ?_⟩
    rw [hgrouped.content entry hentry, hold]
    refine wholeEdits_of_locations (fun l hl => ?_) (List.Pairwise.filter _ ?_)
    · obtain ⟨id, hid, rfl⟩ := List.mem_map.1 (List.mem_filter.1 hl).1
      obtain ⟨hmem, hname⟩ := hspelled id hid
      exact ⟨id, hmem, hname, rfl⟩
    · refine List.pairwise_map.2 (hapart.imp_of_mem fun {a b} ha hb' hne heq => hne ?_)
      rw [Editor.eq_of_identRange_eq (hspelled a ha).1 (hspelled b hb').1 heq]
  · rw [hnil] at hentry
    simp [editsAt] at hentry

/-- The edits of a renaming write over whole identifiers that are spelled with the old name, without
    overlap, unless a file has an imported binding of the symbol whose other name the list of
    aliases does not know. Every indexed file has to be the document at its identifier. -/
theorem rename_wholeEdits_iff {uri : Uri} {text : String} {cursor : Editor.Cursor}
    {newName : String} {edits : List (Uri × List Edit)} (hdoc : ws.documentText? uri = some text)
    (hcurrent : ∀ file, ws.Indexes file → ws.documentText? file.uri = some file.text)
    (h : ws.rename uri text cursor newName = .ok (some edits)) :
    ∃ site, (Editor.positionOf? text cursor).bind (Analysis.ofText text).siteAt? = some site
      ∧ ((∀ entry ∈ edits, ∃ current, ws.documentText? entry.1 = some current
          ∧ WholeEdits current (ws.oldName uri (.ofText text) site) entry.2)
        ↔ ∀ key file, ws.exportKey uri (.ofText text) site = .ok (some key) → ws.Indexes file →
          ¬file.Misnames ws key) := by
  obtain ⟨site, locations, hsite, hlocations, rfl⟩ := rename_eq_some h
  refine ⟨site, hsite, ?_⟩
  obtain ⟨key, index, hkey, hindex, rfl⟩ | ⟨hkey, rfl⟩ := renamedLocations_cases hlocations
  · have hold : ws.oldName uri (.ofText text) site = key.name := by simp [oldName, hkey]
    rw [hold]
    constructor
    · -- a misnamed binding gets an edit where its other name stands
      intro hwhole key' file hkey' hfile hmis
      obtain rfl : key = key' := by simpa [hkey] using hkey'
      obtain ⟨entry, hentry, hnot⟩ :=
        not_wholeEdits_of_misnames hindex hcurrent hfile hmis newName
      obtain ⟨current, htext, hedits⟩ := hwhole entry hentry
      exact hnot current htext hedits
    · intro hnone entry hentry
      exact wholeEdits_export hindex hcurrent (fun file => hnone key file hkey) hentry
  · constructor
    · intro _ key file hkey' _ _
      simp [hkey] at hkey'
    · intro _ entry hentry
      exact wholeEdits_local hdoc hkey hentry

theorem ok_of_toOption {ε α : Type} {e : Except ε α} {a : α} (h : e.toOption = some a) :
    e = .ok a := by
  cases e with
  | error cause => cases h
  | ok b => exact congrArg Except.ok (Option.some.inj h)

/-- Whether all files are the documents at their identifiers can be computed. -/
theorem forall_indexes {files : List Path} (hfiles : ws.files.toOption = some files)
    {P : SourceFile → Prop} [DecidablePred P]
    (h : (files.filterMap ws.sourceFile?).all (P ·) = true) (file : SourceFile)
    (hfile : ws.Indexes file) : P file := by
  obtain ⟨files', p, hfiles', hp, hsource⟩ := hfile
  obtain rfl := Except.ok.inj (hfiles'.symm.trans (ok_of_toOption hfiles))
  simpa using List.all_eq_true.1 h file (List.mem_filterMap.2 ⟨p, hp, hsource⟩)

theorem exists_indexes {files : List Path} (hfiles : ws.files.toOption = some files)
    {P : SourceFile → Prop} [DecidablePred P]
    (h : (files.filterMap ws.sourceFile?).any (P ·) = true) :
    ∃ file, ws.Indexes file ∧ P file := by
  obtain ⟨file, hmem, hP⟩ := List.any_eq_true.1 h
  obtain ⟨p, hp, hsource⟩ := List.mem_filterMap.1 hmem
  exact ⟨file, ⟨files, p, ok_of_toOption hfiles, hp, hsource⟩, by simpa using hP⟩

/-- A module on disk, and a document that imports its function under another name in the body of a
    function literal. -/
def aliasInLiteral : Workspace :=
  let disk := FileSystem.empty.write ["lib.wll"] "export func a() \x7b \x7d\n".toUTF8
  (ofRoot disk ⟨"/"⟩ {}).openDocument ⟨"file", some .empty, "/main.wll", ""⟩
    "f = func() \x7b from \"./lib\" import a as b; b() \x7d\n" 1

/-- The list of aliases does not know the alias in the literal, so it is written over. -/
theorem rename_writes_over_alias :
    let lib : Uri := ⟨"file", some .empty, "/lib.wll", ""⟩
    let edits : List (Uri × List Edit) :=
      [(lib, [⟨some ⟨⟨0, 12⟩, ⟨0, 13⟩⟩, "z"⟩]),
        (⟨"file", some .empty, "/main.wll", ""⟩,
          [⟨some ⟨⟨0, 38⟩, ⟨0, 39⟩⟩, "z"⟩, ⟨some ⟨⟨0, 41⟩, ⟨0, 42⟩⟩, "z"⟩])]
    aliasInLiteral.rename lib "export func a() \x7b \x7d\n" ⟨0, 12⟩ "z" = .ok (some edits)
      ∧ ¬∀ entry ∈ edits, ∃ current, aliasInLiteral.documentText? entry.1 = some current
        ∧ WholeEdits current "a" entry.2 := by
  intro lib edits
  have hrename : aliasInLiteral.rename lib "export func a() \x7b \x7d\n" ⟨0, 12⟩ "z"
      = .ok (some edits) :=
    ok_of_toOption (by decide +kernel)
  have hfiles : aliasInLiteral.files.toOption = some [⟨"/lib.wll"⟩, ⟨"/main.wll"⟩] := by
    decide +kernel
  have hcurrent : ∀ file, aliasInLiteral.Indexes file →
      aliasInLiteral.documentText? file.uri = some file.text :=
    forall_indexes hfiles (by decide +kernel)
  have hmis : ∃ file, aliasInLiteral.Indexes file
      ∧ file.Misnames aliasInLiteral (.exported ⟨"/lib.wll"⟩ "a") :=
    exists_indexes hfiles (by decide +kernel)
  obtain ⟨site, hsite, hiff⟩ := rename_wholeEdits_iff (by decide +kernel) hcurrent hrename
  have hdecl : (Editor.positionOf? "export func a() \x7b \x7d\n" ⟨0, 12⟩).bind
      (Analysis.ofText "export func a() \x7b \x7d\n").siteAt? = some (.declaration 0) := by
    decide +kernel
  obtain rfl := Option.some.inj (hsite.symm.trans hdecl)
  have hkey : aliasInLiteral.exportKey lib (.ofText "export func a() \x7b \x7d\n") (.declaration 0)
      = .ok (some (.exported ⟨"/lib.wll"⟩ "a")) :=
    ok_of_toOption (by decide +kernel)
  have hold : aliasInLiteral.oldName lib (.ofText "export func a() \x7b \x7d\n") (.declaration 0)
      = "a" := by
    rw [oldName, hkey]
    rfl
  rw [hold] at hiff
  obtain ⟨file, hfile, hmis⟩ := hmis
  exact ⟨hrename, fun hwhole => hiff.1 hwhole _ file hkey hfile hmis⟩

end Workspace

end Welle
