import Welle.Feature.Completion
import Welle.Feature.Hover
import Welle.Proofs.Definition
import Welle.Proofs.Introductions
import Welle.Proofs.WellFormed

set_option autoImplicit false

/-! # What a module offers

The exports of a module are found twice: its index takes them from all that the file introduces, and
its list of exports from the statements that are marked. In a program that is read from a text only
functions and assignments are marked, so both find the same names with the same declarations.

An editor asks the index where a member of a module is defined, and the list of exports what to show
about the member, what to offer behind an alias, and which parameters a call has. The answers are
about the same exports. A name that the module keeps to itself has a definition and nothing else. -/

namespace Welle

/-! ## Exports of a text -/

/-- The name of an export and where it is declared. -/
def ModuleExport.entry (e : ModuleExport) : String × Ident := (e.name, e.decl)

/-- Nothing that stands for itself is an export. -/
theorem Stmt.filterMap_export?_of_not_exported {s : Stmt} (h : s.isExport = false) :
    (s.introductions false).filterMap (·.export?) = [] := by
  cases s with
  | destructure pos targets op value =>
    rw [Stmt.introductions, List.filterMap_map]
    exact List.filterMap_eq_nil_iff.2 fun id _ => rfl
  | exported pos stmt => cases h
  | importAs pos path asName => cases asName <;> rfl
  | _ => rfl

theorem Stmt.filterMap_export? {s : Stmt} (h : s.wellFormed = true) :
    (s.introductions false).filterMap (·.export?)
      = (ModuleInfo.ofStmt? s).toList.map ModuleExport.entry := by
  cases s with
  | exported pos stmt =>
    rw [Stmt.wellFormed, Bool.and_eq_true] at h
    cases stmt with
    | func pos name params body => rfl
    | assign pos name op value =>
      rw [Stmt.introductions, Stmt.introductions, ModuleInfo.ofStmt?, ModuleInfo.ofExported?]
      cases value.funcParams? <;> rfl
    | _ => cases h.1
  | _ => exact filterMap_export?_of_not_exported rfl

/-- The index of a well-formed program has the exports that are found in its statements. -/
theorem Program.exports_eq {program : Program} (h : program.wellFormed = true) :
    (ModuleIndex.ofProgram program).exports
      = (ModuleInfo.exportsOf program).map ModuleExport.entry := by
  have hfound : program.introductions.filterMap (·.export?)
      = (program.stmts.filterMap ModuleInfo.ofStmt?).map ModuleExport.entry := by
    rw [wellFormed] at h
    rw [introductions]
    generalize program.stmts = stmts at h
    induction stmts with
    | nil => rfl
    | cons s stmts ih =>
      rw [Stmt.listWellFormed, Bool.and_eq_true] at h
      rw [List.flatMap_cons, List.filterMap_append, Stmt.filterMap_export? h.1, ih h.2]
      cases hs : ModuleInfo.ofStmt? s <;> simp [hs]
  have hfirsts : ModuleInfo.exportsOf program
      = firsts (·.name) (program.stmts.filterMap ModuleInfo.ofStmt?) := rfl
  rw [(ModuleIndex.collects_ofProgram program).exports, hfound, firsts_map, hfirsts]
  rfl

namespace ModuleInfo

theorem exports_perm (path text : String) :
    ((ofText path text).exports.map ModuleExport.entry).Perm (ModuleIndex.ofText text).exports := by
  rw [ModuleIndex.ofText, Program.exports_eq (Program.wellFormed_parse text)]
  exact (List.mergeSort_perm _ _).map _

theorem nodup_exports (text : String) : ((ModuleIndex.ofText text).exports.map (·.1)).Nodup := by
  rw [ModuleIndex.ofText, (ModuleIndex.collects_ofProgram _).exports]
  exact nodup_firsts _ _

/-- A module exports under a name what its index has there. -/
theorem map_decl_export? (path text name : String) :
    ((ofText path text).export? name).map (·.decl)
      = (ModuleIndex.ofText text).exports.lookup name := by
  have hperm := exports_perm path text
  cases hfound : (ofText path text).export? name with
  | some e =>
    have hmem : e.entry ∈ (ModuleIndex.ofText text).exports :=
      hperm.subset (List.mem_map_of_mem (List.mem_of_find?_eq_some hfound))
    have hname : e.name = name := by simpa using List.find?_some hfound
    rw [← hname]
    exact (Bracket.lookup_of_mem (nodup_exports text) hmem).symm
  | none =>
    cases hlookup : (ModuleIndex.ofText text).exports.lookup name with
    | none => rfl
    | some id =>
      obtain ⟨e, he, hentry⟩ := List.mem_map.1 (hperm.symm.subset (Walk.mem_of_lookup hlookup))
      have hname : e.name = name := (Prod.mk.inj hentry).1
      exact absurd hname (by simpa using List.find?_eq_none.1 hfound e he)

end ModuleInfo

/-- A definition of a file is bound in its scope. -/
theorem Analysis.exists_binding_of_defs {text : String} {entry : String × Ident}
    (h : entry ∈ (ModuleIndex.ofText text).defs) : ∃ i b,
      (ofText text).topLevel? entry.1 = some i ∧ (ofText text).bindings[i]? = some b
        ∧ b.name = entry.1 ∧ b.scope = rootScope := by
  obtain ⟨hname, hdeclared⟩ :=
    (ModuleIndex.lists_ofProgram (Program.parse text).program).defs entry h
  obtain ⟨i, b, htop, hb, hbname, hscope, -⟩ := exists_binding_of_declared hdeclared
  rw [hname] at htop hbname
  exact ⟨i, b, htop, hb, hbname, hscope⟩

/-! ## Members of a module -/

/-- A name that is visible at a position is the alias of the module that `spec` names. -/
def Analysis.HasAlias (an : Analysis) (pos : Position) (name spec : String) : Prop :=
  ∃ i b, an.resolveAt pos name = some i ∧ an.bindings[i]? = some b ∧ b.kind = .moduleAlias
    ∧ b.modulePath = some spec

/-- A call is one of a member of a module: by the alias of the module, or by an imported name. -/
inductive Callee.Imports (an : Analysis) : Callee → String → String → Prop where
  | member {object called : Token} {spec : String}
      (h : an.HasAlias object.pos object.literal spec) :
      Imports an (.member object called) spec called.literal
  | name {called : Token} {i : Nat} {b : Binding} {spec text : String}
      (hi : an.resolveAt called.pos called.literal = some i) (hb : an.bindings[i]? = some b)
      (hkind : b.kind = .imported) (hspec : b.modulePath = some spec)
      (hmember : b.member = some text) : Imports an (.name called) spec text

namespace Workspace

/-- The document at `uri` names by `spec` the module at `p`, and `text` is read for it. -/
structure NamesModule (ws : Workspace) (uri : Uri) (spec : String) (p : Path) (text : String) :
    Prop where
  resolves : ∃ importer, uri.path? = some importer ∧ ws.resolve importer spec = .ok p
  reads : ws.readText p = .ok text

variable {ws : Workspace} {uri : Uri} {spec text : String} {p : Path}

theorem NamesModule.moduleInfo (h : ws.NamesModule uri spec p text) : ∃ importer,
    uri.path? = some importer ∧ ws.moduleInfo importer spec = .ok (.ofText p.text text) := by
  obtain ⟨importer, himporter, hresolve⟩ := h.resolves
  refine ⟨importer, himporter, ?_⟩
  unfold Workspace.moduleInfo
  rw [hresolve]
  show (ws.readText p).mapError ModuleError.unreadable >>= _ = _
  rw [h.reads]
  rfl

theorem NamesModule.memberDefinition? (h : ws.NamesModule uri spec p text)
    (hstore : ws.store.Consistent) (member : String) : ws.memberDefinition? uri spec member
      = (((ModuleIndex.ofText text).exports.lookup member).or
          ((ModuleIndex.ofText text).defs.lookup member)).bind fun id =>
        (Uri.ofPath? p).map fun target => ⟨target, Editor.identRange text id⟩ := by
  obtain ⟨importer, himporter, hresolve⟩ := h.resolves
  have hindex : (ws.moduleIndex p).toOption = some (ModuleIndex.ofText text) := by
    rw [moduleIndex_eq hstore, h.reads]
    rfl
  have hread : (ws.readText p).toOption = some text := by
    rw [h.reads]
    rfl
  have hfound : (ws.resolve importer spec).toOption = some p := by
    rw [hresolve]
    rfl
  simp only [Workspace.memberDefinition?, himporter, hfound, hindex, hread, Option.bind_eq_bind,
    Option.bind_some]
  cases (ModuleIndex.ofText text).exports.lookup member with
  | some id => cases Uri.ofPath? p <;> rfl
  | none =>
    cases (ModuleIndex.ofText text).defs.lookup member with
    | some id => cases Uri.ofPath? p <;> rfl
    | none => rfl

theorem NamesModule.memberHover (h : ws.NamesModule uri spec p text) (base member : String) :
    ws.memberHover uri base spec member = ⟨"module member", member,
      some ((((ModuleInfo.ofText p.text text).export? member).map (·.signature)).getD
        (base ++ "." ++ member)), none⟩ := by
  obtain ⟨importer, himporter, hinfo⟩ := h.moduleInfo
  rw [Workspace.memberHover, himporter, Option.bind_some, hinfo]
  rfl

theorem NamesModule.memberSignature? (h : ws.NamesModule uri spec p text) (member : String) :
    ws.memberSignature? uri spec member
      = ((ModuleInfo.ofText p.text text).export? member).map fun e =>
        ⟨e.signature, e.params, none⟩ := by
  obtain ⟨importer, himporter, hinfo⟩ := h.moduleInfo
  unfold Workspace.memberSignature?
  rw [himporter]
  show (ws.moduleInfo importer spec).toOption >>= _ = _
  rw [hinfo]
  show ((ModuleInfo.ofText p.text text).export? member).bind _ = _
  cases (ModuleInfo.ofText p.text text).export? member <;> rfl

/-! ## Answers of an editor -/

/-- What an editor answers in the document at `uri` about the members of the module that it names by
    `spec`, where the module is at `p` and has the given text. The answers go by its exports. -/
structure AnswersByExports (ws : Workspace) (uri : Uri) (spec : String) (p : Path) (text : String) :
    Prop where
  /-- A member is defined where the module exports it, or else where the module keeps it. -/
  definition : ∀ doc cursor pos site member, Editor.positionOf? doc cursor = some pos →
    (Analysis.ofText doc).siteAt? pos = some site → site.Imports (.ofText doc) spec member →
    ws.definition? uri doc cursor
      = (((ModuleIndex.ofText text).exports.lookup member).or
          ((ModuleIndex.ofText text).defs.lookup member)).bind fun id =>
        (Uri.ofPath? p).map fun target => ⟨target, Editor.identRange text id⟩
  /-- A member that is exported is shown with its signature, and any other as it is written. -/
  hover : ∀ doc cursor pos id base member, Editor.positionOf? doc cursor = some pos →
    (Analysis.ofText doc).siteAt? pos = some (.reference ⟨id, .moduleMember base spec member⟩) →
    ws.hover? uri doc cursor = some ⟨⟨"module member", member,
      some ((((ModuleInfo.ofText p.text text).export? member).map (·.signature)).getD
        (base ++ "." ++ member)), none⟩, Editor.identRange doc id⟩
  /-- Behind an alias the exports are offered that start with what is typed, and nothing else. -/
  completion : ∀ doc cursor pos base typed, Editor.positionOf? doc cursor = some pos →
    TypingContext.atPosition doc pos = .member base typed →
    (Analysis.ofText doc).HasAlias pos base spec →
    ∀ c, c ∈ ws.completion uri doc cursor ↔ ∃ e ∈ (ModuleInfo.ofText p.text text).exports,
      extendsTyped typed e.name = true ∧ c = .ofExport e
  /-- A call of a member has a signature if the member is exported, and has that of the export. -/
  signature : ∀ doc cursor pos call member, Editor.positionOf? doc cursor = some pos →
    innermost? ((callSites [] [] (Token.withoutNewlines doc)).filter (·.contains pos)) = some call →
    call.callee.Imports (.ofText doc) spec member →
    ws.signatureHelp? uri doc cursor
      = ((ModuleInfo.ofText p.text text).export? member).map fun e =>
        ⟨⟨e.signature, e.params, none⟩,
          activeParameter (Token.withoutNewlines doc) call.opening pos⟩

theorem definition?_of_imports {doc : String} {cursor : Editor.Cursor} {pos : Position}
    {site : Site} {member : String} (hpos : Editor.positionOf? doc cursor = some pos)
    (hsite : (Analysis.ofText doc).siteAt? pos = some site)
    (himports : site.Imports (.ofText doc) spec member) :
    ws.definition? uri doc cursor = ws.memberDefinition? uri spec member := by
  simp only [definition?, hpos, hsite, Option.bind_eq_bind, Option.bind_some]
  cases himports with
  | member => rfl
  | imported hbinding hb hkind hspec hmember =>
    -- a site with a binding is not a member by its alias, which is a case of its own
    split
    next => cases hbinding
    next => simp [hbinding, hb, hkind, hspec, hmember]

theorem calleeSignature?_of_imports {an : Analysis} {callee : Callee} {member : String}
    (h : callee.Imports an spec member) :
    ws.calleeSignature? uri an callee = ws.memberSignature? uri spec member := by
  cases h with
  | member halias =>
    obtain ⟨i, b, hi, hb, hkind, hspec⟩ := halias
    simp [calleeSignature?, hi, hb, Option.filter, hkind, hspec]
  | name hi hb hkind hspec hmember =>
    simp [calleeSignature?, hi, hb, hkind, hspec, hmember]

theorem NamesModule.mem_memberCandidates (h : ws.NamesModule uri spec p text) {an : Analysis}
    {pos : Position} {base : String} (halias : an.HasAlias pos base spec) (typed : String)
    (c : Candidate) : c ∈ ws.memberCandidates uri an pos base typed
      ↔ ∃ e ∈ (ModuleInfo.ofText p.text text).exports,
        extendsTyped typed e.name = true ∧ c = .ofExport e := by
  obtain ⟨i, b, hi, hb, hkind, hspec⟩ := halias
  obtain ⟨importer, himporter, hinfo⟩ := h.moduleInfo
  have hexports : ws.memberCandidates uri an pos base typed = Candidate.sorted
      (((ModuleInfo.ofText p.text text).exports.filter
        fun e => extendsTyped typed e.name).map Candidate.ofExport) := by
    simp [memberCandidates, hi, hb, hkind, hspec, himporter, hinfo, Except.toOption]
  rw [hexports, Candidate.sorted, List.mem_mergeSort, List.mem_map]
  constructor
  · rintro ⟨e, he, rfl⟩
    obtain ⟨he, htyped⟩ := List.mem_filter.1 he
    exact ⟨e, he, htyped, rfl⟩
  · rintro ⟨e, he, htyped, rfl⟩
    exact ⟨e, List.mem_filter.2 ⟨he, htyped⟩, rfl⟩

theorem NamesModule.answers (h : ws.NamesModule uri spec p text) (hstore : ws.store.Consistent) :
    ws.AnswersByExports uri spec p text where
  definition doc cursor pos site member hpos hsite himports := by
    rw [definition?_of_imports hpos hsite himports, h.memberDefinition? hstore]
  hover doc cursor pos id base member hpos hsite := by
    simp only [hover?, hpos, hsite, Option.bind_eq_bind, Option.bind_some, referenceHover?,
      h.memberHover]
    rfl
  completion doc cursor pos base typed hpos htyping halias c := by
    simp only [Workspace.completion, hpos, htyping]
    exact h.mem_memberCandidates halias typed c
  signature doc cursor pos call member hpos hcall himports := by
    simp only [signatureHelp?, hpos, hcall, Option.bind_eq_bind, Option.bind_some,
      calleeSignature?_of_imports himports, h.memberSignature?]
    cases (ModuleInfo.ofText p.text text).export? member <;> rfl

/-- For every text, the list of exports of a module and its index have the same names with the same
    declarations, each once, and what the index defines is bound in the scope of the file. Whatever
    documents were opened, changed and closed before, the answers of an editor about the members of
    a module go by these exports. -/
theorem exports_agree (p : Path) (text : String) :
    ((ModuleInfo.ofText p.text text).exports.map ModuleExport.entry).Perm
      (ModuleIndex.ofText text).exports
    ∧ ((ModuleIndex.ofText text).exports.map (·.1)).Nodup
    ∧ (∀ name, ((ModuleInfo.ofText p.text text).export? name).map (·.decl)
        = (ModuleIndex.ofText text).exports.lookup name)
    ∧ (∀ entry ∈ (ModuleIndex.ofText text).defs, ∃ i b,
        (Analysis.ofText text).topLevel? entry.1 = some i
          ∧ (Analysis.ofText text).bindings[i]? = some b
          ∧ b.name = entry.1 ∧ b.scope = rootScope)
    ∧ ∀ (ws : Workspace) (ops : List Store.Operation) (uri : Uri) (spec : String),
      ws.store = Store.run ops → ws.NamesModule uri spec p text →
      ws.AnswersByExports uri spec p text := by
  refine ⟨ModuleInfo.exports_perm p.text text, ModuleInfo.nodup_exports text,
    ModuleInfo.map_decl_export? p.text text, fun entry hentry => ?_, ?_⟩
  · exact Analysis.exists_binding_of_defs hentry
  · intro ws ops uri spec hstore hmodule
    exact hmodule.answers (hstore ▸ Store.consistent_run ops)

/-- A module that exports one name twice and keeps another one. -/
def sharedText : String := "a = 1\nexport func a(x) \x7b \x7d\nexport a = 2\nb = 3\n"

/-- A document that uses both names of the module. -/
def sharingText : String := "import \"./lib\" as m\nm.a(1)\nm.b\n"

/-- The module on disk and the document that is open. -/
def sharing : Workspace :=
  let disk := FileSystem.empty.write ["lib.wll"] sharedText.toUTF8
  (ofRoot disk ⟨"/"⟩ {}).openDocument ⟨"file", some .empty, "/main.wll", ""⟩ sharingText 1

/-- Of the two exports the function counts. The name that is kept is found, and shown as it is
    written. -/
theorem exports_agree_sharing :
    let main : Uri := ⟨"file", some .empty, "/main.wll", ""⟩
    let lib : Uri := ⟨"file", some .empty, "/lib.wll", ""⟩
    sharing.AnswersByExports main "./lib" ⟨"/lib.wll"⟩ sharedText
      ∧ sharing.definition? main sharingText ⟨1, 2⟩ = some ⟨lib, ⟨⟨1, 12⟩, ⟨1, 13⟩⟩⟩
      ∧ sharing.definition? main sharingText ⟨2, 2⟩ = some ⟨lib, ⟨⟨3, 0⟩, ⟨3, 1⟩⟩⟩
      ∧ sharing.hover? main sharingText ⟨2, 2⟩
        = some ⟨⟨"module member", "b", some "m.b", none⟩, ⟨⟨2, 2⟩, ⟨2, 3⟩⟩⟩ := by
  intro main lib
  have hstore : sharing.store = Store.run [.opens main sharingText 1] := rfl
  have hmodule : sharing.NamesModule main "./lib" ⟨"/lib.wll"⟩ sharedText :=
    ⟨⟨⟨"/main.wll"⟩, by decide +kernel, by decide +kernel⟩, by decide +kernel⟩
  obtain ⟨-, -, -, -, hanswers⟩ := exports_agree ⟨"/lib.wll"⟩ sharedText
  have hanswers := hanswers sharing [.opens main sharingText 1] main "./lib" hstore hmodule
  have hpos : Editor.positionOf? sharingText ⟨2, 2⟩ = some ⟨3, 3⟩ := by decide +kernel
  have hsite : (Analysis.ofText sharingText).siteAt? ⟨3, 3⟩
      = some (.reference ⟨⟨"b", ⟨3, 3⟩⟩, .moduleMember "m" "./lib" "b"⟩) := by
    decide +kernel
  refine ⟨hanswers, ?_, ?_, ?_⟩
  · rw [hanswers.definition sharingText ⟨1, 2⟩ ⟨2, 3⟩
      (.reference ⟨⟨"a", ⟨2, 3⟩⟩, .moduleMember "m" "./lib" "a"⟩) "a" (by decide +kernel)
      (by decide +kernel) .member]
    decide +kernel
  · rw [hanswers.definition sharingText ⟨2, 2⟩ ⟨3, 3⟩ _ "b" hpos hsite .member]
    decide +kernel
  · rw [hanswers.hover sharingText ⟨2, 2⟩ ⟨3, 3⟩ ⟨"b", ⟨3, 3⟩⟩ "m" "b" hpos hsite]
    decide +kernel

end Workspace

end Welle
