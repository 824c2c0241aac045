import Welle.Analysis
import Welle.Tree.Imports
import Welle.Workspace

set_option autoImplicit false

/-! # The symbols of a workspace

Every name in every file of a project belongs to a symbol. An exported function or variable is one
symbol wherever it is imported and under whatever name; any other binding is a symbol of its scope.
`Workspace.index` lists where each symbol is named. -/

namespace Welle

/-! ## Symbols -/

/-- What identifies a symbol: the file, the text of the scope and the name of a binding, or the
    module and the name of an export. -/
inductive SymbolKey where
  | inScope (file : Uri) (scope : Span) (name : String)
  | exported (modulePath : Path) (name : String)
deriving DecidableEq, Repr

/-- The symbol with the path of its module in tidy form. Keys with the same tidy form are one
    symbol. -/
def SymbolKey.tidy : SymbolKey → SymbolKey
  | exported p name => exported p.tidy name
  | key => key

/-- How a symbol is named at a place: where it is declared, where it is used, in an import list, or
    by another name that an import gives to it. -/
inductive Role where
  | declaration | reference | importName | aliasUse
deriving DecidableEq, Repr

/-- A place where a symbol is named. -/
structure Occurrence where
  uri : Uri
  range : Editor.Range
  role : Role
deriving DecidableEq, Repr

/-- A symbol and a place where it is named. -/
structure IndexEntry where
  key : SymbolKey
  occurrence : Occurrence
deriving DecidableEq, Repr

/-! ## One file -/

/-- A file while it is indexed: its URI, its path, its text and the analysis of the text. -/
structure SourceFile where
  uri : Uri
  path : Path
  text : String
  analysis : Analysis

namespace SourceFile

/-- The file at a path with the given text. -/
def ofText (uri : Uri) (path : Path) (text : String) : SourceFile := ⟨uri, path, text, .ofText text⟩

variable (file : SourceFile)

/-- The index of the module that a file is. -/
def exports : ModuleIndex := .ofProgram file.analysis.program

/-- The names that a file imports. -/
def importedNames : List ImportedName := file.analysis.program.importedNames

/-- The positions of the names that imports give to what they import. -/
def aliasPositions : List Position := file.importedNames.filterMap (·.item.asName.map (·.pos))

/-- Whether a binding has its name from an import that renames. -/
def isAliased (b : Binding) : Bool := file.aliasPositions.contains b.decl.pos

/-- The symbol of a binding in its scope. -/
def scopeKey (b : Binding) : SymbolKey :=
  let span := (file.analysis.scopes[b.scope]?.map (·.span)).getD (.single .start)
  .inScope file.uri span b.name

/-- The symbol of a binding that is not imported. -/
def ownKey (b : Binding) : SymbolKey :=
  if b.scope = rootScope && (b.kind = .func || b.kind = .var) && file.exports.isExported b.name then
    .exported file.path b.name
  else file.scopeKey b

/-- Where a name is written. -/
def occurrence (id : Ident) (role : Role) : Occurrence :=
  ⟨file.uri, Editor.identRange file.text id, role⟩

end SourceFile

namespace Workspace

variable (ws : Workspace) (file : SourceFile)

/-- The symbol of a member of the module that a file names by `spec`. -/
def memberKey? (spec member : String) : Option SymbolKey :=
  (ws.resolve file.path spec).toOption.map (.exported · member)

/-- The symbol of a binding. An imported one has none if its module does not resolve. -/
def bindingKey? (b : Binding) : Option SymbolKey :=
  if b.kind = .imported then do
    ws.memberKey? file (← b.modulePath) (← b.member)
  else some (file.ownKey b)

/-- The entries of the import lists of a file. -/
def importEntries : List IndexEntry :=
  file.importedNames.filterMap fun imported =>
    (ws.memberKey? file imported.spec imported.item.name.name).map fun key =>
      ⟨key, file.occurrence imported.item.name .importName⟩

/-- The entry of the place where a binding is declared. An imported name has one here only if it is
    given another name. -/
def bindingEntry? (b : Binding) : Option IndexEntry := do
  let key ← ws.bindingKey? file b
  if b.kind = .imported then
    guard (file.isAliased b)
    return ⟨key, file.occurrence b.decl .aliasUse⟩
  else return ⟨key, file.occurrence b.decl .declaration⟩

/-- The entry of a use of a name. -/
def referenceEntry? (r : Reference) : Option IndexEntry :=
  match r.resolution with
  | .moduleMember _ spec member =>
    (ws.memberKey? file spec member).map fun key => ⟨key, file.occurrence r.ident .reference⟩
  | .binding id => do
    let b ← file.analysis.bindings[id]?
    let key ← ws.bindingKey? file b
    let role := if b.kind = .imported && file.isAliased b then .aliasUse else .reference
    return ⟨key, file.occurrence r.ident role⟩
  | .builtin | .unresolved => none

/-- Adds an entry unless its symbol is already named at its place. -/
def addEntry (entries : List IndexEntry) (entry : IndexEntry) : List IndexEntry :=
  if entries.any fun e =>
      e.occurrence.range = entry.occurrence.range && e.key.tidy = entry.key.tidy then
    entries
  else entries ++ [entry]

/-- The entries of a file: its import lists, then its declarations, then its uses. -/
def fileEntries : List IndexEntry :=
  let bindings := file.analysis.bindings.toList.filterMap (ws.bindingEntry? file)
  let references := file.analysis.references.toList.filterMap (ws.referenceEntry? file)
  (ws.importEntries file ++ bindings ++ references).foldl addEntry []

end Workspace

/-! ## All files -/

/-- The symbols of a workspace: every place where one is named, in the order of the files. -/
structure WorkspaceIndex where
  entries : List IndexEntry

namespace WorkspaceIndex

/-- The places where a symbol is named. -/
def occurrences (index : WorkspaceIndex) (key : SymbolKey) : List Occurrence :=
  let tidy := key.tidy
  (index.entries.filter (·.key.tidy = tidy)).map (·.occurrence)

/-- Adds a key unless its symbol is there. -/
def addKey (keys : List (SymbolKey × SymbolKey)) (key : SymbolKey) : List (SymbolKey × SymbolKey) :=
  let tidy := key.tidy
  if keys.any (·.1 = tidy) then keys else keys ++ [(tidy, key)]

/-- The symbols, each one once, with the path of the module as it is first written. -/
def keys (index : WorkspaceIndex) : List SymbolKey :=
  ((index.entries.map (·.key)).foldl addKey []).map (·.2)

end WorkspaceIndex

namespace Workspace

/-- The file at a path, if it can be read. -/
def sourceFile? (ws : Workspace) (p : Path) : Option SourceFile := do
  let text ← (ws.readText p).toOption
  let uri ← Uri.ofPath? p
  return .ofText uri p text

/-- The symbols of a workspace. Files that cannot be read are left out. -/
def index (ws : Workspace) : Except RootError WorkspaceIndex := do
  let files ← ws.files
  return ⟨(files.filterMap ws.sourceFile?).flatMap ws.fileEntries⟩

end Workspace

end Welle
