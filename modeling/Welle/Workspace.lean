import Welle.Document.Store
import Welle.Manifest
import Welle.Module.Exports
import Welle.Module.Resolver
import Welle.Settings

set_option autoImplicit false

/-! # Workspaces

A project as an editor sees it: the files on disk under a root, and over them the documents that are
open. Where modules are looked up follows from the manifest of the project and the settings. -/

namespace Welle

/-! ## Errors -/

/-- A file that cannot be read. -/
structure ReadError where
  path : Path
deriving DecidableEq, Repr

/-- The wording of a read error. -/
def ReadError.message (e : ReadError) : String := s!"failed to read {e.path}"

/-- Why the exports of a module cannot be had. -/
inductive ModuleError where
  | unresolved (cause : ImportError)
  | unreadable (cause : ReadError)
deriving DecidableEq, Repr

/-- The wording of a module error. -/
def ModuleError.message : ModuleError → String
  | unresolved cause => cause.message
  | unreadable cause => cause.message

/-- A workspace whose root is no directory. -/
structure RootError where
  root : Path
deriving DecidableEq, Repr

/-- The wording of a root error. -/
def RootError.message (e : RootError) : String :=
  s!"workspace root is not a directory: {e.root}"

/-! ## Workspaces -/

/-- A project: its root, what its manifest and its settings say, the open documents, and the disk.
    -/
structure Workspace where
  root : Path
  manifest : Option Manifest
  resolver : Resolver
  settings : Settings
  store : Store
  disk : FileSystem

namespace Workspace

/-- The workspace at a root without open documents. Settings go before what the manifest says. -/
def ofRoot (disk : FileSystem) (root : Path) (settings : Settings) : Workspace :=
  let root := root.normalize
  let found := Manifest.find? disk root
  let places := match found with
    | some (dir, manifest) => manifest.places dir
    | none => Manifest.empty.places root
  let stdRoot := (settings.stdRoot.map root.join).getD places.stdRoot
  let modulePaths :=
    if settings.modulePaths.isEmpty then places.modulePaths
    else settings.modulePaths.map root.join
  { root
    manifest := found.map (·.2)
    resolver := .ofPaths stdRoot modulePaths
    settings
    store := .empty
    disk }

variable (ws : Workspace)

/-- The root of the standard library. -/
def stdRoot : Path := ws.resolver.stdRoot

/-- The file of the module that `importer` names by `spec`. -/
def resolve (importer : Path) (spec : String) : Except ImportError Path :=
  ws.resolver.resolve ws.disk importer spec

/-! ## Texts -/

/-- The text at a path: that of an open document, or else that on disk. -/
def readText (p : Path) : Except ReadError String :=
  match ws.store.textAt? p with
  | some text => .ok text
  | none =>
    match ws.disk.readText? p with
    | some text => .ok text
    | none => .error ⟨p⟩

/-- The text of a document: the open one, or else that of its file. -/
def documentText? (uri : Uri) : Option String :=
  match ws.store.text? uri with
  | some text => some text
  | none => uri.path?.bind fun p => (ws.readText p).toOption

/-! ## Modules -/

/-- The index of the module at a path. -/
def moduleIndex (p : Path) : Except ReadError ModuleIndex :=
  match ws.store.indexAt? p with
  | some index => .ok index
  | none => (ws.readText p).map .ofText

/-- The exports of the module that `importer` names by `spec`. -/
def moduleInfo (importer : Path) (spec : String) : Except ModuleError ModuleInfo := do
  let p ← (ws.resolve importer spec).mapError .unresolved
  let text ← (ws.readText p).mapError .unreadable
  return .ofText p.text text

/-! ## Files -/

/-- Whether a file name is that of a source file. -/
def isSource (name : Bytes) : Bool := (Path.splitName name).2 = some (.ofText sourceExtension)

/-- The names of the modules directly in the root of the standard library, in order. -/
def stdModules : List String :=
  let names := (ws.disk.filesIn ws.stdRoot).filter isSource
  (names.map fun name => (Path.splitName name).1.text).mergeSort fun a b => !(b < a)

/-- Whether the source files in a directory below the root belong to the project. Those of hidden
    directories and of the standard library do not. -/
def enters (dir : Path) : Bool :=
  let hidden := dir.fileName?.any fun name => name.head? = some Path.dot
  !hidden && !dir.startsWith ws.stdRoot

/-- The source files under the root, without those of directories that do not belong to the
    project. -/
def filesOnDisk : List Path :=
  (ws.disk.filesUnder ws.enters ws.root).filter fun p => p.fileName?.any isSource

/-- The source files of the project: those on disk in the order of their names, then the open
    documents that are not among them. -/
def files : Except RootError (List Path) :=
  if ws.disk.isDirectory ws.root then
    let onDisk := ws.filesOnDisk
    let others := (Path.sorted ws.store.openPaths).filter fun p => !onDisk.any (·.same p)
    .ok (onDisk ++ others)
  else .error ⟨ws.root⟩

/-! ## Changes -/

/-- The workspace with other open documents. -/
def withStore (store : Store) : Workspace := { ws with store }

/-- Opens a document. -/
def openDocument (uri : Uri) (text : String) (version : Int) : Workspace :=
  ws.withStore (ws.store.openDocument uri text version)

/-- Edits an open document. -/
def change (uri : Uri) (edits : List Edit) (version : Int) : Workspace :=
  ws.withStore (ws.store.change uri edits version)

/-- Closes a document. -/
def close (uri : Uri) : Workspace := ws.withStore (ws.store.close uri)

end Workspace

end Welle
