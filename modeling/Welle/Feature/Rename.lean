import Welle.Builtin
import Welle.Feature.References

set_option autoImplicit false

/-! # Renaming

An export is renamed in the whole workspace: where it is declared, in import lists, and wherever it
is used by its own name. A name that an import gives to it stays. Everything else is renamed in its
document. -/

namespace Welle

/-- Why a name cannot be changed. -/
inductive RenameError where
  | toKeyword
  | toBuiltin
  | ofBuiltin
  | target (cause : TargetError)
  | files (cause : RootError)
deriving DecidableEq, Repr

/-- The wording of a rename error. -/
def RenameError.message : RenameError → String
  | toKeyword => "cannot rename to keyword"
  | toBuiltin => "cannot rename to builtin"
  | ofBuiltin => "cannot rename builtin"
  | target cause => cause.message
  | files cause => cause.message

namespace Workspace

/-- Adds an edit to those of its document. -/
def addEdit (edits : List (Uri × List Edit)) (uri : Uri) (edit : Edit) : List (Uri × List Edit) :=
  if edits.any (·.1 = uri) then
    edits.map fun entry => if entry.1 = uri then (uri, entry.2 ++ [edit]) else entry
  else edits ++ [(uri, [edit])]

/-- The edits by document that write `newName` at the given places. -/
def editsAt (newName : String) (locations : List Location) : List (Uri × List Edit) :=
  locations.foldl (fun edits l => addEdit edits l.uri ⟨some l.range, newName⟩) []

variable (ws : Workspace) (uri : Uri)

/-- The places that are written anew when what a site stands for is renamed. -/
def renamedLocations (text : String) (an : Analysis) (site : Site) :
    Except RenameError (List Location) := do
  match ← (ws.exportKey uri an site).mapError .target with
  | some key =>
    let found := (← ws.index.mapError .files).occurrences key
    return locationsOf (found.filter (·.role ≠ .aliasUse))
  | none =>
    return (an.occurrencesOf site true).map fun id => ⟨uri, Editor.identRange text id⟩

/-- Whether a site uses a builtin. -/
def usesBuiltin : Site → Bool
  | .reference ⟨_, .builtin⟩ => true
  | _ => false

/-- The edits by document that rename what the name under a cursor stands for, or `none` if there is
    nothing to rename. -/
def rename (text : String) (cursor : Editor.Cursor) (newName : String) :
    Except RenameError (Option (List (Uri × List Edit))) := do
  if Token.isReserved newName then throw .toKeyword
  if Builtin.isFunction newName then throw .toBuiltin
  let an := Analysis.ofText text
  match (Editor.positionOf? text cursor).bind an.siteAt? with
  | none => return none
  | some site =>
    if usesBuiltin site then throw .ofBuiltin
    match editsAt newName (← ws.renamedLocations uri text an site) with
    | [] => return none
    | edits => return some edits

end Workspace

end Welle
