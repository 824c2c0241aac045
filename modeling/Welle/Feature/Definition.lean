import Welle.Feature.Target

set_option autoImplicit false

/-! # Going to a definition -/

namespace Welle.Workspace

variable (ws : Workspace) (uri : Uri)

/-- Where a member of the module that the document at `uri` names by `spec` is declared: its export,
    or else any declaration at the top level of the module. -/
def memberDefinition? (spec member : String) : Option Location := do
  let importer ← uri.path?
  let p ← (ws.resolve importer spec).toOption
  let index ← (ws.moduleIndex p).toOption
  let id ← match index.exports.lookup member with
    | some id => some id
    | none => index.defs.lookup member
  let text ← (ws.readText p).toOption
  return ⟨← Uri.ofPath? p, Editor.identRange text id⟩

/-- Where the name under a cursor is declared. Imported names and members of modules are declared in
    the module. -/
def definition? (text : String) (cursor : Editor.Cursor) : Option Location := do
  let pos ← Editor.positionOf? text cursor
  let an := Analysis.ofText text
  match ← an.siteAt? pos with
  | .reference ⟨_, .moduleMember _ spec member⟩ => ws.memberDefinition? uri spec member
  | site =>
    let b ← an.bindings[← site.binding?]?
    if b.kind = .imported then ws.memberDefinition? uri (← b.modulePath) (← b.member)
    else return ⟨uri, Editor.identRange text b.decl⟩

end Welle.Workspace
