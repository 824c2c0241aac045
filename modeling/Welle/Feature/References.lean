import Welle.Feature.Target

set_option autoImplicit false

/-! # Finding references -/

namespace Welle.Workspace

variable (ws : Workspace) (uri : Uri)

/-- Where a symbol is named in the workspace, each place once. -/
def locationsOf (occurrences : List Occurrence) : List Location :=
  (occurrences.map fun o => ⟨o.uri, o.range⟩).eraseDups

/-- Every place that names what the name under a cursor stands for. An export is searched in the
    whole workspace; everything else, also an export of a module that does not resolve, in its
    document. -/
def references (text : String) (cursor : Editor.Cursor) (withDeclaration : Bool) :
    Except RootError (List Location) :=
  let an := Analysis.ofText text
  match (Editor.positionOf? text cursor).bind an.siteAt? with
  | none => .ok []
  | some site =>
    match ws.exportKey uri an site with
    | .ok (some key) => do
      let found := (← ws.index).occurrences key
      return locationsOf (found.filter fun o => withDeclaration || o.role ≠ .declaration)
    | _ =>
      .ok ((an.occurrencesOf site withDeclaration).map fun id =>
        ⟨uri, Editor.identRange text id⟩)

end Welle.Workspace
