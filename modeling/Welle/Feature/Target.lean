import Welle.Workspace.Index

set_option autoImplicit false

/-! # The symbol under a cursor

What references and renaming start from: the export that the name under a cursor stands for, if it
stands for one, and the names in the same file that stand for the same thing. -/

namespace Welle

/-- A place in a document. -/
structure Location where
  uri : Uri
  range : Editor.Range
deriving DecidableEq, Repr

/-- Why the export under a cursor cannot be told. -/
inductive TargetError where
  | noFilePath
  | unresolved (cause : ImportError)
  | noMember
  | noModulePath
deriving DecidableEq, Repr

/-- The wording of a target error. -/
def TargetError.message : TargetError → String
  | noFilePath => "cannot resolve module import without a file path"
  | unresolved cause => s!"cannot resolve module import: {cause.message}"
  | noMember => "cannot resolve import member for rename"
  | noModulePath => "cannot resolve module path for rename"

namespace Workspace

variable (ws : Workspace) (uri : Uri) (an : Analysis)

/-- The symbol of a member of the module that the document at `uri` names by `spec`. -/
def importedKey (spec member : String) : Except TargetError SymbolKey :=
  match uri.path? with
  | none => .error .noFilePath
  | some p =>
    match ws.resolve p.normalize spec with
    | .ok found => .ok (.exported found member)
    | .error cause => .error (.unresolved cause)

/-- The export that a binding stands for, if it stands for one. -/
def exportKeyOfBinding (b : Binding) : Except TargetError (Option SymbolKey) :=
  match b.kind with
  | .imported =>
    match b.modulePath, b.member with
    | some spec, some member => (ws.importedKey uri spec member).map some
    | _, _ => .error .noMember
  | .func | .var =>
    if b.scope = rootScope && (ModuleIndex.ofProgram an.program).isExported b.name then
      match uri.path? with
      | some p => .ok (some (.exported p.normalize b.name))
      | none => .error .noModulePath
    else .ok none
  | _ => .ok none

/-- The export that a name stands for, if it stands for one. -/
def exportKey (site : Site) : Except TargetError (Option SymbolKey) :=
  match site with
  | .reference ⟨_, .moduleMember _ spec member⟩ => (ws.importedKey uri spec member).map some
  | site =>
    match site.binding?.bind fun id => an.bindings[id]? with
    | some b => ws.exportKeyOfBinding uri an b
    | none => .ok none

end Workspace

namespace Analysis

/-- The identifiers at places that are not among `seen`, each place once. -/
def firstAt (seen : List Position) : List Ident → List Ident
  | [] => []
  | id :: rest =>
    if seen.contains id.pos then firstAt seen rest else id :: firstAt (id.pos :: seen) rest

/-- Whether a use names the given member through the given alias of a module. -/
def namesMember (moduleAlias member : String) (r : Reference) : Bool :=
  match r.resolution with
  | .moduleMember a _ m => a = moduleAlias && m = member
  | _ => false

/-- The identifiers of a file that stand for the same thing as a site, each place once. The place
    where it is declared comes first, or is left out. -/
def occurrencesOf (an : Analysis) (site : Site) (withDeclaration : Bool) : List Ident :=
  match site with
  | .reference ⟨_, .moduleMember moduleAlias _ member⟩ =>
    firstAt [] ((an.references.toList.filter (namesMember moduleAlias member)).map (·.ident))
  | site =>
    match site.binding? with
    | none => []
    | some id =>
      match an.bindings[id]? with
      | none => []
      | some b =>
        let uses := firstAt [b.decl.pos] ((an.referencesTo id).map (·.ident))
        if withDeclaration then b.decl :: uses else uses

end Analysis

end Welle
