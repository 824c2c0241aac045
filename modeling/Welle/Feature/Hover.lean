import Welle.Feature.Signature

set_option autoImplicit false

/-! # What an editor shows about a name -/

namespace Welle

/-- What is shown about a name: its kind, the name, its signature and a sentence about it. -/
structure HoverText where
  kind : String
  name : String
  signature : Option String
  doc : Option String
deriving DecidableEq, Repr

namespace HoverText

/-- The text: kind and name, the signature on the next line, and the sentence behind an empty line.
    -/
def render (hover : HoverText) : String :=
  Text.join "\n" ([hover.kind ++ ": " ++ hover.name]
    ++ hover.signature.toList
    ++ (match hover.doc with
      | some doc => ["", doc]
      | none => []))

/-- What is shown about a binding. A module with a name counts as imported. -/
def ofBinding (b : Binding) : HoverText :=
  let kind := if b.kind = .moduleAlias then BindingKind.imported else b.kind
  ⟨kind.label, b.name, b.signature?, none⟩

/-- What is shown about a builtin function. -/
def ofBuiltin (name : String) : HoverText :=
  let info := Builtin.function? name
  ⟨"builtin", name, info.map (·.signature), info.map (·.doc)⟩

/-- What is shown about a method. -/
def ofMethod (method : Builtin) : HoverText :=
  ⟨"method", method.name, some method.signature, some method.doc⟩

end HoverText

/-- What is shown about a name, and where the name stands. -/
structure Hover where
  text : HoverText
  range : Editor.Range
deriving DecidableEq, Repr

/-- Whether a token is a name that covers a position. -/
def Token.isNameAt (token : Token) (pos : Position) : Bool :=
  token.kind = .ident && token.pos.line = pos.line && token.pos.column ≤ pos.column
    && pos.column < token.pos.column + max token.literal.utf8ByteSize 1

/-- The name at a position if it is a member of a name: if a name and a dot stand before it. -/
def memberAt? (pos : Position) : List Token → Option Token
  | [] => none
  | token :: rest =>
    if token.isNameAt pos then none
    else match rest with
      | dot :: name :: _ =>
        if token.kind = .ident && dot.kind = .dot && name.isNameAt pos then some name
        else memberAt? pos rest
      | _ => memberAt? pos rest

namespace Workspace

variable (ws : Workspace) (uri : Uri)

/-- What is shown about a member of a module. -/
def memberHover (moduleAlias spec member : String) : HoverText :=
  let info := uri.path?.bind fun importer => (ws.moduleInfo importer spec).toOption
  let signature := (info.bind (·.export? member)).map (·.signature)
  ⟨"module member", member, some (signature.getD (moduleAlias ++ "." ++ member)), none⟩

/-- What is shown about a use of a name. -/
def referenceHover? (an : Analysis) (r : Reference) : Option HoverText :=
  match r.resolution with
  | .moduleMember moduleAlias spec member => some (ws.memberHover uri moduleAlias spec member)
  | .builtin => some (.ofBuiltin r.ident.name)
  | .binding id => an.bindings[id]?.map .ofBinding
  | .unresolved => none

/-- What is shown about the name under a cursor. A name that the analysis knows nothing about can
    still be that of a method. -/
def hover? (text : String) (cursor : Editor.Cursor) : Option Hover := do
  let pos ← Editor.positionOf? text cursor
  let an := Analysis.ofText text
  match an.siteAt? pos with
  | some (.reference r) =>
    return ⟨← ws.referenceHover? uri an r, Editor.identRange text r.ident⟩
  | some (.declaration id) =>
    let b ← an.bindings[id]?
    return ⟨.ofBinding b, Editor.identRange text b.decl⟩
  | none =>
    let name ← memberAt? pos (Token.withoutNewlines text)
    let method ← Builtin.method? name.literal
    return ⟨.ofMethod method, Editor.identRange text ⟨name.literal, name.pos⟩⟩

end Workspace

end Welle
