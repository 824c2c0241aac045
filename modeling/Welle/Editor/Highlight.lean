import Welle.Analysis
import Welle.Editor.Range

set_option autoImplicit false

/-! # Highlighting

Every token of a file with the style in which an editor shows it. Names are classified by the
analysis, other tokens by their kind. Editors take the tokens relative to each other. -/

namespace Welle.Editor

/-- The styles of tokens. -/
inductive Style where
  | keyword | string | number | operator | function | value | parameter | moduleAlias
deriving DecidableEq, Repr

namespace Style

/-- The place of a style in the legend. -/
def index (style : Style) : Nat := style.ctorIdx

/-- The names of the styles in the editor protocol, in the order of their indices. -/
def legend : List String :=
  ["keyword", "string", "number", "operator", "function", "variable", "parameter", "namespace"]

/-- The modifiers of tokens. The first one marks the declaration of a name. -/
def modifiers : List String := ["declaration"]

/-- The style of a name. -/
def ofBinding : BindingKind → Style
  | .func | .builtin => function
  | .param => parameter
  | .moduleAlias => moduleAlias
  | .keyword => keyword
  | .var | .imported => value

/-- The style of a token by its kind, if it is highlighted. -/
def ofKind? (kind : Token.Kind) : Option Style :=
  if kind.isKeyword then some keyword
  else match kind with
    | .str | .template => some string
    | .int | .float => some number
    | .ident => some value
    | .assign | .walrus | .plus | .minus | .star | .slash | .percent | .bang | .bitOr | .bitAnd
    | .bitXor | .bitNot | .shl | .shr | .question | .nullish | .plusAssign | .minusAssign
    | .starAssign | .slashAssign | .percentAssign | .bitOrAssign | .eq | .ne | .lt | .le | .gt | .ge
    | .dot | .ellipsis => some operator
    | _ => none

end Style

/-! ## Names -/

/-- The style of a name and whether it is declared there. -/
structure NameStyle where
  style : Style
  declared : Bool

/-- The style of a use of a name. -/
def referenceStyle (an : Analysis) (r : Reference) : Style :=
  match r.resolution with
  | .binding id => (an.bindings[id]?.map fun b => .ofBinding b.kind).getD .value
  | .builtin => .function
  | .moduleMember .. | .unresolved => .value

/-- The styles of the names of a file by position. Where a name is declared, the declaration
    counts; of several uses at one place, the last one. -/
def nameStyles (an : Analysis) : List (Position × NameStyle) :=
  let declarations := an.bindings.toList.map fun b => (b.decl.pos, ⟨.ofBinding b.kind, true⟩)
  let uses := an.references.toList.map fun r => (r.ident.pos, ⟨referenceStyle an r, false⟩)
  declarations.reverse ++ uses.reverse

/-! ## Tokens -/

/-- A highlighted token of a file. -/
structure Highlight where
  start : Cursor
  length : Nat
  style : Style
  declared : Bool

/-- The length of a token's first line in UTF-16 units. -/
def highlightLength (token : Token) : Nat :=
  let lexeme := if token.lexeme.isEmpty then token.kind.describe else token.lexeme
  Text.unitLength (lexeme.toList.takeWhile (· ≠ '\n'))

/-- The highlighting of a token. -/
def Highlight.ofToken? (text : String) (names : List (Position × NameStyle)) (token : Token) :
    Option Highlight := do
  let style ← Style.ofKind? token.kind
  let name := if token.kind = .ident then names.lookup token.pos else none
  let length := highlightLength token
  guard (length ≠ 0)
  return {
    start := cursorOf text token.pos
    length
    style := (name.map (·.style)).getD style
    declared := (name.map (·.declared)).getD false }

/-- Whether a cursor stands before another one or at it. -/
def Cursor.notAfter (a b : Cursor) : Bool :=
  a.line < b.line || (a.line = b.line && a.character ≤ b.character)

/-- The highlighted tokens of a text, in order. -/
def highlights (text : String) : List Highlight :=
  let names := nameStyles (.ofText text)
  let found := (Token.tokenize text).filterMap (Highlight.ofToken? text names)
  found.mergeSort fun a b => a.start.notAfter b.start

/-! ## Relative tokens -/

/-- A highlighted token relative to the one before it. -/
structure RelativeToken where
  lines : Nat
  characters : Nat
  length : Nat
  style : Style
  declared : Bool

/-- The tokens relative to each other, the first one relative to `previous`. On a new line the
    column counts from the start of the line. -/
def relative (previous : Cursor) : List Highlight → List RelativeToken
  | [] => []
  | h :: rest =>
    let lines := h.start.line - previous.line
    let characters :=
      if lines = 0 then h.start.character - previous.character else h.start.character
    ⟨lines, characters, h.length, h.style, h.declared⟩ :: relative h.start rest

/-- The highlighted tokens of a text, relative to each other. -/
def semanticTokens (text : String) : List RelativeToken := relative ⟨0, 0⟩ (highlights text)

end Welle.Editor
