import Welle.Feature.Signature

set_option autoImplicit false

/-! # Completion

What an editor offers at a cursor. Behind the alias of a module these are its exports; inside a
string, where a module may be named, the modules of the standard library; elsewhere the visible
names, the builtins, the reserved words and the modules of the standard library. -/

namespace Welle

/-- A name that is offered. -/
structure Candidate where
  name : String
  kind : BindingKind
  detail : Option String
deriving DecidableEq, Repr

namespace Candidate

/-- The number of a kind of name in the editor protocol. -/
def kindNumber : BindingKind → Nat
  | .func | .builtin => 3
  | .var | .param | .imported => 6
  | .moduleAlias => 9
  | .keyword => 14

/-- The place of a kind of name among those that are offered. -/
def weight : BindingKind → Nat
  | .var | .func => 0
  | .param => 1
  | .moduleAlias | .imported => 2
  | .builtin => 3
  | .keyword => 4

/-- Whether a candidate stands before another one or at the same place. -/
def notAfter (a b : Candidate) : Bool :=
  weight a.kind < weight b.kind || (weight a.kind = weight b.kind && !(b.name < a.name))

/-- The candidates by kind and name. -/
def sorted (candidates : List Candidate) : List Candidate := candidates.mergeSort notAfter

/-- Adds a candidate unless there is one of its name. -/
def addNew (candidates : List Candidate) (c : Candidate) : List Candidate :=
  if candidates.any (·.name = c.name) then candidates else candidates ++ [c]

/-- The candidate for a binding. -/
def ofBinding (b : Binding) : Candidate :=
  ⟨b.name, b.kind, match b.signature? with
    | some signature => some signature
    | none => b.modulePath⟩

/-- The candidate for a builtin function. -/
def ofBuiltin (b : Builtin) : Candidate := ⟨b.name, .builtin, some b.signature⟩

/-- The candidate for a reserved word. -/
def ofKeyword (word : String) : Candidate := ⟨word, .keyword, none⟩

/-- The candidate for a module of the standard library. -/
def ofStdModule (name : String) : Candidate := ⟨name, .moduleAlias, some "std module"⟩

/-- The candidate for an export of a module. -/
def ofExport (e : ModuleExport) : Candidate :=
  ⟨e.name, if e.kind = .func then .func else .var, some e.signature⟩

end Candidate

/-! ## What stands before the cursor -/

/-- What is typed at a cursor. -/
inductive TypingContext where
  | member (moduleAlias typed : String)
  | inString (typed : String)
  | anywhere
deriving DecidableEq, Repr

namespace TypingContext

/-- What stands in a string on one line between its opening quote and a position, without the mark
    of the standard library. -/
def typedInString? (text : String) (token : Token) (pos : Position) : Option String := do
  guard (token.pos.line = pos.line)
  let line ← Text.line? text (pos.line - 1)
  guard (token.pos.column ≤ pos.column - 1)
  let width := pos.column - 1 - token.pos.column
  let typed := (Text.splitBytes width (← Text.dropBytes? token.pos.column line)).1
  guard (Text.byteLength typed = width)
  match typed with
  | 's' :: 't' :: 'd' :: ':' :: name => return .ofList name
  | typed => return .ofList typed

/-- Whether a position that stands behind the start of a token may be inside a string. -/
def isInside (token : Token) (pos : Position) : Bool :=
  match token.kind with
  | .str =>
    token.raw.any fun raw =>
      !raw.toList.contains '\n' && pos.line = token.pos.line
        && pos.column < token.pos.column + raw.utf8ByteSize
  | .illegal => token.literal = Token.Fault.openString.message
  | _ => false

/-- Whether a name ends at a position. -/
def endsAt (token : Token) (pos : Position) : Bool :=
  token.pos.line = pos.line && token.pos.column + token.literal.utf8ByteSize = pos.column

/-- What is typed behind the given tokens, nearest first, unless it is in a string. -/
def behind (pos : Position) : List Token → TypingContext
  | last :: before :: rest =>
    if last.kind = .dot && before.kind = .ident then .member before.literal ""
    else match rest with
      | object :: _ =>
        if last.kind = .ident && before.kind = .dot && object.kind = .ident && endsAt last pos then
          .member object.literal last.literal
        else .anywhere
      | [] => .anywhere
  | _ => .anywhere

/-- The tokens that start before a position, nearest first, without line ends. -/
def tokensBefore (text : String) (pos : Position) : List Token :=
  ((Token.withoutNewlines text).filter fun token => token.kind ≠ .eof && token.pos < pos).reverse

/-- What is typed at a position. -/
def atPosition (text : String) (pos : Position) : TypingContext :=
  let before := tokensBefore text pos
  let quoted := before.head?.bind fun last =>
    if isInside last pos then typedInString? text last pos else none
  match quoted with
  | some typed => .inString typed
  | none => behind pos before

end TypingContext

/-! ## Candidates -/

/-- Whether a name starts with what is typed. -/
def extendsTyped (typed name : String) : Bool := typed.toList.isPrefixOf name.toList

namespace Workspace

variable (ws : Workspace) (uri : Uri)

/-- The exports of the module behind an alias that start with what is typed. -/
def memberCandidates (an : Analysis) (pos : Position) (moduleAlias typed : String) :
    List Candidate :=
  let exports : Option (List ModuleExport) := do
    let b ← an.bindings[← an.resolveAt pos moduleAlias]?
    guard (b.kind = .moduleAlias)
    let spec ← b.modulePath
    let info ← (ws.moduleInfo (← uri.path?) spec).toOption
    return info.exports.filter fun e => extendsTyped typed e.name
  Candidate.sorted ((exports.getD []).map Candidate.ofExport)

/-- The modules of the standard library that start with what is typed. -/
def stdCandidates (typed : String) : List Candidate :=
  (ws.stdModules.filter (extendsTyped typed)).map Candidate.ofStdModule

/-- What is offered where any expression may stand. The first candidate of a name counts. -/
def scopeCandidates (an : Analysis) (pos : Position) : List Candidate :=
  let visible := (an.visible (an.scopeAt pos)).filterMap fun id => an.bindings[id]?
  let settings := ws.settings.completion
  let all := visible.map Candidate.ofBinding
    ++ Builtin.functions.map Candidate.ofBuiltin
    ++ (if settings.keywords then Token.keywords.map Candidate.ofKeyword else [])
    ++ (if settings.stdModules then ws.stdCandidates "" else [])
  Candidate.sorted (all.foldl Candidate.addNew [])

/-- What is offered at a cursor, by kind and name. -/
def completion (text : String) (cursor : Editor.Cursor) : List Candidate :=
  match Editor.positionOf? text cursor with
  | none => []
  | some pos =>
    let an := Analysis.ofText text
    match TypingContext.atPosition text pos with
    | .member moduleAlias typed => ws.memberCandidates uri an pos moduleAlias typed
    | .inString typed => Candidate.sorted (ws.stdCandidates typed)
    | .anywhere => ws.scopeCandidates an pos

end Workspace

end Welle
