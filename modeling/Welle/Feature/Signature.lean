import Welle.Builtin
import Welle.Workspace.Index

set_option autoImplicit false

/-! # Signatures of calls

While the arguments of a call are typed, an editor shows the signature of the called function and
marks the parameter of the argument at the cursor. Calls are found by pairing parentheses in the
tokens, so also in a text that does not parse. -/

namespace Welle

/-- What a binding is shown as: a function with its parameters, an imported name with its module. -/
def Binding.signature? (b : Binding) : Option String :=
  match b.kind with
  | .func => some (b.name ++ "(" ++ Text.join ", " b.params ++ ")")
  | .imported => some (b.modulePath.getD "" ++ "." ++ b.member.getD "")
  | _ => none

/-- A signature: its text, the names of its parameters, and a sentence about it. -/
structure Signature where
  label : String
  params : List String
  doc : Option String
deriving DecidableEq, Repr

/-- The signature of a builtin. -/
def Builtin.toSignature (b : Builtin) : Signature := ⟨b.signature, b.params, some b.doc⟩

/-! ## Calls -/

/-- What is called: a name, or a member of a name. -/
inductive Callee where
  | name (called : Token)
  | member (object called : Token)
deriving DecidableEq, Repr

/-- A call: what is called and its parentheses. An unfinished call has no closing one. -/
structure CallSite where
  callee : Callee
  opening : Position
  closing : Option Position
deriving DecidableEq, Repr

/-- Whether a position is behind the opening parenthesis of a call and not behind the closing one.
    -/
def CallSite.contains (call : CallSite) (pos : Position) : Bool :=
  call.opening < pos && call.closing.all fun closing => pos ≤ closing

/-- What a parenthesis calls, given the tokens before it, nearest first. In the declaration of a
    function nothing is called. -/
def Callee.before? : List Token → Option Callee
  | [] => none
  | called :: rest =>
    if called.kind ≠ .ident then none
    else match rest with
      | [] => some (.name called)
      | mark :: rest =>
        if mark.kind = .kwFunc then none
        else if mark.kind = .dot then
          rest.head?.map fun object =>
            if object.kind = .ident then .member object called else .name called
        else some (.name called)

/-- A parenthesis that is still open: its position and what it calls. -/
abbrev OpenCall := Position × Option Callee

/-- The call of a parenthesis, if it calls something. -/
def callAt? (closing : Option Position) (call : OpenCall) : Option CallSite :=
  call.2.map fun callee => ⟨callee, call.1, closing⟩

/-- The calls in a list of tokens, given the tokens before it, nearest first, and the parentheses
    that are open, innermost first. A finished call stands where it is closed, the unfinished ones
    at the end. -/
def callSites (before : List Token) (stack : List OpenCall) : List Token → List CallSite
  | [] => stack.reverse.filterMap (callAt? none)
  | token :: rest =>
    let before' := token :: before
    if token.kind = .lparen then
      callSites before' ((token.pos, Callee.before? before) :: stack) rest
    else if token.kind = .rparen then
      match stack with
      | [] => callSites before' [] rest
      | call :: stack =>
        (callAt? (some token.pos) call).toList ++ callSites before' stack rest
    else callSites before' stack rest

/-- The call that opens last. -/
def innermost? (calls : List CallSite) : Option CallSite :=
  calls.foldl (fun best call =>
    match best with
    | none => some call
    | some b => if call.opening < b.opening then best else some call) none

/-! ## Arguments -/

/-- How many brackets are open and how many commas stood directly in the outermost one. -/
structure ArgumentCount where
  depth : Nat
  commas : Nat

/-- The count after one more token. -/
def ArgumentCount.next (count : ArgumentCount) (token : Token) : ArgumentCount :=
  match token.kind with
  | .lparen | .lbracket | .lbrace => { count with depth := count.depth + 1 }
  | .rparen | .rbracket | .rbrace => { count with depth := count.depth - 1 }
  | .comma => if count.depth = 1 then { count with commas := count.commas + 1 } else count
  | _ => count

/-- The index of the argument at `pos` of the call that opens at `opening`: the number of its own
    commas that start before `pos`. One behind the last argument counts like those between two. -/
def activeParameter (tokens : List Token) (opening pos : Position) : Nat :=
  let between := tokens.filter fun token => opening ≤ token.pos && token.pos < pos
  (between.foldl ArgumentCount.next ⟨0, 0⟩).commas

/-- The tokens of a text without line ends. -/
def Token.withoutNewlines (text : String) : List Token :=
  (Token.tokenize text).filter (·.kind ≠ .newline)

/-! ## Signatures -/

/-- A signature and the index of the argument at the cursor. -/
structure SignatureHelp where
  signature : Signature
  active : Nat
deriving DecidableEq, Repr

namespace Workspace

variable (ws : Workspace) (uri : Uri)

/-- The signature of a member of the module that the document at `uri` names by `spec`. -/
def memberSignature? (spec member : String) : Option Signature := do
  let info ← (ws.moduleInfo (← uri.path?) spec).toOption
  let found ← info.export? member
  return ⟨found.signature, found.params, none⟩

/-- The signature of what is called. -/
def calleeSignature? (an : Analysis) : Callee → Option Signature
  | .name name =>
    match an.resolveAt name.pos name.literal with
    | none => (Builtin.function? name.literal).map Builtin.toSignature
    | some id => do
      let b ← an.bindings[id]?
      match b.kind with
      | .func => return ⟨← b.signature?, b.params, none⟩
      | .imported => ws.memberSignature? uri (← b.modulePath) (← b.member)
      | _ => none
  | .member object name =>
    let binding := (an.resolveAt object.pos object.literal).bind fun id => an.bindings[id]?
    match binding.filter (·.kind = .moduleAlias) with
    | some b => b.modulePath.bind fun spec => ws.memberSignature? uri spec name.literal
    | none => (Builtin.method? name.literal).map Builtin.toSignature

/-- The signature of the innermost call around a cursor. -/
def signatureHelp? (text : String) (cursor : Editor.Cursor) : Option SignatureHelp := do
  let pos ← Editor.positionOf? text cursor
  let tokens := Token.withoutNewlines text
  let call ← innermost? ((callSites [] [] tokens).filter (·.contains pos))
  let signature ← ws.calleeSignature? uri (.ofText text) call.callee
  return ⟨signature, activeParameter tokens call.opening pos⟩

end Workspace

end Welle
