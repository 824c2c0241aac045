import Welle.Diagnostic
import Welle.Numeral
import Welle.Tree

set_option autoImplicit false

/-! # Parsers over tokens

A parser reads the tokens from a cursor on. Its state keeps the tokens that are left, how many
brackets enclose the cursor, and the diagnostics so far; a failure keeps the state in which it
occurred. Line feeds count as tokens only outside brackets. -/

namespace Welle.Parser

/-! ## Causes of failure -/

/-- Why a construct cannot be read. -/
inductive Cause where
  | expected (kind : Token.Kind) (context : String) (found : Token)
  | unexpected (found : Token)
  | illegal (found : Token)
  | invalidNumber (literal : String) (reason : Numeral.Error)
  | strayWithin (construct : String) (kind : Token.Kind)
  | noStatement (after : String)
  | noMember
  | noHandler
  | strayPrefixOp
  | strayOperator
  | straySpread
  | invalidTarget
  | severalStars
  | forTargets (count : Nat)
  | notCall
  | notExportable
  | emptyHole
  | crowdedHole
  | tooDeep

/-- How a token is named in a message. -/
def describe (token : Token) : String :=
  match token.kind with
  | .ident => s!"identifier {Text.quoted token.literal}"
  | .illegal => token.literal
  | kind => kind.describe

/-- The wording of a cause. -/
def Cause.message : Cause → String
  | expected kind context found =>
    let context := if context.isEmpty then "" else " " ++ context
    s!"expected {kind.describe}{context}, found {Parser.describe found}"
  | unexpected found => s!"unexpected {Parser.describe found}"
  | illegal found => found.literal
  | invalidNumber literal reason => s!"invalid number {Text.quoted literal}: {reason.message}"
  | strayWithin construct kind => s!"unexpected token in {construct}: {kind.describe}"
  | noStatement after => s!"expected statement after {after}"
  | noMember => "expected member name after '.'"
  | noHandler => "expected catch or finally after try block"
  | strayPrefixOp => "unknown prefix operator"
  | strayOperator => "unknown operator"
  | straySpread => "spread is only allowed in call arguments"
  | invalidTarget => "invalid assignment target"
  | severalStars => "multiple starred targets"
  | forTargets count => s!"for-in destructuring expects exactly two targets, found {count}"
  | notCall => "defer expects a call expression"
  | notExportable => "export expects a function or assignment"
  | emptyHole => "empty template expression"
  | crowdedHole => "template expression must be a single expression"
  | tooDeep => "nested too deeply"

/-! ## States -/

/-- The state of a parser: the tokens from the cursor on, the number of brackets around the cursor
    within which line feeds are skipped, and what has been reported. -/
structure State where
  tokens : List Token
  nesting : Nat
  diagnostics : List Diagnostic

namespace State

/-- The start of a token list. A list without an end gets one where its last token stands. -/
def ofTokens (tokens : List Token) : State :=
  let tokens := match tokens.getLast? with
    | none => [Token.endOfText .start]
    | some last => if last.kind = .eof then tokens else tokens ++ [Token.endOfText last.pos]
  ⟨tokens, 0, []⟩

/-- The token at the cursor. -/
def current (st : State) : Token := st.tokens.headD (Token.endOfText .start)

/-- The state without the line feeds at the cursor. -/
def dropNewlines (st : State) : State :=
  { st with tokens := st.tokens.dropWhile (·.kind = .newline) }

/-- The state with the cursor on a significant token. -/
def settle (st : State) : State := if 0 < st.nesting then st.dropNewlines else st

/-- The state behind the token at the cursor. -/
def dropToken (st : State) : State := { st with tokens := st.tokens.drop 1 }

/-- Whether a token of this kind follows, line feeds aside. -/
def nextAfterNewlinesIs (st : State) (kind : Token.Kind) : Bool :=
  (st.tokens.find? (·.kind ≠ .newline)).any (·.kind = kind)

end State

end Parser

/-- A parser: it succeeds with a value or fails with an error, and moves on in either case. -/
abbrev Parse (α : Type) : Type := ExceptT SyntaxError (StateM Parser.State) α

namespace Parser

variable {α : Type}

/-! ## The cursor -/

/-- The token at the cursor. -/
def current : Parse Token := do
  modify State.settle
  return (← get).current

/-- The kind of the token at the cursor. -/
def currentKind : Parse Token.Kind := return (← current).kind

/-- Whether the cursor is at a token of this kind. -/
def atKind (kind : Token.Kind) : Parse Bool := return (← currentKind) = kind

/-- The kind of the significant token behind the one at the cursor. -/
def nextKind : Parse Token.Kind := do
  modify State.settle
  let st ← get
  let behind := st.tokens.drop 1
  let next := if 0 < st.nesting then behind.find? (·.kind ≠ .newline) else behind.head?
  return (next.map (·.kind)).getD .eof

/-- Moves behind the token at the cursor and gives it. The end of the text stays where it is. -/
def advance : Parse Token := do
  let token ← current
  if token.kind ≠ .eof then modify State.dropToken
  return token

/-- Moves behind the token at the cursor if it is of this kind, and says whether it is. -/
def eat (kind : Token.Kind) : Parse Bool := do
  if ← atKind kind then
    let _ ← advance
    return true
  else return false

/-- Moves behind the line feeds at the cursor. -/
def skipNewlines : Parse Unit := modify State.dropNewlines

/-- Moves behind the line feeds and semicolons at the cursor. -/
def skipSeparators : Parse Unit :=
  modify fun st => { st with tokens := st.tokens.dropWhile (·.kind.isSeparator) }

/-! ## Failure -/

/-- Fails over a token. -/
def fail (cause : Cause) (token : Token) : Parse α := throw (.atToken cause.message token)

/-- Records an error as a diagnostic. -/
def record (error : SyntaxError) : Parse Unit :=
  modify fun st => { st with diagnostics := st.diagnostics ++ [.ofSyntaxError error] }

/-- A token of this kind, or an error that says what was found instead. -/
def expect (kind : Token.Kind) (context : String) : Parse Token := do
  if ← atKind kind then advance
  else
    let found ← current
    fail (.expected kind context found) found

/-- A name. -/
def expectIdent (context : String) : Parse Ident := do
  let token ← expect .ident context
  return ⟨token.literal, token.pos⟩

/-! ## Brackets -/

/-- Runs a parser inside brackets, where line feeds are skipped. -/
def nested (p : Parse α) : Parse α := ExceptT.mk do
  modify fun st => { st with nesting := st.nesting + 1 }
  let result ← p.run
  modify fun st => { st with nesting := st.nesting - 1 }
  return result

/-- Runs a parser where line feeds end statements, as between the braces of a block. -/
def asStatements (p : Parse α) : Parse α := ExceptT.mk do
  let saved := (← get).nesting
  modify fun st => { st with nesting := 0 }
  let result ← p.run
  modify fun st => { st with nesting := saved }
  return result

/-! ## Repetition -/

/-- The values of `step` until it gives none, of which there are at most `limit`. -/
def collect (step : Parse (Option α)) : (limit : Nat) → Parse (List α)
  | 0 => return []
  | limit + 1 => do
    match ← step with
    | none => return []
    | some a => return a :: (← collect step limit)

/-- The values of `step` until it gives none. A step that gives a value moves behind a token, so
    there are no more values than tokens. -/
def many (step : Parse (Option α)) : Parse (List α) := do
  collect step (← get).tokens.length

/-- Further items, each behind a comma. -/
def furtherItems (item : Parse α) : Parse (List α) :=
  many do if ← eat .comma then some <$> item else return none

/-- One or more items with commas between them. -/
def commaSeparated (item : Parse α) : Parse (List α) := do
  let first ← item
  return first :: (← furtherItems item)

/-- Further items, each behind a comma; a comma may stand in front of the closing token. -/
def furtherItemsUntil (close : Token.Kind) (item : Parse α) : Parse (List α) :=
  many do
    if ← eat .comma then
      if ← atKind close then return none else some <$> item
    else return none

/-- Any number of items with commas between them, up to the closing token. -/
def itemsUntil (close : Token.Kind) (item : Parse α) : Parse (List α) := do
  if ← atKind close then return []
  let first ← item
  return first :: (← furtherItemsUntil close item)

end Welle.Parser
