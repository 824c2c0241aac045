import Welle.Parser.State

set_option autoImplicit false

/-! # Blocks

Statements with error recovery, and the blocks around them. The grammar is recursive; its rules take
the parsers for the constructs inside them as a `Grammar`, which holds the rules one level down. -/

namespace Welle.Parser

/-- The parsers of the two recursive constructs. -/
structure Grammar where
  expression : Precedence → Parse Expr
  statement : Parse Stmt

/-- One statement of a list that ends at `stop`: `none` at its end, and no statement in place of one
    that failed. The error is recorded, and the cursor moves on by at least one token. -/
def listedStatement (g : Grammar) (stop : Token.Kind) : Parse (Option (Option Stmt)) := do
  skipSeparators
  if ← atKind stop then return none
  if ← atKind .eof then return none
  let before := (← get).tokens.length
  match ← observing g.statement with
  | .ok stmt => return some (some stmt)
  | .error error =>
    record error
    if (← get).tokens.length = before then
      let _ ← advance
    else if !(← atKind stop) then
      let _ ← advance
    return some none

/-- The statements up to `stop` or the end of the text. -/
def statementsUntil (g : Grammar) (stop : Token.Kind) : Parse (List Stmt) :=
  return (← many (listedStatement g stop)).filterMap id

/-- Statements between braces. A block that is not closed keeps its statements. -/
def block (g : Grammar) : Parse Block := do
  let opening ← expect .lbrace "to open block"
  asStatements do
    let stmts ← statementsUntil g .rbrace
    match ← observing (expect .rbrace "to close block") with
    | .ok _ => pure ()
    | .error error => record error
    return ⟨opening.pos, stmts⟩

/-- A block that may start on a later line. -/
def body (g : Grammar) : Parse Block := do
  if (← get).nextAfterNewlinesIs .lbrace then skipNewlines
  block g

/-- The names of a parameter list. -/
def params : Parse (List Ident) := do
  let _ ← expect .lparen "to open parameter list"
  nested do
    let names ← itemsUntil .rparen (expectIdent "in parameter list")
    let _ ← expect .rparen "to close parameter list"
    return names

/-- The values behind the word `case`. -/
def caseValues (g : Grammar) : Parse (List Expr) := commaSeparated (g.expression .lowest)

/-- The cases and the defaults between the braces of a `switch` or a `match`. -/
def arms {α β : Type} (construct : String) (caseArm : Token → Parse α) (defaultArm : Parse β) :
    Parse (List α × Option β) := do
  let found ← many do
    skipSeparators
    match ← currentKind with
    | .rbrace => return none
    | .kwCase =>
      let word ← advance
      return some (Sum.inl (← caseArm word))
    | .kwDefault =>
      let _ ← advance
      return some (Sum.inr (← defaultArm))
    | kind => fail (.strayWithin construct kind) (← current)
  let _ ← expect .rbrace s!"to close {construct}"
  return (found.filterMap Sum.getLeft?, (found.filterMap Sum.getRight?).getLast?)

end Welle.Parser
