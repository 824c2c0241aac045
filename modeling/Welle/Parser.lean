import Welle.Parser.Statement

set_option autoImplicit false

/-! # Parsing programs

`Program.parse` reads a text. It never fails: what cannot be read is reported and left out.

The rules of the grammar are tied together by `Grammar.ofDepth`, which allows them to nest so many
levels deep. Every rule reads a token before it enters the next level, and the source of a
template's interpolation is shorter than the template, so the weight of the tokens that are left is
a bound on the levels below. -/

namespace Welle.Parser

/-! ## Levels -/

/-- The levels of the grammar that a token can lead to. -/
def tokenWeight (token : Token) : Nat :=
  1 + if token.kind = .template then token.literal.length else 0

/-- The levels of the grammar that the tokens from the cursor on can lead to. -/
def State.weight (st : State) : Nat :=
  st.tokens.foldr (fun token weight => tokenWeight token + weight) 0

/-- The grammar with so many levels. -/
def Grammar.ofDepth : Nat → Grammar
  | 0 =>
    { expression := fun _ => do fail .tooDeep (← current)
      statement := do fail .tooDeep (← current) }
  | depth + 1 =>
    { expression := Parser.expression (ofDepth depth)
      statement := Parser.statement (ofDepth depth) }

/-! ## Entry points -/

/-- An expression at the cursor, with operators that bind more strongly than `level`. -/
def parseExpression (level : Precedence) : Parse Expr := do
  (Grammar.ofDepth (← get).weight).expression level

/-- The statements from the cursor to the end of the text. -/
def parseProgram : Parse Program := do
  return ⟨← statementsUntil (.ofDepth (← get).weight) .eof⟩

/-- Runs a parser. -/
def run {α : Type} (p : Parse α) (st : State) : Except SyntaxError α × State := (p.run.run st).run

end Parser

/-- A program and what was reported while it was read. -/
structure Parsed where
  program : Program
  diagnostics : List Diagnostic

/-- Whether anything was reported. -/
def Parsed.hasErrors (parsed : Parsed) : Bool := !parsed.diagnostics.isEmpty

/-- Reads the program that a token list stands for. -/
def Program.ofTokens (tokens : List Token) : Parsed :=
  match Parser.run Parser.parseProgram (.ofTokens tokens) with
  | (.ok program, st) => ⟨program, st.diagnostics⟩
  | (.error _, st) => ⟨⟨[]⟩, st.diagnostics⟩

/-- Reads a program. -/
def Program.parse (text : String) : Parsed := Program.ofTokens (Token.tokenize text)

end Welle
