import Welle.Token

set_option autoImplicit false

/-! # Diagnostics

What the parser, the analysis and the module index report about a text. A `SyntaxError` is the
failure of one construct; it becomes a `Diagnostic` when the parser recovers from it. -/

namespace Welle

/-! ## Syntax errors -/

/-- A failed construct: what is wrong, where, and over how many characters. -/
structure SyntaxError where
  message : String
  span : Option Span
  length : Nat
deriving DecidableEq, Repr

namespace SyntaxError

/-- An error without a place. -/
def general (message : String) : SyntaxError := ⟨message, none, 1⟩

/-- An error over a span. -/
def inSpan (message : String) (span : Span) : SyntaxError := ⟨message, some span, 1⟩

/-- An error at a position. -/
def atPosition (message : String) (pos : Position) : SyntaxError := inSpan message (.single pos)

/-- The error with another length, at least one. -/
def withLength (e : SyntaxError) (length : Nat) : SyntaxError := { e with length := max length 1 }

/-- An error that covers a token. -/
def atToken (message : String) (token : Token) : SyntaxError :=
  (atPosition message token.pos).withLength token.width

/-- Where the error starts. -/
def position? (e : SyntaxError) : Option Position := e.span.map (·.first)

instance : ToString SyntaxError :=
  ⟨fun e => match e.position? with
    | some pos => s!"{e.message} at {pos}"
    | none => e.message⟩

end SyntaxError

/-! ## Diagnostics -/

/-- How bad a diagnostic is. -/
inductive Severity where
  | error | warning | info
deriving DecidableEq, Repr

instance : ToString Severity :=
  ⟨fun
    | .error => "error"
    | .warning => "warning"
    | .info => "info"⟩

/-- The rules that diagnostics report. -/
inductive Rule where
  | parse
  | redeclaration
  | duplicateExport
deriving DecidableEq, Repr

/-- The code of a rule. -/
def Rule.code : Rule → String
  | parse => "WP0001"
  | redeclaration => "WA0001"
  | duplicateExport => "WM0002"

/-- A report about a text: the rule, the message, and a position with a length in characters. -/
structure Diagnostic where
  rule : Rule
  message : String
  severity : Severity
  pos : Position
  length : Nat
deriving DecidableEq, Repr

namespace Diagnostic

/-- An error of at least one character. -/
def error (rule : Rule) (message : String) (pos : Position) (length : Nat) : Diagnostic :=
  ⟨rule, message, .error, pos, max length 1⟩

/-- An error that covers a token. -/
def atToken (rule : Rule) (message : String) (token : Token) : Diagnostic :=
  error rule message token.pos token.width

/-- The report of a syntax error; one without a place is reported at the start of the text. -/
def ofSyntaxError (e : SyntaxError) : Diagnostic :=
  error .parse e.message (e.position?.getD .start) e.length

/-- The report as one line of a compiler's output. -/
def format (d : Diagnostic) (path : String) : String :=
  s!"{path}:{d.pos}: {d.severity} {d.rule.code}: {d.message}"

instance : ToString Diagnostic := ⟨fun d => s!"{d.rule.code}: {d.message} at {d.pos}"⟩

end Diagnostic

end Welle
