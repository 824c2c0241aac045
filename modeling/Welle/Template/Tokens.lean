import Welle.Template
import Welle.Token.Lexer

set_option autoImplicit false

/-! # The tokens inside templates

The interpolations of a template are texts of their own, which stand at a place in the file. A file
therefore has several runs of tokens: its own, and one for every interpolation at any depth. -/

namespace Welle.Template

/-- The tokens of each interpolation of a template token. -/
def holeTokens (token : Token) : List (List Token) :=
  if token.kind = .template then
    (split token.literal (token.pos.shifted 2)).filterMap fun
      | .text _ => none
      | .hole source origin _ => some (Token.tokenizeAt source origin)
  else []

/-- A run of tokens and the runs inside its templates, up to `depth` templates deep. -/
def runsWithin : (depth : Nat) → List Token → List (List Token)
  | 0, tokens => [tokens]
  | depth + 1, tokens => tokens :: (tokens.flatMap holeTokens).flatMap (runsWithin depth)

/-- All runs of tokens of a text. A template is longer than its interpolations, so templates are
    nested no deeper than the text is long. -/
def runs (text : String) : List (List Token) := runsWithin text.length (Token.tokenize text)

end Welle.Template
