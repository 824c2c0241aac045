import Welle.Template.Tokens

set_option autoImplicit false

/-! # Pairs of brackets

Where the bracket that closes an opening one stands. Brackets are paired within each run of tokens,
so the interpolations of a template are paired on their own. -/

namespace Welle.Bracket

/-- The kind that closes an opening bracket. -/
def closer? : Token.Kind → Option Token.Kind
  | .lparen => some .rparen
  | .lbracket => some .rbracket
  | .lbrace => some .rbrace
  | _ => none

/-- Whether a kind is that of a closing bracket. -/
def isCloser : Token.Kind → Bool
  | .rparen | .rbracket | .rbrace => true
  | _ => false

/-- The state of a scan: the brackets that are open, innermost first, each with the kind that closes
    it, and the pairs found so far, latest first. -/
structure Scan where
  stack : List (Token.Kind × Position)
  pairs : List (Position × Position)

/-- Takes one token into account. A closing bracket pairs with the innermost open bracket of its
    kind; those opened inside of that one are given up and pair with nothing. A stray closing bracket
    is ignored. -/
def Scan.step (scan : Scan) (token : Token) : Scan :=
  match closer? token.kind with
  | some closer => { scan with stack := (closer, token.pos) :: scan.stack }
  | none =>
    if isCloser token.kind then
      match scan.stack.dropWhile (·.1 ≠ token.kind) with
      | [] => scan
      | (_, opening) :: below => ⟨below, (opening, token.pos) :: scan.pairs⟩
    else scan

/-- The pairs of one run of tokens. -/
def pairsOf (tokens : List Token) : List (Position × Position) :=
  (tokens.foldl Scan.step ⟨[], []⟩).pairs

/-- The pairs of a text, and where the text ends. -/
structure Pairs where
  closes : List (Position × Position)
  stop : Position

/-- The pairs of a text. -/
def Pairs.ofText (text : String) : Pairs :=
  ⟨(Template.runs text).flatMap pairsOf, endPosition text⟩

/-- The bracket that closes the one at `opening`, or the end of the text if none does. -/
def Pairs.closeOf (pairs : Pairs) (opening : Position) : Position :=
  (pairs.closes.lookup opening).getD pairs.stop

/-- From `start` to the bracket that closes the one at `opening`. -/
def Pairs.span (pairs : Pairs) (start opening : Position) : Span := ⟨start, pairs.closeOf opening⟩

end Welle.Bracket
