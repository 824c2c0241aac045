import Welle.Parser.Block
import Welle.Template
import Welle.Token.Lexer

set_option autoImplicit false

/-! # The grammar of expressions

An expression starts with an operand; then every operator that binds more strongly than the level at
which the expression is read takes what was read so far as its left operand. -/

namespace Welle.Parser

/-! ## Templates -/

/-- The expression that fills an interpolation. -/
def holeExpression (g : Grammar) (opening : Position) : Parse Expr := do
  if ← atKind .eof then
    throw ((SyntaxError.atPosition Cause.emptyHole.message opening).withLength 2)
  let value ← g.expression .lowest
  if ← atKind .eof then return value
  fail .crowdedHole (← current)

/-- Reads the source of an interpolation. What is reported inside it is reported for the file. -/
def hole (g : Grammar) (source : String) (origin opening : Position) : Parse Expr := do
  let inner : State := { State.ofTokens (Token.tokenizeAt source origin) with nesting := 1 }
  let (result, inner) := ((holeExpression g opening).run.run inner).run
  modify fun st => { st with diagnostics := st.diagnostics ++ inner.diagnostics }
  liftExcept result

/-- The first error of a list of results, or else all values. -/
def firstError {α : Type} (results : List (Except SyntaxError α)) : Except SyntaxError (List α) :=
  results.mapM id

/-- The tree of a template token. All interpolations are read, and the first error is the error of
    the template. -/
def template (g : Grammar) (token : Token) (tag : Option Expr) : Parse Expr := do
  let segments := Template.split token.literal (token.pos.shifted 2)
  let parts := segments.filterMap fun
    | .text value => some value
    | .hole .. => none
  let results ← segments.filterMapM fun
    | .text _ => pure none
    | .hole source origin opening => some <$> observing (hole g source origin opening)
  return .template token.pos tag parts (← liftExcept (firstError results))

/-! ## Operands -/

/-- A number. -/
def number (token : Token) : Parse Expr :=
  match Numeral.parse token.literal with
  | .ok (.int value) => return .int token.pos value
  | .ok (.float value) => return .float token.pos value
  | .error reason => fail (.invalidNumber token.literal reason) token

/-- An expression in parentheses, or a tuple. -/
def grouped (g : Grammar) : Parse Expr := do
  let opening ← advance
  nested do
    if ← eat .rparen then return .tuple opening.pos []
    let first ← g.expression .lowest
    if ← atKind .comma then
      let items ← furtherItemsUntil .rparen (g.expression .lowest)
      let _ ← expect .rparen "to close tuple"
      return .tuple opening.pos (first :: items)
    let _ ← expect .rparen "to close group"
    return first

/-- A list, or a comprehension. -/
def list (g : Grammar) : Parse Expr := do
  let opening ← advance
  nested do
    if ← eat .rbracket then return .list opening.pos []
    let first ← g.expression .lowest
    if ← eat .kwFor then
      let var ← expectIdent "after 'for' in comprehension"
      let _ ← expect .kwIn "in comprehension"
      let seq ← g.expression .ternary
      let filter ← if ← eat .kwIf then some <$> g.expression .lowest else pure none
      let _ ← expect .rbracket "to close comprehension"
      return .comprehension opening.pos first var seq filter
    let items ← furtherItemsUntil .rbracket (g.expression .lowest)
    let _ ← expect .rbracket "to close list"
    return .list opening.pos (first :: items)

/-- An entry of a dictionary. -/
def dictEntry (g : Grammar) : Parse DictEntry := do
  if (← atKind .ident) && (match ← nextKind with | .comma | .rbrace => true | _ => false) then
    return .shorthand (← expectIdent "")
  let key ← g.expression .lowest
  let _ ← expect .colon "after dict key"
  return .pair key (← g.expression .lowest)

/-- A dictionary. -/
def dict (g : Grammar) : Parse Expr := do
  let hash ← advance
  let _ ← expect .lbrace "after '#'"
  nested do
    let entries ← itemsUntil .rbrace (dictEntry g)
    let _ ← expect .rbrace "to close dict"
    return .dict hash.pos entries

/-- A function literal. -/
def funcLiteral (g : Grammar) : Parse Expr := do
  let word ← advance
  let names ← params
  return .func word.pos names (← block g)

/-- The result of a case of a `match` expression. -/
def matchResult (g : Grammar) : Parse Expr := do
  let _ ← expect .lbrace "to open match case"
  skipSeparators
  let result ← g.expression .lowest
  skipSeparators
  let _ ← expect .rbrace "to close match case"
  return result

/-- A `match` expression. -/
def select (g : Grammar) : Parse Expr := do
  let word ← advance
  let _ ← expect .lparen "after 'match'"
  let value ← nested do
    let value ← g.expression .lowest
    let _ ← expect .rparen "after match value"
    return value
  let _ ← expect .lbrace "to open match body"
  asStatements do
    let (cases, fallback) ← arms "match"
      (fun word => do
        let values ← caseValues g
        return MatchArm.mk word.pos values (← matchResult g))
      (matchResult g)
    return .select word.pos value cases fallback

/-- An operand: what an expression starts with. -/
def operand (g : Grammar) : Parse Expr := do
  let token ← current
  match token.kind with
  | .ident =>
    let _ ← advance
    return .ident ⟨token.literal, token.pos⟩
  | .int | .float =>
    let _ ← advance
    number token
  | .str =>
    let _ ← advance
    return .str token.pos token.literal
  | .template =>
    let _ ← advance
    template g token none
  | .kwTrue | .kwFalse =>
    let _ ← advance
    return .bool token.pos (token.kind = .kwTrue)
  | .kwNil =>
    let _ ← advance
    return .nil token.pos
  | .minus | .bang | .kwNot | .bitNot =>
    let _ ← advance
    let value ← g.expression .prefixOp
    match PrefixOp.ofKind? token.kind with
    | some op => return .unary token.pos op value
    | none => fail .strayPrefixOp token
  | .lparen => grouped g
  | .lbracket => list g
  | .hash => dict g
  | .kwFunc => funcLiteral g
  | .kwMatch => select g
  | .ellipsis => fail .straySpread token
  | .illegal => fail (.illegal token) token
  | _ => fail (.unexpected token) token

/-! ## Operators -/

/-- Whether an operator can assign to an expression. Only a name can be declared. -/
def isAssignable (op : AssignOp) : Expr → Bool
  | .ident _ => true
  | .index .. | .member .. => op ≠ .walrus
  | _ => false

/-- An argument of a call. -/
def argument (g : Grammar) : Parse Expr := do
  if ← atKind .ellipsis then
    let dots ← advance
    return .spread dots.pos (← g.expression .lowest)
  g.expression .lowest

/-- The arguments of a call. -/
def call (g : Grammar) (callee : Expr) : Parse Expr := do
  let opening ← advance
  nested do
    let args ← itemsUntil .rparen (argument g)
    let _ ← expect .rparen "to close call arguments"
    return .call opening.pos callee args

/-- The part of a slice behind its first colon. -/
def sliceTail (g : Grammar) (opening : Position) (object : Expr) (low : Option Expr) :
    Parse Expr := do
  let high ← match ← currentKind with
    | .colon | .rbracket => pure none
    | _ => some <$> g.expression .lowest
  let step ← if ← eat .colon then
      if ← atKind .rbracket then pure none else some <$> g.expression .lowest
    else pure none
  let _ ← expect .rbracket "to close slice"
  return .slice opening object low high step

/-- An index, or a slice with any of its parts left out. -/
def index (g : Grammar) (object : Expr) : Parse Expr := do
  let opening ← advance
  nested do
    if ← eat .colon then return ← sliceTail g opening.pos object none
    let low ← g.expression .lowest
    if ← eat .colon then return ← sliceTail g opening.pos object (some low)
    let _ ← expect .rbracket "to close index"
    return .index opening.pos object low

/-- The member behind a dot. Reserved words are names here. -/
def member (object : Expr) : Parse Expr := do
  let dot ← advance
  let name ← current
  if name.kind = .ident || name.kind.isKeyword then
    let _ ← advance
    return .member dot.pos object ⟨name.literal, name.pos⟩
  fail .noMember name

/-- Reads the operator at the cursor, which binds as strongly as `strength`, and what belongs to it
    on its right. -/
def operation (g : Grammar) (left : Expr) (strength : Precedence) : Parse Expr := do
  let token ← current
  match AssignOp.ofKind? token.kind with
  | some op =>
    if !isAssignable op left then return ← fail .invalidTarget token
    let _ ← advance
    return .assign token.pos left op (← g.expression strength.weaker)
  | none =>
    match token.kind with
    | .question =>
      let _ ← advance
      let thenE ← g.expression .lowest
      let _ ← expect .colon "in conditional expression"
      return .ternary token.pos left thenE (← g.expression strength.weaker)
    | .kwIf =>
      let _ ← advance
      let cond ← g.expression .ternary
      let _ ← expect .kwElse "in conditional expression"
      return .conditional token.pos left cond (← g.expression strength.weaker)
    | .lparen => call g left
    | .lbracket => index g left
    | .dot => member left
    | .template =>
      let _ ← advance
      template g token (some left)
    | kind =>
      match InfixOp.ofKind? kind with
      | some op =>
        let _ ← advance
        return .binary token.pos op left (← g.expression strength)
      | none => fail .strayOperator token

/-- Whether an expression can tag a template. -/
def isTag : Expr → Bool
  | .ident _ | .member .. => true
  | _ => false

/-- How strongly the token at the cursor binds `left`, if it continues an expression that is read at
    `level`. -/
def continuation? (level : Precedence) (left : Expr) : Parse (Option Precedence) := do
  let kind ← currentKind
  match Precedence.ofKind? kind with
  | none => return none
  | some strength =>
    if strength ≤ level then return none
    if kind = .template && !isTag left then return none
    return some strength

/-- Applies operators to `left` while they bind more strongly than `level`, at most `limit` times.
    -/
def operations (g : Grammar) (level : Precedence) : (limit : Nat) → Expr → Parse Expr
  | 0, left => return left
  | limit + 1, left => do
    match ← continuation? level left with
    | none => return left
    | some strength => operations g level limit (← operation g left strength)

/-- An expression whose operators bind more strongly than `level`. Every operator is a token, so
    there are no more operators than tokens. -/
def expression (g : Grammar) (level : Precedence) : Parse Expr := do
  let left ← operand g
  operations g level (← get).tokens.length left

end Welle.Parser
