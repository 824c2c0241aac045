import Welle.Parser.Expression

set_option autoImplicit false

/-! # The grammar of statements -/

namespace Welle.Parser

/-! ## Simple statements -/

/-- The statement that an expression stands for: an assignment to a name, an index or a member has a
    statement of its own. -/
def toStmt (start : Position) : Expr → Stmt
  | .assign _ (.ident name) op value => .assign name.pos name op value
  | .assign pos (.index _ object index) op value => .indexAssign pos object index op value
  | .assign pos (.member _ object name) op value => .memberAssign pos object name op value
  | value => .expr start value

/-- An expression as a statement. -/
def simpleStatement (g : Grammar) : Parse Stmt := do
  let start := (← current).pos
  return toStmt start (← expression g .lowest)

/-! ## Destructuring -/

/-- A list of targets in parentheses: the targets, the stars in front of them, and whether a comma
    stands behind the last one. -/
structure TargetList where
  targets : List Target
  stars : List Token
  trailingComma : Bool

/-- A target and the star in front of it, or `none` for anything else. -/
def scanTarget : Parse (Option (Target × Option Token)) := do
  let token ← advance
  match token.kind with
  | .star =>
    let name ← advance
    if name.kind = .ident then return some (.starred ⟨name.literal, name.pos⟩, some token)
    return none
  | .ident =>
    if token.literal = "_" then return some (.discard token.pos, none)
    return some (.name ⟨token.literal, token.pos⟩, none)
  | _ => return none

/-- The targets up to the closing parenthesis, of which there are at most `limit`, or `none` if
    anything else stands between them. -/
def scanTargets : (limit : Nat) → Parse (Option TargetList)
  | 0 => return none
  | limit + 1 => do
    let some (target, star) ← scanTarget | return none
    match (← advance).kind with
    | .rparen => return some ⟨[target], star.toList, false⟩
    | .comma =>
      if ← eat .rparen then return some ⟨[target], star.toList, true⟩
      let some list ← scanTargets limit | return none
      return some { list with
        targets := target :: list.targets, stars := star.toList ++ list.stars }
    | _ => return none

/-- Whether a target list is more than a name in parentheses. -/
def TargetList.isTuple (list : TargetList) : Bool :=
  1 < list.targets.length || !list.stars.isEmpty || list.trailingComma

/-- The operator of a destructuring assignment. -/
def destructuringOp? (kind : Token.Kind) : Option AssignOp :=
  (AssignOp.ofKind? kind).filter (!·.isCompound)

/-- A destructuring assignment. Where the parenthesis opens anything else, the cursor goes back to
    it and there is none. -/
def destructuring (g : Grammar) : Parse (Option Stmt) := do
  let start := (← get).tokens
  let opening ← advance
  let list ← nested (do scanTargets (← get).tokens.length)
  match list, destructuringOp? (← currentKind) with
  | some list, some op =>
    if list.isTuple then
      if let some second := list.stars[1]? then return ← fail .severalStars second
      let _ ← advance
      return some (.destructure opening.pos list.targets op (← g.expression .lowest))
  | _, _ => pure ()
  modify fun st => { st with tokens := start }
  return none

/-! ## Conditions and loops -/

/-- A condition in parentheses behind a word. -/
def condition (g : Grammar) (word : String) : Parse Expr := do
  let _ ← expect .lparen s!"after '{word}'"
  nested do
    let test ← g.expression .lowest
    let _ ← expect .rparen s!"after {word} condition"
    return test

/-- The statement behind a condition or behind `else`, which may stand on a later line. -/
def branch (g : Grammar) (after : String) : Parse Stmt := do
  skipNewlines
  let token ← current
  match token.kind with
  | .kwElse | .rbrace | .eof | .semicolon => fail (.noStatement after) token
  | _ => g.statement

/-- An `if` statement. -/
def cond (g : Grammar) : Parse Stmt := do
  let word ← advance
  let test ← condition g "if"
  let thenS ← branch g "if condition"
  if (← get).nextAfterNewlinesIs .kwElse then
    skipNewlines
    let _ ← advance
    return .cond word.pos test thenS (some (← branch g "else"))
  return .cond word.pos test thenS none

/-- A `while` loop. -/
def whileLoop (g : Grammar) : Parse Stmt := do
  let word ← advance
  let test ← condition g "while"
  return .whileLoop word.pos test (← body g)

/-- The forms of a `for` header: three clauses, a name with or without parentheses, and a list of
    names inside or in front of the header's parentheses. -/
inductive ForShape where
  | clauses | bare | inParens | grouped | outside
deriving DecidableEq, Repr

/-- What follows names separated by commas. -/
def afterNames : List Token.Kind → Option (List Token.Kind)
  | .ident :: rest => some (skipPairs rest)
  | _ => none
where
  /-- Drops pairs of a comma and a name. -/
  skipPairs : List Token.Kind → List Token.Kind
    | .comma :: .ident :: rest => skipPairs rest
    | rest => rest

/-- Whether names, a closing parenthesis and the word `in` follow. -/
def namesThenIn (kinds : List Token.Kind) : Bool :=
  match afterNames kinds with
  | some (.rparen :: .kwIn :: _) => true
  | _ => false

/-- The form of a header from the kinds of its first tokens. -/
def ForShape.ofKinds : List Token.Kind → ForShape
  | .ident :: .kwIn :: _ => bare
  | .lparen :: .lparen :: rest => if namesThenIn rest then grouped else clauses
  | .lparen :: .ident :: .kwIn :: _ => inParens
  | .lparen :: rest => if namesThenIn rest then outside else clauses
  | _ => clauses

/-- How many tokens decide the form of a header. -/
def forLookahead : Nat := 64

/-- The form of the header at the cursor. -/
def forShape (st : State) : ForShape :=
  .ofKinds (((st.tokens.map (·.kind)).filter (· ≠ .newline)).take forLookahead)

/-- Reports a list of names that is not a key and a value. -/
def checkTargets (pos : Position) (targets : List Ident) : Parse Unit := do
  if targets.length ≠ 2 then
    let start := (targets.head?.map (·.pos)).getD pos
    record (.atPosition (Cause.forTargets targets.length).message start)

/-- The body of a loop over a sequence. -/
def finishForIn (g : Grammar) (pos : Position) (targets : List Ident) (seq : Expr) :
    Parse Stmt := do
  let body ← body g
  return .forIn pos (targets.headD ⟨"_", pos⟩) targets[1]? seq body

/-- The three clauses of a header, each of which may be left out, and the body. -/
def clauses (g : Grammar) (pos : Position) : Parse Stmt := do
  let _ ← expect .lparen "after 'for'"
  let (init, test, post) ← nested do
    let init ← if ← atKind .semicolon then pure none else some <$> simpleStatement g
    let _ ← expect .semicolon "after for init"
    let test ← if ← atKind .semicolon then pure none else some <$> g.expression .lowest
    let _ ← expect .semicolon "after for condition"
    let post ← if ← atKind .rparen then pure none else some <$> simpleStatement g
    let _ ← expect .rparen "after for post"
    return (init, test, post)
  return .forLoop pos init test post (← body g)

/-- The names of a header. -/
def forTargets : Parse (List Ident) := do
  let targets ← commaSeparated (expectIdent "in for-in targets")
  let _ ← expect .rparen "after for-in targets"
  return targets

/-- The sequence of a header, behind the word `in`. -/
def forSequence (g : Grammar) : Parse Expr := do
  let _ ← expect .kwIn "in for loop"
  g.expression .lowest

/-- A `for` loop. -/
def forLoop (g : Grammar) : Parse Stmt := do
  let word ← advance
  match forShape (← get) with
  | .clauses => clauses g word.pos
  | .bare =>
    let key ← expectIdent "after 'for'"
    let seq ← forSequence g
    finishForIn g word.pos [key] seq
  | .inParens =>
    let _ ← expect .lparen "after 'for'"
    let (key, seq) ← nested do
      let key ← expectIdent "after 'for'"
      let seq ← forSequence g
      let _ ← expect .rparen "after for-in header"
      return (key, seq)
    finishForIn g word.pos [key] seq
  | .grouped =>
    let _ ← expect .lparen "after 'for'"
    let (targets, seq) ← nested do
      let _ ← expect .lparen ""
      let targets ← forTargets
      let seq ← forSequence g
      let _ ← expect .rparen "after for-in header"
      return (targets, seq)
    checkTargets word.pos targets
    finishForIn g word.pos targets seq
  | .outside =>
    let _ ← expect .lparen "after 'for'"
    let targets ← nested forTargets
    checkTargets word.pos targets
    let seq ← forSequence g
    finishForIn g word.pos targets seq

/-! ## Switch and try -/

/-- A `switch` statement. -/
def switch (g : Grammar) : Parse Stmt := do
  let word ← advance
  let value ← condition g "switch"
  skipNewlines
  let _ ← expect .lbrace "to open switch body"
  asStatements do
    let (cases, fallback) ← arms "switch"
      (fun word => do
        let values ← caseValues g
        return SwitchCase.mk word.pos values (← body g))
      (body g)
    return .switch word.pos value cases fallback

/-- The handler of a `try` statement. -/
def handler (g : Grammar) : Parse (Option CatchClause) := do
  if !(← get).nextAfterNewlinesIs .kwCatch then return none
  skipNewlines
  let word ← advance
  let name ← if ← eat .lparen then
      nested do
        let name ← expectIdent "in catch clause"
        let _ ← expect .rparen "after catch name"
        return some name
    else pure none
  return some (.mk word.pos name (← body g))

/-- The block that runs at the end of a `try` statement. -/
def finalizer (g : Grammar) : Parse (Option Block) := do
  if !(← get).nextAfterNewlinesIs .kwFinally then return none
  skipNewlines
  let _ ← advance
  return some (← body g)

/-- A `try` statement, which has a handler or a final block. -/
def tryCatch (g : Grammar) : Parse Stmt := do
  let word ← advance
  let body ← body g
  let handler ← handler g
  let finalizer ← finalizer g
  if handler.isNone && finalizer.isNone then return ← fail .noHandler (← current)
  return .tryCatch word.pos body handler finalizer

/-! ## Declarations and jumps -/

/-- A function declaration. -/
def funcStatement (g : Grammar) : Parse Stmt := do
  let word ← advance
  let name ← expectIdent "after 'func'"
  let names ← params
  return .func word.pos name names (← body g)

/-- A `return` with any number of values. -/
def ret (g : Grammar) : Parse Stmt := do
  let word ← advance
  match ← currentKind with
  | .newline | .semicolon | .rbrace | .eof | .kwElse => return .ret word.pos []
  | _ => return .ret word.pos (← commaSeparated (g.expression .lowest))

/-- A `throw` statement. -/
def raise (g : Grammar) : Parse Stmt := do
  let word ← advance
  return .raise word.pos (← g.expression .lowest)

/-- A `defer` statement, which holds a call. -/
def defer (g : Grammar) : Parse Stmt := do
  let word ← advance
  let call ← g.expression .lowest
  if call.isCall then return .defer word.pos call
  fail .notCall word

/-- The name behind the word `as`, if there is one. -/
def asName : Parse (Option Ident) := do
  if ← eat .kwAs then some <$> expectIdent "after 'as'" else return none

/-- The text that names a module. -/
def importPath (context : String) : Parse ImportPath := do
  let token ← expect .str context
  return ⟨token.literal, token.pos⟩

/-- An import of a module under a name. -/
def importAs : Parse Stmt := do
  let word ← advance
  let path ← importPath "after 'import'"
  return .importAs word.pos path (← asName)

/-- An import of names from a module. -/
def importFrom : Parse Stmt := do
  let word ← advance
  let path ← importPath "after 'from'"
  let _ ← expect .kwImport "after module path"
  let items ← commaSeparated do
    let name ← expectIdent "in import list"
    return ImportItem.mk name (← asName)
  return .importFrom word.pos path items

/-- Whether a statement can be exported: a function, or an assignment that is not compound. -/
def isExportable : Stmt → Bool
  | .func .. => true
  | .assign _ _ op _ => !op.isCompound
  | _ => false

/-- An exported statement. -/
def exported (g : Grammar) : Parse Stmt := do
  let word ← advance
  let next ← current
  match next.kind with
  | .newline | .semicolon | .eof => fail (.noStatement "export") next
  | _ =>
    let stmt ← g.statement
    if isExportable stmt then return .exported word.pos stmt
    fail .notExportable word

/-! ## Statements -/

/-- A statement. -/
def statement (g : Grammar) : Parse Stmt := do
  match ← currentKind with
  | .kwFunc => if (← nextKind) = .ident then funcStatement g else simpleStatement g
  | .kwReturn => ret g
  | .kwBreak => return .brk (← advance).pos
  | .kwContinue => return .cont (← advance).pos
  | .kwPass => return .pass (← advance).pos
  | .kwIf => cond g
  | .kwWhile => whileLoop g
  | .kwFor => forLoop g
  | .kwSwitch => switch g
  | .kwTry => tryCatch g
  | .kwThrow => raise g
  | .kwDefer => defer g
  | .kwImport => importAs
  | .kwFrom => importFrom
  | .kwExport => exported g
  | .lbrace => return .block (← block g)
  | .lparen =>
    match ← destructuring g with
    | some stmt => return stmt
    | none => simpleStatement g
  | _ => simpleStatement g

end Welle.Parser
