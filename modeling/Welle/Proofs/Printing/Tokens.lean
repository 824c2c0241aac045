import Welle.Parser.Statement
import Welle.Proofs.Embedding
import Welle.Proofs.Printing.Lexing
import Welle.Proofs.Printing.Nodes

set_option autoImplicit false

/-! # The tokens of printed trees

`tokens` says which tokens an expression or a statement is printed with, and `Node.Printable` for
which of them the printed text is read as these tokens and the tokens as the tree: names have to be
names, a number has to be printed as itself, the source of an interpolation must fit into a template,
and lists that the grammar wants to have members must have some. -/

namespace Welle

open Token (Shape mark lex shape Apart)

/-! ## Printable trees -/

/-- The text of a name. -/
structure Token.IsName (name : String) : Prop where
  word : IsWordText name.toList
  kind : Kind.ofWord name = .ident

/-- The expression that an argument of a call passes on, spread or not. -/
def Expr.passed : Expr → Expr
  | .spread _ value => value
  | e => e

/-- A target is spelled as its tokens are. The discarded value has a target of its own. -/
def Target.Printable : Target → Prop
  | name id => Token.IsName id.name ∧ id.isDiscard = false
  | discard _ => True
  | starred id => Token.IsName id.name

/-- Both names of an import item are names. -/
structure ImportItem.Printable (item : ImportItem) : Prop where
  name : Token.IsName item.name.name
  asName : ∀ id ∈ item.asName, Token.IsName id.name

/-- Whether a statement can be a clause in the header of a loop: an expression or an assignment. -/
def Stmt.isSimple : Stmt → Bool
  | .expr .. | .assign .. | .indexAssign .. | .memberAssign .. => true
  | _ => false

/-- An expression or a statement whose parts are spelled as tokens are, and of a form that the grammar
    has. -/
inductive Node.Printable : Node → Prop
  | ident {id : Ident} : Token.IsName id.name → Printable (.expr (.ident id))
  | int {pos : Position} {n : Nat} : n < 2 ^ 63 → Printable (.expr (.int pos n))
  | float {pos : Position} {value : Double} :
      Numeral.PrintsExactly value → Printable (.expr (.float pos value))
  | str {pos : Position} {value : String} : Printable (.expr (.str pos value))
  | bool {pos : Position} {value : Bool} : Printable (.expr (.bool pos value))
  | nil {pos : Position} : Printable (.expr (.nil pos))
  | tuple {pos : Position} {items : List Expr} :
      (∀ e ∈ items, Printable (.expr e)) → Printable (.expr (.tuple pos items))
  | list {pos : Position} {items : List Expr} :
      (∀ e ∈ items, Printable (.expr e)) → Printable (.expr (.list pos items))
  | dict {pos : Position} {entries : List DictEntry} :
      (∀ id, .shorthand id ∈ entries → Token.IsName id.name) →
      (∀ key value, .pair key value ∈ entries → Printable (.expr key)) →
      (∀ key value, .pair key value ∈ entries → Printable (.expr value)) →
      Printable (.expr (.dict pos entries))
  | template {pos : Position} {tag : Option Expr} {parts : List String} {exprs : List Expr} :
      parts.length = exprs.length + 1 → (∀ e ∈ tag, Parser.isTag e = true) →
      (∀ e ∈ exprs, Template.Embeds e.render) → (∀ e ∈ tag, Printable (.expr e)) →
      (∀ e ∈ exprs, Printable (.expr e)) → Printable (.expr (.template pos tag parts exprs))
  | func {pos : Position} {params : List Ident} {body : Block} :
      (∀ id ∈ params, Token.IsName id.name) → (∀ s ∈ body.stmts, Printable (.stmt s)) →
      Printable (.expr (.func pos params body))
  | unary {pos : Position} {op : PrefixOp} {operand : Expr} :
      Printable (.expr operand) → Printable (.expr (.unary pos op operand))
  | binary {pos : Position} {op : InfixOp} {left right : Expr} :
      Printable (.expr left) → Printable (.expr right) → Printable (.expr (.binary pos op left right))
  | ternary {pos : Position} {cond thenE elseE : Expr} :
      Printable (.expr cond) → Printable (.expr thenE) → Printable (.expr elseE) →
      Printable (.expr (.ternary pos cond thenE elseE))
  | conditional {pos : Position} {thenE cond elseE : Expr} :
      Printable (.expr thenE) → Printable (.expr cond) → Printable (.expr elseE) →
      Printable (.expr (.conditional pos thenE cond elseE))
  | assign {pos : Position} {target : Expr} {op : AssignOp} {value : Expr} :
      Parser.isAssignable op target = true → Printable (.expr target) → Printable (.expr value) →
      Printable (.expr (.assign pos target op value))
  | call {pos : Position} {callee : Expr} {args : List Expr} :
      Printable (.expr callee) → (∀ e ∈ args, Printable (.expr e.passed)) →
      Printable (.expr (.call pos callee args))
  | index {pos : Position} {object index : Expr} :
      Printable (.expr object) → Printable (.expr index) → Printable (.expr (.index pos object index))
  | slice {pos : Position} {object : Expr} {low high step : Option Expr} :
      Printable (.expr object) → (∀ e ∈ low, Printable (.expr e)) →
      (∀ e ∈ high, Printable (.expr e)) → (∀ e ∈ step, Printable (.expr e)) →
      Printable (.expr (.slice pos object low high step))
  | member {pos : Position} {object : Expr} {name : Ident} :
      Token.IsWordText name.name.toList → Printable (.expr object) →
      Printable (.expr (.member pos object name))
  | comprehension {pos : Position} {elem : Expr} {var : Ident} {seq : Expr} {filter : Option Expr} :
      Token.IsName var.name → Printable (.expr elem) → Printable (.expr seq) →
      (∀ e ∈ filter, Printable (.expr e)) →
      Printable (.expr (.comprehension pos elem var seq filter))
  | select {pos : Position} {value : Expr} {arms : List MatchArm} {fallback : Option Expr} :
      Printable (.expr value) →
      (∀ pos values result, .mk pos values result ∈ arms → values ≠ []) →
      (∀ pos values result, .mk pos values result ∈ arms → ∀ e ∈ values, Printable (.expr e)) →
      (∀ pos values result, .mk pos values result ∈ arms → Printable (.expr result)) →
      (∀ e ∈ fallback, Printable (.expr e)) → Printable (.expr (.select pos value arms fallback))
  | simple {pos : Position} {value : Expr} :
      Parser.toStmt pos value = .expr pos value → Printable (.expr value) →
      Printable (.stmt (.expr pos value))
  | assignStmt {pos : Position} {name : Ident} {op : AssignOp} {value : Expr} :
      Token.IsName name.name → Printable (.expr value) → Printable (.stmt (.assign pos name op value))
  | indexAssign {pos : Position} {object index : Expr} {op : AssignOp} {value : Expr} :
      op ≠ .walrus → Printable (.expr object) → Printable (.expr index) → Printable (.expr value) →
      Printable (.stmt (.indexAssign pos object index op value))
  | memberAssign {pos : Position} {object : Expr} {name : Ident} {op : AssignOp} {value : Expr} :
      op ≠ .walrus → Token.IsWordText name.name.toList → Printable (.expr object) →
      Printable (.expr value) → Printable (.stmt (.memberAssign pos object name op value))
  | destructure {pos : Position} {targets : List Target} {op : AssignOp} {value : Expr} :
      targets ≠ [] → (targets.filter (·.isStarred)).length ≤ 1 → op.isCompound = false →
      (∀ target ∈ targets, target.Printable) → Printable (.expr value) →
      Printable (.stmt (.destructure pos targets op value))
  | cond {pos : Position} {test : Expr} {thenS : Stmt} {elseS : Option Stmt} :
      (elseS.isSome = true → thenS.endsOpen = false) → Printable (.expr test) →
      Printable (.stmt thenS) → (∀ s ∈ elseS, Printable (.stmt s)) →
      Printable (.stmt (.cond pos test thenS elseS))
  | whileLoop {pos : Position} {test : Expr} {body : Block} :
      Printable (.expr test) → (∀ s ∈ body.stmts, Printable (.stmt s)) →
      Printable (.stmt (.whileLoop pos test body))
  | forLoop {pos : Position} {init : Option Stmt} {test : Option Expr} {post : Option Stmt}
      {body : Block} :
      (∀ s ∈ init, s.isSimple = true) → (∀ s ∈ post, s.isSimple = true) →
      (∀ s ∈ init, Printable (.stmt s)) → (∀ e ∈ test, Printable (.expr e)) →
      (∀ s ∈ post, Printable (.stmt s)) → (∀ s ∈ body.stmts, Printable (.stmt s)) →
      Printable (.stmt (.forLoop pos init test post body))
  | forIn {pos : Position} {key : Ident} {value : Option Ident} {seq : Expr} {body : Block} :
      Token.IsName key.name → (∀ id ∈ value, Token.IsName id.name) → Printable (.expr seq) →
      (∀ s ∈ body.stmts, Printable (.stmt s)) → Printable (.stmt (.forIn pos key value seq body))
  | switch {pos : Position} {value : Expr} {cases : List SwitchCase} {fallback : Option Block} :
      Printable (.expr value) →
      (∀ pos values body, .mk pos values body ∈ cases → values ≠ []) →
      (∀ pos values body, .mk pos values body ∈ cases → ∀ e ∈ values, Printable (.expr e)) →
      (∀ pos values body, .mk pos values body ∈ cases → ∀ s ∈ body.stmts, Printable (.stmt s)) →
      (∀ body ∈ fallback, ∀ s ∈ body.stmts, Printable (.stmt s)) →
      Printable (.stmt (.switch pos value cases fallback))
  | tryCatch {pos : Position} {body : Block} {handler : Option CatchClause}
      {finalizer : Option Block} :
      (handler.isSome || finalizer.isSome) = true →
      (∀ pos name body, .mk pos name body ∈ handler → ∀ id ∈ name, Token.IsName id.name) →
      (∀ s ∈ body.stmts, Printable (.stmt s)) →
      (∀ pos name body, .mk pos name body ∈ handler → ∀ s ∈ body.stmts, Printable (.stmt s)) →
      (∀ body ∈ finalizer, ∀ s ∈ body.stmts, Printable (.stmt s)) →
      Printable (.stmt (.tryCatch pos body handler finalizer))
  | funcStmt {pos : Position} {name : Ident} {params : List Ident} {body : Block} :
      Token.IsName name.name → (∀ id ∈ params, Token.IsName id.name) →
      (∀ s ∈ body.stmts, Printable (.stmt s)) → Printable (.stmt (.func pos name params body))
  | importAs {pos : Position} {path : ImportPath} {asName : Option Ident} :
      (∀ id ∈ asName, Token.IsName id.name) → Printable (.stmt (.importAs pos path asName))
  | importFrom {pos : Position} {path : ImportPath} {items : List ImportItem} :
      items ≠ [] → (∀ item ∈ items, item.Printable) → Printable (.stmt (.importFrom pos path items))
  | exported {pos : Position} {stmt : Stmt} :
      Parser.isExportable stmt = true → Printable (.stmt stmt) → Printable (.stmt (.exported pos stmt))
  | ret {pos : Position} {values : List Expr} :
      (∀ e ∈ values, Printable (.expr e)) → Printable (.stmt (.ret pos values))
  | brk {pos : Position} : Printable (.stmt (.brk pos))
  | cont {pos : Position} : Printable (.stmt (.cont pos))
  | pass {pos : Position} : Printable (.stmt (.pass pos))
  | raise {pos : Position} {value : Expr} :
      Printable (.expr value) → Printable (.stmt (.raise pos value))
  | defer {pos : Position} {call : Expr} :
      call.isCall = true → Printable (.expr call) → Printable (.stmt (.defer pos call))
  | blockStmt {body : Block} :
      (∀ s ∈ body.stmts, Printable (.stmt s)) → Printable (.stmt (.block body))

/-- An expression that is printable. -/
abbrev Expr.Printable (e : Expr) : Prop := Node.Printable (.expr e)

/-- A statement that is printable. -/
abbrev Stmt.Printable (s : Stmt) : Prop := Node.Printable (.stmt s)

/-! ## Their tokens -/

namespace Token

/-- Groups of tokens, each behind a comma. -/
def further (groups : List (List Shape)) : List Shape := groups.flatMap (mark .comma :: ·)

/-- Groups of tokens with commas between them. -/
def commas : List (List Shape) → List Shape
  | [] => []
  | group :: groups => group ++ further groups

/-- The tokens between the parentheses of a tuple. One of a single item has a comma behind it. -/
def tupleTokens : List (List Shape) → List Shape
  | [item] => item ++ [mark .comma]
  | items => commas items

/-- The token of a name. -/
def nameToken (id : Ident) : Shape := (.ident, id.name)

/-- The tokens of a parameter list. -/
def paramTokens (params : List Ident) : List Shape :=
  mark .lparen :: (commas (params.map fun id => [nameToken id]) ++ [mark .rparen])

/-- The tokens of a name behind the word `as`, if there is one. -/
def asTokens : Option Ident → List Shape
  | some id => [mark .kwAs, nameToken id]
  | none => []

/-- The tokens of the name of a caught value, if there is one. -/
def caughtTokens : Option Ident → List Shape
  | some id => [mark .lparen, nameToken id, mark .rparen]
  | none => []

/-- The tokens of the variables of a loop over a sequence. -/
def loopTokens (key : Ident) : Option Ident → List Shape
  | some value => [mark .lparen, nameToken key, mark .comma, nameToken value, mark .rparen]
  | none => [nameToken key]

/-- The tokens of a block of the given statements, which have semicolons between them. -/
def blockTokens : List (List Shape) → List Shape
  | [] => [mark .lbrace, mark .rbrace]
  | stmt :: stmts =>
    mark .lbrace :: (stmt ++ (stmts.flatMap (mark .semicolon :: ·) ++ [mark .rbrace]))

end Token

/-- The tokens of a target. -/
def Target.tokens : Target → List Shape
  | name id => [Token.nameToken id]
  | discard _ => [(.ident, "_")]
  | starred id => [mark .star, Token.nameToken id]

/-- The tokens of an import item. -/
def ImportItem.tokens (item : ImportItem) : List Shape :=
  Token.nameToken item.name :: Token.asTokens item.asName

open Token in
mutual

/-- The tokens that an expression is printed with. -/
def Expr.tokens : Expr → List Shape
  | .ident id => [(.ident, id.name)]
  | .int _ value => [(.int, toString value)]
  | .float _ value => [(.float, Numeral.writeFloat value)]
  | .str _ value => [(.str, value)]
  | .bool _ value => [mark (if value then .kwTrue else .kwFalse)]
  | .nil _ => [mark .kwNil]
  | .tuple _ items => mark .lparen :: (tupleTokens (Expr.listTokens items) ++ [mark .rparen])
  | .list _ items => mark .lbracket :: (commas (Expr.listTokens items) ++ [mark .rbracket])
  | .dict _ entries =>
    mark .hash :: mark .lbrace :: (commas (DictEntry.listTokens entries) ++ [mark .rbrace])
  | .template _ tag parts exprs =>
    Expr.tokensBetween [] [] tag
      ++ [(.template, Literal.templateBody parts (Expr.renderAll exprs))]
  | .func _ params body => mark .kwFunc :: (paramTokens params ++ body.tokens)
  | .unary _ op operand => mark .lparen :: mark op.kind :: (operand.tokens ++ [mark .rparen])
  | .binary _ op left right =>
    mark .lparen :: (left.tokens ++ (mark op.kind :: (right.tokens ++ [mark .rparen])))
  | .ternary _ cond thenE elseE =>
    mark .lparen :: (cond.tokens ++ (mark .question :: (thenE.tokens
      ++ (mark .colon :: (elseE.tokens ++ [mark .rparen])))))
  | .conditional _ thenE cond elseE =>
    mark .lparen :: (thenE.tokens ++ (mark .kwIf :: (cond.tokens
      ++ (mark .kwElse :: (elseE.tokens ++ [mark .rparen])))))
  | .assign _ target op value =>
    mark .lparen :: (target.tokens ++ (mark op.kind :: (value.tokens ++ [mark .rparen])))
  | .spread _ value => mark .ellipsis :: value.tokens
  | .call _ callee args =>
    callee.tokens ++ (mark .lparen :: (commas (Expr.listTokens args) ++ [mark .rparen]))
  | .index _ object index =>
    mark .lparen :: (object.tokens ++ (mark .lbracket :: (index.tokens
      ++ [mark .rbracket, mark .rparen])))
  | .slice _ object low high step =>
    mark .lparen :: (object.tokens ++ (mark .lbracket :: (Expr.tokensBetween [] [] low
      ++ (mark .colon :: (Expr.tokensBetween [] [] high
        ++ (Expr.tokensBetween [mark .colon] [] step ++ [mark .rbracket, mark .rparen]))))))
  | .member _ object name => object.tokens ++ [mark .dot, (Kind.ofWord name.name, name.name)]
  | .comprehension _ elem var seq filter =>
    mark .lbracket :: (elem.tokens ++ (mark .kwFor :: (.ident, var.name) :: mark .kwIn ::
      (seq.tokens ++ (Expr.tokensBetween [mark .kwIf] [] filter ++ [mark .rbracket]))))
  | .select _ value arms fallback =>
    mark .kwMatch :: mark .lparen :: (value.tokens ++ (mark .rparen :: mark .lbrace ::
      (MatchArm.listTokens arms
        ++ (Expr.tokensBetween [mark .kwDefault, mark .lbrace] [mark .rbrace] fallback
          ++ [mark .rbrace]))))

/-- The tokens that expressions are printed with, each on its own. -/
def Expr.listTokens : List Expr → List (List Shape)
  | [] => []
  | e :: es => e.tokens :: Expr.listTokens es

/-- The tokens of an expression between other ones, or none where it is missing. -/
def Expr.tokensBetween (before behind : List Shape) : Option Expr → List Shape
  | none => []
  | some e => before ++ (e.tokens ++ behind)

/-- The tokens that a dictionary entry is printed with. -/
def DictEntry.tokens : DictEntry → List Shape
  | .pair key value => key.tokens ++ (mark .colon :: value.tokens)
  | .shorthand id => [(.ident, id.name)]

/-- The tokens that dictionary entries are printed with, each on its own. -/
def DictEntry.listTokens : List DictEntry → List (List Shape)
  | [] => []
  | e :: es => e.tokens :: DictEntry.listTokens es

/-- The tokens that a case of a `match` expression is printed with. -/
def MatchArm.tokens : MatchArm → List Shape
  | .mk _ values result =>
    mark .kwCase :: (commas (Expr.listTokens values)
      ++ (mark .lbrace :: (result.tokens ++ [mark .rbrace])))

/-- The tokens that the cases of a `match` expression are printed with. -/
def MatchArm.listTokens : List MatchArm → List Shape
  | [] => []
  | arm :: arms => arm.tokens ++ MatchArm.listTokens arms

/-- The tokens that a block is printed with. -/
def Block.tokens : Block → List Shape
  | .mk _ stmts => blockTokens (Stmt.listTokens stmts)

/-- The tokens of a block behind other ones, or none where it is missing. -/
def Block.tokensBehind (before : List Shape) : Option Block → List Shape
  | none => []
  | some body => before ++ body.tokens

/-- The tokens that a case of a `switch` statement is printed with. -/
def SwitchCase.tokens : SwitchCase → List Shape
  | .mk _ values body => mark .kwCase :: (commas (Expr.listTokens values) ++ body.tokens)

/-- The tokens that the cases of a `switch` statement are printed with. -/
def SwitchCase.listTokens : List SwitchCase → List Shape
  | [] => []
  | c :: cs => c.tokens ++ SwitchCase.listTokens cs

/-- The tokens that a handler is printed with. -/
def CatchClause.tokens : CatchClause → List Shape
  | .mk _ name body => mark .kwCatch :: (caughtTokens name ++ body.tokens)

/-- The tokens that a handler is printed with, or none where it is missing. -/
def CatchClause.optionTokens : Option CatchClause → List Shape
  | none => []
  | some handler => handler.tokens

/-- The tokens that a statement is printed with. -/
def Stmt.tokens : Stmt → List Shape
  | .expr _ value => value.tokens
  | .assign _ name op value => nameToken name :: mark op.kind :: value.tokens
  | .indexAssign _ object index op value =>
    object.tokens ++ (mark .lbracket :: (index.tokens
      ++ (mark .rbracket :: mark op.kind :: value.tokens)))
  | .memberAssign _ object name op value =>
    object.tokens
      ++ (mark .dot :: (Kind.ofWord name.name, name.name) :: mark op.kind :: value.tokens)
  | .destructure _ targets op value =>
    mark .lparen :: (commas (targets.map Target.tokens)
      ++ (mark .rparen :: mark op.kind :: value.tokens))
  | .cond _ test thenS elseS =>
    mark .kwIf :: mark .lparen :: (test.tokens ++ (mark .rparen :: (thenS.tokens
      ++ Stmt.tokensBehind [mark .kwElse] elseS)))
  | .whileLoop _ test body =>
    mark .kwWhile :: mark .lparen :: (test.tokens ++ (mark .rparen :: body.tokens))
  | .forLoop _ init test post body =>
    mark .kwFor :: mark .lparen :: (Stmt.tokensBehind [] init
      ++ (mark .semicolon :: (Expr.tokensBetween [] [] test
        ++ (mark .semicolon :: (Stmt.tokensBehind [] post ++ (mark .rparen :: body.tokens))))))
  | .forIn _ key value seq body =>
    mark .kwFor :: mark .lparen :: (loopTokens key value
      ++ (mark .kwIn :: (seq.tokens ++ (mark .rparen :: body.tokens))))
  | .switch _ value cases fallback =>
    mark .kwSwitch :: mark .lparen :: (value.tokens ++ (mark .rparen :: mark .lbrace ::
      (SwitchCase.listTokens cases ++ (Block.tokensBehind [mark .kwDefault] fallback
        ++ [mark .rbrace]))))
  | .tryCatch _ body handler finalizer =>
    mark .kwTry :: (body.tokens ++ (CatchClause.optionTokens handler
      ++ Block.tokensBehind [mark .kwFinally] finalizer))
  | .func _ name params body =>
    mark .kwFunc :: nameToken name :: (paramTokens params ++ body.tokens)
  | .importAs _ path asName => mark .kwImport :: (.str, path.value) :: asTokens asName
  | .importFrom _ path items =>
    mark .kwFrom :: (.str, path.value) :: mark .kwImport :: commas (items.map ImportItem.tokens)
  | .exported _ stmt => mark .kwExport :: stmt.tokens
  | .ret _ values => mark .kwReturn :: commas (Expr.listTokens values)
  | .brk _ => [mark .kwBreak]
  | .cont _ => [mark .kwContinue]
  | .pass _ => [mark .kwPass]
  | .raise _ value => mark .kwThrow :: value.tokens
  | .defer _ call => mark .kwDefer :: call.tokens
  | .block body => body.tokens

/-- The tokens that statements are printed with, each on its own. -/
def Stmt.listTokens : List Stmt → List (List Shape)
  | [] => []
  | s :: ss => s.tokens :: Stmt.listTokens ss

/-- The tokens of a statement behind other ones, or none where it is missing. -/
def Stmt.tokensBehind (before : List Shape) : Option Stmt → List Shape
  | none => []
  | some s => before ++ s.tokens

end

@[simp] theorem Expr.listTokens_eq (es : List Expr) : Expr.listTokens es = es.map Expr.tokens := by
  induction es with
  | nil => rfl
  | cons e es ih => rw [Expr.listTokens, ih, List.map_cons]

@[simp] theorem DictEntry.listTokens_eq (entries : List DictEntry) :
    DictEntry.listTokens entries = entries.map DictEntry.tokens := by
  induction entries with
  | nil => rfl
  | cons e entries ih => rw [DictEntry.listTokens, ih, List.map_cons]

@[simp] theorem MatchArm.listTokens_eq (arms : List MatchArm) :
    MatchArm.listTokens arms = arms.flatMap MatchArm.tokens := by
  induction arms with
  | nil => rfl
  | cons arm arms ih => rw [MatchArm.listTokens, ih, List.flatMap_cons]

@[simp] theorem Block.tokens_eq (body : Block) :
    body.tokens = Token.blockTokens (body.stmts.map Stmt.tokens) := by
  obtain ⟨pos, stmts⟩ := body
  rw [Block.tokens, Block.stmts]
  congr 1
  induction stmts with
  | nil => rfl
  | cons s stmts ih => rw [Stmt.listTokens, ih, List.map_cons]

@[simp] theorem SwitchCase.listTokens_eq (cases : List SwitchCase) :
    SwitchCase.listTokens cases = cases.flatMap SwitchCase.tokens := by
  induction cases with
  | nil => rfl
  | cons c cases ih => rw [SwitchCase.listTokens, ih, List.flatMap_cons]

/-! ## Where expressions start -/

namespace Token

/-- The tokens that a printed expression can start with. -/
def Kind.isOperandStart : Kind → Bool
  | .ident | .int | .float | .str | .template | .kwTrue | .kwFalse | .kwNil | .lparen | .lbracket
  | .hash | .kwFunc | .kwMatch => true
  | _ => false

/-- Tokens start with an operand. A name that they start with stands alone, or a call, a member or a
    template follows; behind the word `func` there is a parameter list. -/
def Starts (ss : List Shape) : Prop :=
  ∃ s rest, ss = s :: rest ∧ s.1.isOperandStart = true
    ∧ (s.1 = .ident → ∀ next ∈ rest.head?, next.1 = .lparen ∨ next.1 = .dot ∨ next.1 = .template)
    ∧ (s.1 = .kwFunc → ∃ next ∈ rest.head?, next.1 = .lparen)

theorem Starts.append {ss : List Shape} (h : Starts ss) {next : Shape}
    (hnext : next.1 = .lparen ∨ next.1 = .dot ∨ next.1 = .template) (rest : List Shape) :
    Starts (ss ++ next :: rest) := by
  obtain ⟨s, tail, rfl, hs, hname, hfunc⟩ := h
  refine ⟨s, tail ++ next :: rest, rfl, hs, fun hident => ?_, fun hkind => ?_⟩
  · cases tail with
    | nil =>
      intro t ht
      rwa [← Option.some.inj ht]
    | cons t tail => exact hname hident
  · obtain ⟨t, ht, hparen⟩ := hfunc hkind
    obtain ⟨tail, rfl⟩ := List.head?_eq_some_iff.1 ht
    exact ⟨t, rfl, hparen⟩

theorem starts_mark {kind : Kind} (h : kind.isOperandStart = true)
    (hplain : kind ≠ .ident ∧ kind ≠ .kwFunc) (rest : List Shape) : Starts (mark kind :: rest) :=
  ⟨mark kind, rest, rfl, h, fun heq => absurd heq hplain.1, fun heq => absurd heq hplain.2⟩

theorem starts_singleton {s : Shape} (h : s.1.isOperandStart = true) (hfunc : s.1 ≠ .kwFunc) :
    Starts [s] :=
  ⟨s, [], rfl, h, fun _ _ hnext => (by cases hnext), fun heq => absurd heq hfunc⟩

end Token

/-- What the node of a tree starts with if it is an expression. -/
def Node.Starts : Node → Prop
  | .expr e => Token.Starts e.tokens
  | .stmt _ => True

open Token in
theorem Node.Printable.starts {n : Node} (h : n.Printable) : n.Starts := by
  induction h with
  | ident _ => exact starts_singleton rfl nofun
  | int _ => exact starts_singleton rfl nofun
  | float _ => exact starts_singleton rfl nofun
  | str => exact starts_singleton rfl nofun
  | @bool _ value => cases value <;> exact starts_singleton rfl nofun
  | nil => exact starts_singleton rfl nofun
  | @template _ tag _ _ _ _ _ _ _ ih _ =>
    cases tag with
    | none => exact starts_singleton rfl nofun
    | some e =>
      have htag : Token.Starts e.tokens := ih e rfl
      simp only [Node.Starts, Expr.tokens, Expr.tokensBetween, List.nil_append, List.append_nil]
      exact htag.append (.inr (.inr rfl)) []
  | func _ _ => exact ⟨_, _, rfl, rfl, fun heq => (by cases heq), fun _ => ⟨mark .lparen, rfl, rfl⟩⟩
  | call _ _ ih _ => exact Token.Starts.append ih (.inl rfl) _
  | member _ _ ih => exact Token.Starts.append ih (.inr (.inl rfl)) _
  | tuple | list | dict | unary | binary | ternary | conditional | assign | index | slice
  | comprehension | select => exact starts_mark rfl (by decide) _
  | _ => trivial

/-- A printable expression starts with an operand. -/
theorem Expr.Printable.starts {e : Expr} (h : e.Printable) : Token.Starts e.tokens :=
  Node.Printable.starts h

end Welle
