import Welle.Decimal.Double
import Welle.Operator

set_option autoImplicit false

/-! # Syntax trees

The tree of a program. Every node keeps the position of the token that introduced it: the operator
of a prefix or infix expression, the opening bracket of a call, an index, a slice or a
comprehension, and the dot of a member access. -/

namespace Welle

/-- A name where it is written. -/
structure Ident where
  name : String
  pos : Position
deriving DecidableEq, Repr

/-- The number of characters a diagnostic at the name covers, at least one. -/
def Ident.width (id : Ident) : Nat := max id.name.length 1

/-- The name that stands for a value nobody looks at. -/
def Ident.isDiscard (id : Ident) : Bool := id.name = "_"

/-- A target of a destructuring assignment. At most one is starred. -/
inductive Target where
  | name (id : Ident)
  | discard (pos : Position)
  | starred (id : Ident)
deriving DecidableEq, Repr

/-- The name that a target assigns. -/
def Target.ident? : Target → Option Ident
  | name id | starred id => some id
  | discard _ => none

/-- The text that names an imported module. -/
structure ImportPath where
  value : String
  pos : Position
deriving DecidableEq, Repr

/-- One name of an import list. -/
structure ImportItem where
  name : Ident
  asName : Option Ident
deriving DecidableEq, Repr

/-- The name that an import item is bound to. -/
def ImportItem.bound (item : ImportItem) : Ident := item.asName.getD item.name

mutual

/-- Expressions. A template has one more part than it has expressions. -/
inductive Expr where
  | ident (id : Ident)
  | int (pos : Position) (value : Int)
  | float (pos : Position) (value : Double)
  | str (pos : Position) (value : String)
  | bool (pos : Position) (value : Bool)
  | nil (pos : Position)
  | tuple (pos : Position) (items : List Expr)
  | list (pos : Position) (items : List Expr)
  | dict (pos : Position) (entries : List DictEntry)
  | template (pos : Position) (tag : Option Expr) (parts : List String) (exprs : List Expr)
  | func (pos : Position) (params : List Ident) (body : Block)
  | unary (pos : Position) (op : PrefixOp) (operand : Expr)
  | binary (pos : Position) (op : InfixOp) (left right : Expr)
  | ternary (pos : Position) (cond thenE elseE : Expr)
  | conditional (pos : Position) (thenE cond elseE : Expr)
  | assign (pos : Position) (target : Expr) (op : AssignOp) (value : Expr)
  | spread (pos : Position) (value : Expr)
  | call (pos : Position) (callee : Expr) (args : List Expr)
  | index (pos : Position) (object index : Expr)
  | slice (pos : Position) (object : Expr) (low high step : Option Expr)
  | member (pos : Position) (object : Expr) (name : Ident)
  | comprehension (pos : Position) (elem : Expr) (var : Ident) (seq : Expr) (filter : Option Expr)
  | select (pos : Position) (value : Expr) (arms : List MatchArm) (fallback : Option Expr)

/-- An entry of a dictionary: a key with a value, or a name that is both. -/
inductive DictEntry where
  | pair (key value : Expr)
  | shorthand (id : Ident)

/-- A case of a `match` expression. -/
inductive MatchArm where
  | mk (pos : Position) (values : List Expr) (result : Expr)

/-- Statements between braces; the position is that of the opening brace. -/
inductive Block where
  | mk (pos : Position) (stmts : List Stmt)

/-- A case of a `switch` statement. -/
inductive SwitchCase where
  | mk (pos : Position) (values : List Expr) (body : Block)

/-- The handler of a `try` statement; the position is that of the word `catch`. -/
inductive CatchClause where
  | mk (pos : Position) (name : Option Ident) (body : Block)

/-- Statements. -/
inductive Stmt where
  | expr (pos : Position) (value : Expr)
  | assign (pos : Position) (name : Ident) (op : AssignOp) (value : Expr)
  | indexAssign (pos : Position) (object index : Expr) (op : AssignOp) (value : Expr)
  | memberAssign (pos : Position) (object : Expr) (name : Ident) (op : AssignOp) (value : Expr)
  | destructure (pos : Position) (targets : List Target) (op : AssignOp) (value : Expr)
  | cond (pos : Position) (test : Expr) (thenS : Stmt) (elseS : Option Stmt)
  | whileLoop (pos : Position) (test : Expr) (body : Block)
  | forLoop (pos : Position) (init : Option Stmt) (test : Option Expr) (post : Option Stmt)
      (body : Block)
  | forIn (pos : Position) (key : Ident) (value : Option Ident) (seq : Expr) (body : Block)
  | switch (pos : Position) (value : Expr) (cases : List SwitchCase) (fallback : Option Block)
  | tryCatch (pos : Position) (body : Block) (handler : Option CatchClause)
      (finalizer : Option Block)
  | func (pos : Position) (name : Ident) (params : List Ident) (body : Block)
  | importAs (pos : Position) (path : ImportPath) (asName : Option Ident)
  | importFrom (pos : Position) (path : ImportPath) (items : List ImportItem)
  | exported (pos : Position) (stmt : Stmt)
  | ret (pos : Position) (values : List Expr)
  | brk (pos : Position)
  | cont (pos : Position)
  | pass (pos : Position)
  | raise (pos : Position) (value : Expr)
  | defer (pos : Position) (call : Expr)
  | block (body : Block)

end

/-- The statements of a file. -/
structure Program where
  stmts : List Stmt

/-! ## Views -/

namespace Block

/-- The opening brace of a block. -/
def pos : Block → Position
  | mk pos _ => pos

/-- The statements of a block. -/
def stmts : Block → List Stmt
  | mk _ stmts => stmts

end Block

namespace Expr

/-- The position of the token that introduced an expression. -/
def pos : Expr → Position
  | ident id => id.pos
  | int pos _ | float pos _ | str pos _ | bool pos _ | nil pos | tuple pos _ | list pos _
  | dict pos _ | template pos _ _ _ | func pos _ _ | unary pos _ _ | binary pos _ _ _
  | ternary pos _ _ _ | conditional pos _ _ _ | assign pos _ _ _ | spread pos _ | call pos _ _
  | index pos _ _ | slice pos _ _ _ _ | member pos _ _ | comprehension pos _ _ _ _
  | select pos _ _ _ => pos

/-- The name that an expression consists of. -/
def ident? : Expr → Option Ident
  | ident id => some id
  | _ => none

theorem eq_of_ident? {e : Expr} {id : Ident} (h : e.ident? = some id) : e = ident id := by
  cases e with
  | ident other => rw [Option.some.inj h]
  | _ => cases h

/-- Whether an expression is a call. -/
def isCall : Expr → Bool
  | call .. => true
  | _ => false

/-- The names of the parameters of a function literal. -/
def funcParams? : Expr → Option (List String)
  | func _ params _ => some (params.map (·.name))
  | _ => none

end Expr

namespace Stmt

/-- The position of the token that introduced a statement. -/
def pos : Stmt → Position
  | expr pos _ | assign pos _ _ _ | indexAssign pos _ _ _ _ | memberAssign pos _ _ _ _
  | destructure pos _ _ _ | cond pos _ _ _ | whileLoop pos _ _ | forLoop pos _ _ _ _
  | forIn pos _ _ _ _ | switch pos _ _ _ | tryCatch pos _ _ _ | func pos _ _ _ | importAs pos _ _
  | importFrom pos _ _ | exported pos _ | ret pos _ | brk pos | cont pos | pass pos | raise pos _
  | defer pos _ => pos
  | block body => body.pos

/-- The name that a statement declares for its module, looking through `export`. -/
def declared? : Stmt → Option Ident
  | func _ name _ _ | assign _ name _ _ => some name
  | exported _ stmt => stmt.declared?
  | _ => none

/-- Whether a statement is marked with `export`. -/
def isExport : Stmt → Bool
  | exported .. => true
  | _ => false

end Stmt

end Welle
