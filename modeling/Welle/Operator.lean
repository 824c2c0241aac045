import Welle.Token

set_option autoImplicit false

/-! # Operators

The prefix, infix and assignment operators, the tokens they are written with, and how strongly each
token binds the expression in front of it. -/

namespace Welle

/-! ## Prefix operators -/

/-- The operators in front of an operand. -/
inductive PrefixOp where
  | neg | bang | not | bitNot
deriving DecidableEq, Repr

/-- The operator that a token stands for in front of an operand. -/
def PrefixOp.ofKind? : Token.Kind → Option PrefixOp
  | .minus => some neg
  | .bang => some bang
  | .kwNot => some not
  | .bitNot => some bitNot
  | _ => none

/-- The operator as written; a word is followed by a space. -/
def PrefixOp.text : PrefixOp → String
  | neg => "-"
  | bang => "!"
  | not => "not "
  | bitNot => "~"

/-! ## Infix operators -/

/-- The operators between two operands. -/
inductive InfixOp where
  | add | sub | mul | div | mod | eq | ne | lt | le | gt | ge | and | or | bitOr | bitXor | bitAnd
  | shl | shr | nullish
deriving DecidableEq, Repr

namespace InfixOp

/-- The operator that a token stands for between two operands. -/
def ofKind? : Token.Kind → Option InfixOp
  | .plus => some add
  | .minus => some sub
  | .star => some mul
  | .slash => some div
  | .percent => some mod
  | .eq => some eq
  | .ne => some ne
  | .lt => some lt
  | .le => some le
  | .gt => some gt
  | .ge => some ge
  | .kwAnd => some and
  | .kwOr => some or
  | .bitOr => some bitOr
  | .bitXor => some bitXor
  | .bitAnd => some bitAnd
  | .shl => some shl
  | .shr => some shr
  | .nullish => some nullish
  | _ => none

/-- The operator as written. -/
def text : InfixOp → String
  | add => "+"
  | sub => "-"
  | mul => "*"
  | div => "/"
  | mod => "%"
  | eq => "=="
  | ne => "!="
  | lt => "<"
  | le => "<="
  | gt => ">"
  | ge => ">="
  | and => "and"
  | or => "or"
  | bitOr => "|"
  | bitXor => "^"
  | bitAnd => "&"
  | shl => "<<"
  | shr => ">>"
  | nullish => "??"

/-- The comparisons. -/
def isComparison : InfixOp → Bool
  | eq | ne | lt | le | gt | ge => true
  | _ => false

/-- The operators that may leave their right operand unevaluated. -/
def isLogic : InfixOp → Bool
  | and | or | nullish => true
  | _ => false

end InfixOp

/-! ## Assignment operators -/

/-- Plain assignment, declaration in the current scope, and the compound forms. -/
inductive AssignOp where
  | assign | walrus | add | sub | mul | div | mod | bitOr
deriving DecidableEq, Repr

namespace AssignOp

/-- The assignment that a token stands for. -/
def ofKind? : Token.Kind → Option AssignOp
  | .assign => some assign
  | .walrus => some walrus
  | .plusAssign => some add
  | .minusAssign => some sub
  | .starAssign => some mul
  | .slashAssign => some div
  | .percentAssign => some mod
  | .bitOrAssign => some bitOr
  | _ => none

/-- The operator as written. -/
def text : AssignOp → String
  | assign => "="
  | walrus => ":="
  | add => "+="
  | sub => "-="
  | mul => "*="
  | div => "/="
  | mod => "%="
  | bitOr => "|="

/-- The operator that a compound assignment applies to the old value. -/
def infixOp? : AssignOp → Option InfixOp
  | add => some .add
  | sub => some .sub
  | mul => some .mul
  | div => some .div
  | mod => some .mod
  | bitOr => some .bitOr
  | assign | walrus => none

/-- Compound assignments read their target before they write it. -/
def isCompound (op : AssignOp) : Bool := op.infixOp?.isSome

end AssignOp

/-! ## Binding power -/

/-- How strongly an operator binds, weakest first. -/
inductive Precedence where
  | lowest | assign | nullish | ternary | or | and | bitOr | bitXor | bitAnd | equals | lessGreater
  | shift | sum | product | prefixOp | postfixOp
deriving DecidableEq, Repr

namespace Precedence

/-- The place in the order of binding power. -/
def level (p : Precedence) : Nat := p.ctorIdx

instance : LE Precedence := ⟨fun p q => p.level ≤ q.level⟩

instance (p q : Precedence) : Decidable (p ≤ q) := inferInstanceAs (Decidable (p.level ≤ q.level))

/-- The next weaker level, at which the right operand of a right-associative operator is read. -/
def weaker : Precedence → Precedence
  | lowest | assign => lowest
  | nullish => assign
  | ternary => nullish
  | or => ternary
  | and => or
  | bitOr => and
  | bitXor => bitOr
  | bitAnd => bitXor
  | equals => bitAnd
  | lessGreater => equals
  | shift => lessGreater
  | sum => shift
  | product => sum
  | prefixOp => product
  | postfixOp => prefixOp

/-- How strongly a token binds the expression in front of it, if it continues one. -/
def ofKind? : Token.Kind → Option Precedence
  | .assign | .walrus | .plusAssign | .minusAssign | .starAssign | .slashAssign | .percentAssign
  | .bitOrAssign => some assign
  | .nullish => some nullish
  | .question | .kwIf => some ternary
  | .kwOr => some or
  | .kwAnd => some and
  | .bitOr => some bitOr
  | .bitXor => some bitXor
  | .bitAnd => some bitAnd
  | .eq | .ne => some equals
  | .lt | .le | .gt | .ge => some lessGreater
  | .shl | .shr => some shift
  | .plus | .minus => some sum
  | .star | .slash | .percent => some product
  | .lparen | .lbracket | .dot | .template => some postfixOp
  | _ => none

end Precedence

end Welle
