import Welle.Tree

set_option autoImplicit false

/-! # Scopes, bindings and references

The results of walking a program: a tree of scopes, the bindings declared in them, and every use of
a name with what it stands for. Scopes and bindings are numbered in the order in which the walk
meets them; scope zero is the file. -/

namespace Welle

/-- The scope of the file. -/
def rootScope : Nat := 0

/-- What a name is bound to. -/
inductive BindingKind where
  | var | param | func | moduleAlias | imported | builtin | keyword
deriving DecidableEq, Repr

/-- The name of a kind of binding. -/
def BindingKind.label : BindingKind → String
  | var => "var"
  | param => "param"
  | func => "func"
  | moduleAlias => "module"
  | imported => "import"
  | builtin => "builtin"
  | keyword => "keyword"

/-- A declared name. A function has parameters; an alias of a module has the text that names the
    module, and an imported name also the name it has there. -/
structure Binding where
  name : String
  kind : BindingKind
  decl : Ident
  scope : Nat
  params : List String
  modulePath : Option String
  member : Option String
deriving DecidableEq, Repr

/-- A scope: the scope around it, the scopes directly inside it, the text it covers, and the names
    bound in it, in the order of their declaration. -/
structure Scope where
  parent : Option Nat
  children : List Nat
  span : Span
  names : List (String × Nat)
deriving DecidableEq, Repr

/-- What a use of a name stands for. -/
inductive Resolution where
  | binding (id : Nat)
  | builtin
  | moduleMember (moduleAlias modulePath member : String)
  | unresolved
deriving DecidableEq, Repr

/-- A use of a name. -/
structure Reference where
  ident : Ident
  resolution : Resolution
deriving DecidableEq, Repr

/-- The binding that a use refers to. -/
def Reference.binding? (r : Reference) : Option Nat :=
  match r.resolution with
  | .binding id => some id
  | _ => none

/-- A numbered tree of scopes. -/
abbrev Scopes := Array Scope

namespace Scopes

/-- A scope and the scopes around it, innermost first. A scope is numbered after the scope around
    it. -/
def chain (scopes : Scopes) (id : Nat) : List Nat :=
  id :: match scopes[id]?.bind (·.parent) with
    | some parent => if parent < id then chain scopes parent else []
    | none => []
termination_by id

/-- The binding of a name in a scope itself. -/
def own? (scopes : Scopes) (id : Nat) (name : String) : Option Nat :=
  scopes[id]?.bind (·.names.lookup name)

/-- The binding of a name that a scope sees: that of the innermost scope that has one. -/
def lookup (scopes : Scopes) (id : Nat) (name : String) : Option Nat :=
  (scopes.chain id).findSome? (scopes.own? · name)

/-- The innermost scope at a position below the scope `id`, found by going down into the first scope
    that contains the position. -/
def descend (scopes : Scopes) (pos : Position) (id : Nat) : Nat :=
  let children := (scopes[id]?.map (·.children)).getD []
  match children.find? fun child => scopes[child]?.any (·.span.contains pos) with
  | some child => if id < child ∧ child < scopes.size then descend scopes pos child else id
  | none => id
termination_by scopes.size - id
decreasing_by omega

end Scopes

end Welle
