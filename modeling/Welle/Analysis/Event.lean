import Welle.Tree

set_option autoImplicit false

/-! # What a program does to scopes

A program, read from the front, enters and leaves scopes, declares names and uses names. `events`
lists these steps; it is the only place that knows which construct opens a scope and in which order
its parts count. -/

namespace Welle

/-- One step. A scope reaches from `start` to the bracket that closes the one at `opening`. -/
inductive Event where
  | enter (start opening : Position)
  | leave
  | use (id : Ident)
  | assign (name : Ident) (op : AssignOp) (params : Option (List String))
  | param (id : Ident)
  | bind (id : Ident)
  | func (name : Ident) (params : List String)
  | importModule (name : Ident) (path : String)
  | importMember (name : Ident) (path member : String)
  | member (base name : Ident)
deriving DecidableEq, Repr

namespace Event

/-- The steps of a scope with the given contents. -/
def inScope (start opening : Position) (inner : List Event) : List Event :=
  .enter start opening :: (inner ++ [.leave])

/-- The steps of a function: its parameters belong to the scope of its body. -/
def function (start : Position) (params : List Ident) (opening : Position) (body : List Event) :
    List Event :=
  inScope start opening (params.map .param ++ body)

/-- The steps of a destructuring target. -/
def ofTarget (op : AssignOp) (target : Target) : List Event :=
  target.ident?.toList.map fun id => .assign id op none

/-- The step of an imported name. -/
def ofItem (path : ImportPath) (item : ImportItem) : Event :=
  .importMember item.bound path.value item.name.name

end Event

mutual

/-- The steps of an expression. -/
def Expr.events : Expr → List Event
  | .ident id => [.use id]
  | .int .. | .float .. | .str .. | .bool .. | .nil .. => []
  | .tuple _ items | .list _ items => Expr.listEvents items
  | .dict _ entries => DictEntry.listEvents entries
  | .template _ tag _ exprs => Expr.optionEvents tag ++ Expr.listEvents exprs
  | .func pos params body => Event.function pos params body.pos body.inner
  | .unary _ _ operand => operand.events
  | .binary _ _ left right => left.events ++ right.events
  | .ternary _ cond thenE elseE => cond.events ++ thenE.events ++ elseE.events
  | .conditional _ thenE cond elseE => thenE.events ++ cond.events ++ elseE.events
  | .assign _ target op value =>
    (match target.ident? with
      | some name => [.assign name op value.funcParams?]
      | none => target.events) ++ value.events
  | .spread _ value => value.events
  | .call _ callee args => callee.events ++ Expr.listEvents args
  | .index _ object index => object.events ++ index.events
  | .slice _ object low high step =>
    object.events ++ Expr.optionEvents low ++ Expr.optionEvents high ++ Expr.optionEvents step
  | .member _ object name =>
    match object.ident? with
    | some base => [.member base name]
    | none => object.events
  | .comprehension pos elem var seq filter =>
    seq.events ++ Event.inScope pos pos ([.bind var] ++ Expr.optionEvents filter ++ elem.events)
  | .select _ value arms fallback =>
    value.events ++ MatchArm.listEvents arms ++ Expr.optionEvents fallback

/-- The steps of expressions, one after the other. -/
def Expr.listEvents : List Expr → List Event
  | [] => []
  | e :: es => e.events ++ Expr.listEvents es

/-- The steps of an expression that may be missing. -/
def Expr.optionEvents : Option Expr → List Event
  | none => []
  | some e => e.events

/-- The steps of a dictionary entry. -/
def DictEntry.events : DictEntry → List Event
  | .pair key value => key.events ++ value.events
  | .shorthand id => [.use id]

/-- The steps of dictionary entries, one after the other. -/
def DictEntry.listEvents : List DictEntry → List Event
  | [] => []
  | e :: es => e.events ++ DictEntry.listEvents es

/-- The steps of a case of a `match` expression. -/
def MatchArm.events : MatchArm → List Event
  | .mk _ values result => Expr.listEvents values ++ result.events

/-- The steps of the cases of a `match` expression. -/
def MatchArm.listEvents : List MatchArm → List Event
  | [] => []
  | arm :: arms => arm.events ++ MatchArm.listEvents arms

/-- The steps of the statements of a block, without its scope. -/
def Block.inner : Block → List Event
  | .mk _ stmts => Stmt.listEvents stmts

/-- The steps of a block that may be missing, with its scope. -/
def Block.optionEvents : Option Block → List Event
  | none => []
  | some body => Event.inScope body.pos body.pos body.inner

/-- The steps of a case of a `switch` statement. -/
def SwitchCase.events : SwitchCase → List Event
  | .mk _ values body => Expr.listEvents values ++ Event.inScope body.pos body.pos body.inner

/-- The steps of the cases of a `switch` statement. -/
def SwitchCase.listEvents : List SwitchCase → List Event
  | [] => []
  | c :: cs => c.events ++ SwitchCase.listEvents cs

/-- The steps of a handler, whose name belongs to the scope of its body. -/
def CatchClause.events : CatchClause → List Event
  | .mk pos name body => Event.inScope pos body.pos (name.toList.map .bind ++ body.inner)

/-- The steps of a handler that may be missing. -/
def CatchClause.optionEvents : Option CatchClause → List Event
  | none => []
  | some handler => handler.events

/-- The steps of a statement. -/
def Stmt.events : Stmt → List Event
  | .expr _ value => value.events
  | .assign _ name op value => .assign name op value.funcParams? :: value.events
  | .indexAssign _ object index _ value => object.events ++ index.events ++ value.events
  | .memberAssign _ object name _ value =>
    (match object.ident? with
      | some base => [.member base name]
      | none => object.events) ++ value.events
  | .destructure _ targets op value => targets.flatMap (Event.ofTarget op) ++ value.events
  | .cond _ test thenS elseS => test.events ++ thenS.events ++ Stmt.optionEvents elseS
  | .whileLoop _ test body => test.events ++ Event.inScope body.pos body.pos body.inner
  | .forLoop pos init test post body =>
    Event.inScope pos body.pos
      (Stmt.optionEvents init ++ Expr.optionEvents test ++ Stmt.optionEvents post ++ body.inner)
  | .forIn pos key value seq body =>
    Event.inScope pos body.pos (seq.events ++ .bind key :: value.toList.map .bind ++ body.inner)
  | .switch _ value cases fallback =>
    value.events ++ SwitchCase.listEvents cases ++ Block.optionEvents fallback
  | .tryCatch _ body handler finalizer =>
    Event.inScope body.pos body.pos body.inner ++ CatchClause.optionEvents handler
      ++ Block.optionEvents finalizer
  | .func pos name params body =>
    .func name (params.map (·.name)) :: Event.function pos params body.pos body.inner
  | .importAs _ path asName => asName.toList.map fun name => .importModule name path.value
  | .importFrom _ path items => items.map (Event.ofItem path)
  | .exported _ stmt => stmt.events
  | .ret _ values => Expr.listEvents values
  | .brk _ | .cont _ | .pass _ => []
  | .raise _ value => value.events
  | .defer _ call => call.events
  | .block body => Event.inScope body.pos body.pos body.inner

/-- The steps of statements, one after the other. -/
def Stmt.listEvents : List Stmt → List Event
  | [] => []
  | s :: ss => s.events ++ Stmt.listEvents ss

/-- The steps of a statement that may be missing. -/
def Stmt.optionEvents : Option Stmt → List Event
  | none => []
  | some s => s.events

end

/-- The steps of a program. -/
def Program.events (program : Program) : List Event := Stmt.listEvents program.stmts

end Welle
