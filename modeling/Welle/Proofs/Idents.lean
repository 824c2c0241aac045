import Welle.Proofs.Grammar

set_option autoImplicit false

/-! # The identifiers of a tree

`idents` lists every name that is written in a tree, at any depth: names that are used, assigned or
declared, members, parameters and what import lists name. A discarded target is no name. -/

namespace Welle

/-- The names of an import item. -/
def ImportItem.idents (item : ImportItem) : List Ident := item.name :: item.asName.toList

mutual

/-- The identifiers of an expression. -/
def Expr.idents : Expr → List Ident
  | .ident id => [id]
  | .int .. | .float .. | .str .. | .bool .. | .nil .. => []
  | .tuple _ items | .list _ items => Expr.listIdents items
  | .dict _ entries => DictEntry.listIdents entries
  | .template _ tag _ exprs => Expr.optionIdents tag ++ Expr.listIdents exprs
  | .func _ params body => params ++ body.idents
  | .unary _ _ operand => operand.idents
  | .binary _ _ left right => left.idents ++ right.idents
  | .ternary _ cond thenE elseE => cond.idents ++ thenE.idents ++ elseE.idents
  | .conditional _ thenE cond elseE => thenE.idents ++ cond.idents ++ elseE.idents
  | .assign _ target _ value => target.idents ++ value.idents
  | .spread _ value => value.idents
  | .call _ callee args => callee.idents ++ Expr.listIdents args
  | .index _ object index => object.idents ++ index.idents
  | .slice _ object low high step =>
    object.idents ++ Expr.optionIdents low ++ Expr.optionIdents high ++ Expr.optionIdents step
  | .member _ object name => object.idents ++ [name]
  | .comprehension _ elem var seq filter =>
    elem.idents ++ [var] ++ seq.idents ++ Expr.optionIdents filter
  | .select _ value arms fallback =>
    value.idents ++ MatchArm.listIdents arms ++ Expr.optionIdents fallback

/-- The identifiers of expressions. -/
def Expr.listIdents : List Expr → List Ident
  | [] => []
  | e :: es => e.idents ++ Expr.listIdents es

/-- The identifiers of an expression that may be missing. -/
def Expr.optionIdents : Option Expr → List Ident
  | none => []
  | some e => e.idents

/-- The identifiers of a dictionary entry. -/
def DictEntry.idents : DictEntry → List Ident
  | .pair key value => key.idents ++ value.idents
  | .shorthand id => [id]

/-- The identifiers of dictionary entries. -/
def DictEntry.listIdents : List DictEntry → List Ident
  | [] => []
  | e :: es => e.idents ++ DictEntry.listIdents es

/-- The identifiers of a case of a `match` expression. -/
def MatchArm.idents : MatchArm → List Ident
  | .mk _ values result => Expr.listIdents values ++ result.idents

/-- The identifiers of the cases of a `match` expression. -/
def MatchArm.listIdents : List MatchArm → List Ident
  | [] => []
  | arm :: arms => arm.idents ++ MatchArm.listIdents arms

/-- The identifiers of a block. -/
def Block.idents : Block → List Ident
  | .mk _ stmts => Stmt.listIdents stmts

/-- The identifiers of a block that may be missing. -/
def Block.optionIdents : Option Block → List Ident
  | none => []
  | some body => body.idents

/-- The identifiers of a case of a `switch` statement. -/
def SwitchCase.idents : SwitchCase → List Ident
  | .mk _ values body => Expr.listIdents values ++ body.idents

/-- The identifiers of the cases of a `switch` statement. -/
def SwitchCase.listIdents : List SwitchCase → List Ident
  | [] => []
  | c :: cs => c.idents ++ SwitchCase.listIdents cs

/-- The identifiers of a handler. -/
def CatchClause.idents : CatchClause → List Ident
  | .mk _ name body => name.toList ++ body.idents

/-- The identifiers of a handler that may be missing. -/
def CatchClause.optionIdents : Option CatchClause → List Ident
  | none => []
  | some handler => handler.idents

/-- The identifiers of a statement. -/
def Stmt.idents : Stmt → List Ident
  | .expr _ value => value.idents
  | .assign _ name _ value => name :: value.idents
  | .indexAssign _ object index _ value => object.idents ++ index.idents ++ value.idents
  | .memberAssign _ object name _ value => object.idents ++ [name] ++ value.idents
  | .destructure _ targets _ value => targets.filterMap Target.ident? ++ value.idents
  | .cond _ test thenS elseS => test.idents ++ thenS.idents ++ Stmt.optionIdents elseS
  | .whileLoop _ test body => test.idents ++ body.idents
  | .forLoop _ init test post body =>
    Stmt.optionIdents init ++ Expr.optionIdents test ++ Stmt.optionIdents post ++ body.idents
  | .forIn _ key value seq body => key :: value.toList ++ seq.idents ++ body.idents
  | .switch _ value cases fallback =>
    value.idents ++ SwitchCase.listIdents cases ++ Block.optionIdents fallback
  | .tryCatch _ body handler finalizer =>
    body.idents ++ CatchClause.optionIdents handler ++ Block.optionIdents finalizer
  | .func _ name params body => name :: params ++ body.idents
  | .importAs _ _ asName => asName.toList
  | .importFrom _ _ items => items.flatMap ImportItem.idents
  | .exported _ stmt => stmt.idents
  | .ret _ values => Expr.listIdents values
  | .brk _ | .cont _ | .pass _ => []
  | .raise _ value => value.idents
  | .defer _ call => call.idents
  | .block body => body.idents

/-- The identifiers of statements. -/
def Stmt.listIdents : List Stmt → List Ident
  | [] => []
  | s :: ss => s.idents ++ Stmt.listIdents ss

/-- The identifiers of a statement that may be missing. -/
def Stmt.optionIdents : Option Stmt → List Ident
  | none => []
  | some s => s.idents

end

/-- The identifiers of a program. -/
def Program.idents (program : Program) : List Ident := Stmt.listIdents program.stmts

/-! ## Phrases -/

namespace Grammar

/-- The identifiers of an item. -/
def Item.idents : Item → List Ident
  | expr e | arg e => e.idents
  | entry e => e.idents
  | name id => [id]
  | imported item => item.idents
  | target t => t.ident?.toList

/-- The identifiers of a phrase. -/
def Phrase.idents : Phrase → List Ident
  | item i => i.idents
  | items is | more is => is.flatMap Item.idents
  | holes _ es => Expr.listIdents es
  | part e | step e | filter e => Expr.optionIdents e
  | params ids => ids
  | condition e | result e => e.idents
  | matchArms found => found.flatMap (Sum.elim MatchArm.idents Expr.idents)
  | block body => body.idents
  | switchArms found => found.flatMap (Sum.elim SwitchCase.idents Block.idents)
  | asName id => id.toList
  | clause s => Stmt.optionIdents s
  | handler h => CatchClause.optionIdents h
  | finalizer body => Block.optionIdents body
  | stmt s => s.idents
  | stmts ss => Stmt.listIdents ss

end Grammar

end Welle
