import Welle.Proofs.Idents

set_option autoImplicit false

/-! # The discarded targets of a tree

`discards` lists every target of a tree that discards a value, at any depth, as the name `_` that it
is written with. Together with `idents` it lists every place of a tree that is written as a word. -/

namespace Welle

/-- The name that a discarded target is written with. -/
def Target.discard? : Target → Option Ident
  | name _ | starred _ => none
  | discard pos => some ⟨"_", pos⟩

mutual

/-- The discarded targets of an expression. -/
def Expr.discards : Expr → List Ident
  | .ident _ | .int .. | .float .. | .str .. | .bool .. | .nil .. => []
  | .tuple _ items | .list _ items => Expr.listDiscards items
  | .dict _ entries => DictEntry.listDiscards entries
  | .template _ tag _ exprs => Expr.optionDiscards tag ++ Expr.listDiscards exprs
  | .func _ _ body => body.discards
  | .unary _ _ operand => operand.discards
  | .binary _ _ left right => left.discards ++ right.discards
  | .ternary _ cond thenE elseE => cond.discards ++ thenE.discards ++ elseE.discards
  | .conditional _ thenE cond elseE => thenE.discards ++ cond.discards ++ elseE.discards
  | .assign _ target _ value => target.discards ++ value.discards
  | .spread _ value => value.discards
  | .call _ callee args => callee.discards ++ Expr.listDiscards args
  | .index _ object index => object.discards ++ index.discards
  | .slice _ object low high step =>
    object.discards ++ Expr.optionDiscards low ++ Expr.optionDiscards high
      ++ Expr.optionDiscards step
  | .member _ object _ => object.discards
  | .comprehension _ elem _ seq filter =>
    elem.discards ++ seq.discards ++ Expr.optionDiscards filter
  | .select _ value arms fallback =>
    value.discards ++ MatchArm.listDiscards arms ++ Expr.optionDiscards fallback

/-- The discarded targets of expressions. -/
def Expr.listDiscards : List Expr → List Ident
  | [] => []
  | e :: es => e.discards ++ Expr.listDiscards es

/-- The discarded targets of an expression that may be missing. -/
def Expr.optionDiscards : Option Expr → List Ident
  | none => []
  | some e => e.discards

/-- The discarded targets of a dictionary entry. -/
def DictEntry.discards : DictEntry → List Ident
  | .pair key value => key.discards ++ value.discards
  | .shorthand _ => []

/-- The discarded targets of dictionary entries. -/
def DictEntry.listDiscards : List DictEntry → List Ident
  | [] => []
  | e :: es => e.discards ++ DictEntry.listDiscards es

/-- The discarded targets of a case of a `match` expression. -/
def MatchArm.discards : MatchArm → List Ident
  | .mk _ values result => Expr.listDiscards values ++ result.discards

/-- The discarded targets of the cases of a `match` expression. -/
def MatchArm.listDiscards : List MatchArm → List Ident
  | [] => []
  | arm :: arms => arm.discards ++ MatchArm.listDiscards arms

/-- The discarded targets of a block. -/
def Block.discards : Block → List Ident
  | .mk _ stmts => Stmt.listDiscards stmts

/-- The discarded targets of a block that may be missing. -/
def Block.optionDiscards : Option Block → List Ident
  | none => []
  | some body => body.discards

/-- The discarded targets of a case of a `switch` statement. -/
def SwitchCase.discards : SwitchCase → List Ident
  | .mk _ values body => Expr.listDiscards values ++ body.discards

/-- The discarded targets of the cases of a `switch` statement. -/
def SwitchCase.listDiscards : List SwitchCase → List Ident
  | [] => []
  | c :: cs => c.discards ++ SwitchCase.listDiscards cs

/-- The discarded targets of a handler. -/
def CatchClause.discards : CatchClause → List Ident
  | .mk _ _ body => body.discards

/-- The discarded targets of a handler that may be missing. -/
def CatchClause.optionDiscards : Option CatchClause → List Ident
  | none => []
  | some handler => handler.discards

/-- The discarded targets of a statement. -/
def Stmt.discards : Stmt → List Ident
  | .expr _ value | .assign _ _ _ value => value.discards
  | .indexAssign _ object index _ value => object.discards ++ index.discards ++ value.discards
  | .memberAssign _ object _ _ value => object.discards ++ value.discards
  | .destructure _ targets _ value => targets.filterMap Target.discard? ++ value.discards
  | .cond _ test thenS elseS => test.discards ++ thenS.discards ++ Stmt.optionDiscards elseS
  | .whileLoop _ test body => test.discards ++ body.discards
  | .forLoop _ init test post body =>
    Stmt.optionDiscards init ++ Expr.optionDiscards test ++ Stmt.optionDiscards post
      ++ body.discards
  | .forIn _ _ _ seq body => seq.discards ++ body.discards
  | .switch _ value cases fallback =>
    value.discards ++ SwitchCase.listDiscards cases ++ Block.optionDiscards fallback
  | .tryCatch _ body handler finalizer =>
    body.discards ++ CatchClause.optionDiscards handler ++ Block.optionDiscards finalizer
  | .func _ _ _ body => body.discards
  | .exported _ stmt => stmt.discards
  | .ret _ values => Expr.listDiscards values
  | .importAs .. | .importFrom .. | .brk _ | .cont _ | .pass _ => []
  | .raise _ value => value.discards
  | .defer _ call => call.discards
  | .block body => body.discards

/-- The discarded targets of statements. -/
def Stmt.listDiscards : List Stmt → List Ident
  | [] => []
  | s :: ss => s.discards ++ Stmt.listDiscards ss

/-- The discarded targets of a statement that may be missing. -/
def Stmt.optionDiscards : Option Stmt → List Ident
  | none => []
  | some s => s.discards

end

/-- The discarded targets of a program. -/
def Program.discards (program : Program) : List Ident := Stmt.listDiscards program.stmts

/-- Where the identifiers and the discarded targets of a program stand. -/
def Program.places (program : Program) : List Position :=
  (program.idents ++ program.discards).map (·.pos)

/-! ## Phrases -/

namespace Grammar

/-- The discarded targets of an item. -/
def Item.discards : Item → List Ident
  | expr e | arg e => e.discards
  | entry e => e.discards
  | name _ | imported _ => []
  | target t => t.discard?.toList

/-- The discarded targets of a phrase. -/
def Phrase.discards : Phrase → List Ident
  | item i => i.discards
  | items is | more is => is.flatMap Item.discards
  | holes _ es => Expr.listDiscards es
  | part e | step e | filter e => Expr.optionDiscards e
  | params _ | asName _ => []
  | condition e | result e => e.discards
  | matchArms found => found.flatMap (Sum.elim MatchArm.discards Expr.discards)
  | block body => body.discards
  | switchArms found => found.flatMap (Sum.elim SwitchCase.discards Block.discards)
  | clause s => Stmt.optionDiscards s
  | handler h => CatchClause.optionDiscards h
  | finalizer body => Block.optionDiscards body
  | stmt s => s.discards
  | stmts ss => Stmt.listDiscards ss

/-! ## Discarded targets of lists -/

theorem flatMap_discards_expr (es : List Expr) :
    (es.map Item.expr).flatMap Item.discards = Expr.listDiscards es := by
  induction es with
  | nil => simp [Expr.listDiscards]
  | cons e es ih => simpa [Expr.listDiscards, Item.discards] using ih

theorem flatMap_discards_arg (es : List Expr) :
    (es.map Item.arg).flatMap Item.discards = Expr.listDiscards es := by
  induction es with
  | nil => simp [Expr.listDiscards]
  | cons e es ih => simpa [Expr.listDiscards, Item.discards] using ih

theorem flatMap_discards_entry (entries : List DictEntry) :
    (entries.map Item.entry).flatMap Item.discards = DictEntry.listDiscards entries := by
  induction entries with
  | nil => simp [DictEntry.listDiscards]
  | cons e es ih => simpa [DictEntry.listDiscards, Item.discards] using ih

theorem flatMap_discards_name (ids : List Ident) :
    (ids.map Item.name).flatMap Item.discards = [] := by
  simp [List.flatMap_eq_nil_iff, Item.discards]

theorem flatMap_discards_imported (items : List ImportItem) :
    (items.map Item.imported).flatMap Item.discards = [] := by
  simp [List.flatMap_eq_nil_iff, Item.discards]

theorem flatMap_discards_target (targets : List Target) :
    (targets.map Item.target).flatMap Item.discards = targets.filterMap Target.discard? := by
  induction targets with
  | nil => rfl
  | cons t targets ih => cases t <;> simp [Item.discards, Target.discard?, List.filterMap_cons, ih]

theorem discards_toStmt (start : Position) (e : Expr) :
    (Parser.toStmt start e).discards = e.discards := by
  unfold Parser.toStmt
  split <;> simp [Stmt.discards, Expr.discards]

theorem listDiscards_matchArms (arms : List MatchArm) :
    MatchArm.listDiscards arms = arms.flatMap MatchArm.discards := by
  induction arms with
  | nil => simp [MatchArm.listDiscards]
  | cons arm arms ih => simp [MatchArm.listDiscards, ih]

theorem listDiscards_switchCases (cases : List SwitchCase) :
    SwitchCase.listDiscards cases = cases.flatMap SwitchCase.discards := by
  induction cases with
  | nil => simp [SwitchCase.listDiscards]
  | cons c cs ih => simp [SwitchCase.listDiscards, ih]

theorem optionDiscards_expr (e : Option Expr) :
    Expr.optionDiscards e = e.toList.flatMap Expr.discards := by
  cases e <;> simp [Expr.optionDiscards]

theorem optionDiscards_block (body : Option Block) :
    Block.optionDiscards body = body.toList.flatMap Block.discards := by
  cases body <;> simp [Block.optionDiscards]

end Grammar

end Welle
