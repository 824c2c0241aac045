import Welle.Proofs.Grammar
import Welle.Proofs.Printing.Unplaced

set_option autoImplicit false

/-! # The nodes of a tree

`nodes` lists all expressions and statements of a tree, at any depth. One of them does not keep its
form when it is printed: a destructuring with one target that is not starred is printed without the
comma behind the target, so its text assigns to a name. `reread` is the tree that the text stands
for, with the positions of the old one. -/

namespace Welle

/-- An expression or a statement. -/
inductive Node where
  | expr (e : Expr)
  | stmt (s : Stmt)

mutual

/-- An expression and all expressions and statements in it. -/
def Expr.nodes : Expr → List Node
  | e@(.ident _) | e@(.int ..) | e@(.float ..) | e@(.str ..) | e@(.bool ..) | e@(.nil _) => [.expr e]
  | e@(.func _ _ body) => .expr e :: body.nodes
  | e@(.tuple _ items) | e@(.list _ items) => .expr e :: Expr.listNodes items
  | e@(.dict _ entries) => .expr e :: DictEntry.listNodes entries
  | e@(.template _ tag _ exprs) => .expr e :: (Expr.optionNodes tag ++ Expr.listNodes exprs)
  | e@(.unary _ _ operand) => .expr e :: operand.nodes
  | e@(.binary _ _ left right) => .expr e :: (left.nodes ++ right.nodes)
  | e@(.ternary _ cond thenE elseE) => .expr e :: (cond.nodes ++ thenE.nodes ++ elseE.nodes)
  | e@(.conditional _ thenE cond elseE) => .expr e :: (thenE.nodes ++ cond.nodes ++ elseE.nodes)
  | e@(.assign _ target _ value) => .expr e :: (target.nodes ++ value.nodes)
  | e@(.spread _ value) => .expr e :: value.nodes
  | e@(.call _ callee args) => .expr e :: (callee.nodes ++ Expr.listNodes args)
  | e@(.index _ object index) => .expr e :: (object.nodes ++ index.nodes)
  | e@(.slice _ object low high step) =>
    .expr e :: (object.nodes ++ Expr.optionNodes low ++ Expr.optionNodes high
      ++ Expr.optionNodes step)
  | e@(.member _ object _) => .expr e :: object.nodes
  | e@(.comprehension _ elem _ seq filter) =>
    .expr e :: (elem.nodes ++ seq.nodes ++ Expr.optionNodes filter)
  | e@(.select _ value arms fallback) =>
    .expr e :: (value.nodes ++ MatchArm.listNodes arms ++ Expr.optionNodes fallback)

/-- The nodes in expressions. -/
def Expr.listNodes : List Expr → List Node
  | [] => []
  | e :: es => e.nodes ++ Expr.listNodes es

/-- The nodes in an expression that may be missing. -/
def Expr.optionNodes : Option Expr → List Node
  | none => []
  | some e => e.nodes

/-- The nodes in a dictionary entry. -/
def DictEntry.nodes : DictEntry → List Node
  | .pair key value => key.nodes ++ value.nodes
  | .shorthand _ => []

/-- The nodes in dictionary entries. -/
def DictEntry.listNodes : List DictEntry → List Node
  | [] => []
  | e :: es => e.nodes ++ DictEntry.listNodes es

/-- The nodes in a case of a `match` expression. -/
def MatchArm.nodes : MatchArm → List Node
  | .mk _ values result => Expr.listNodes values ++ result.nodes

/-- The nodes in the cases of a `match` expression. -/
def MatchArm.listNodes : List MatchArm → List Node
  | [] => []
  | arm :: arms => arm.nodes ++ MatchArm.listNodes arms

/-- The nodes in a block. -/
def Block.nodes : Block → List Node
  | .mk _ stmts => Stmt.listNodes stmts

/-- The nodes in a block that may be missing. -/
def Block.optionNodes : Option Block → List Node
  | none => []
  | some body => body.nodes

/-- The nodes in a case of a `switch` statement. -/
def SwitchCase.nodes : SwitchCase → List Node
  | .mk _ values body => Expr.listNodes values ++ body.nodes

/-- The nodes in the cases of a `switch` statement. -/
def SwitchCase.listNodes : List SwitchCase → List Node
  | [] => []
  | c :: cs => c.nodes ++ SwitchCase.listNodes cs

/-- The nodes in a handler. -/
def CatchClause.nodes : CatchClause → List Node
  | .mk _ _ body => body.nodes

/-- The nodes in a handler that may be missing. -/
def CatchClause.optionNodes : Option CatchClause → List Node
  | none => []
  | some handler => handler.nodes

/-- A statement and all expressions and statements in it. -/
def Stmt.nodes : Stmt → List Node
  | s@(.expr _ value) | s@(.assign _ _ _ value) | s@(.destructure _ _ _ value) | s@(.raise _ value)
  | s@(.defer _ value) => .stmt s :: value.nodes
  | s@(.indexAssign _ object index _ value) =>
    .stmt s :: (object.nodes ++ index.nodes ++ value.nodes)
  | s@(.memberAssign _ object _ _ value) => .stmt s :: (object.nodes ++ value.nodes)
  | s@(.cond _ test thenS elseS) => .stmt s :: (test.nodes ++ thenS.nodes ++ Stmt.optionNodes elseS)
  | s@(.whileLoop _ test body) => .stmt s :: (test.nodes ++ body.nodes)
  | s@(.forLoop _ init test post body) =>
    .stmt s :: (Stmt.optionNodes init ++ Expr.optionNodes test ++ Stmt.optionNodes post ++ body.nodes)
  | s@(.forIn _ _ _ seq body) => .stmt s :: (seq.nodes ++ body.nodes)
  | s@(.switch _ value cases fallback) =>
    .stmt s :: (value.nodes ++ SwitchCase.listNodes cases ++ Block.optionNodes fallback)
  | s@(.tryCatch _ body handler finalizer) =>
    .stmt s :: (body.nodes ++ CatchClause.optionNodes handler ++ Block.optionNodes finalizer)
  | s@(.func _ _ _ body) => .stmt s :: body.nodes
  | s@(.importAs ..) | s@(.importFrom ..) | s@(.brk _) | s@(.cont _) | s@(.pass _) => [.stmt s]
  | s@(.exported _ stmt) => .stmt s :: stmt.nodes
  | s@(.ret _ values) => .stmt s :: Expr.listNodes values
  | s@(.block body) => .stmt s :: body.nodes

/-- The nodes in statements. -/
def Stmt.listNodes : List Stmt → List Node
  | [] => []
  | s :: ss => s.nodes ++ Stmt.listNodes ss

/-- The nodes in a statement that may be missing. -/
def Stmt.optionNodes : Option Stmt → List Node
  | none => []
  | some s => s.nodes

end

/-- The nodes of a program. -/
def Program.nodes (program : Program) : List Node := Stmt.listNodes program.stmts

/-! ## Lists of nodes -/

theorem Expr.listNodes_eq (es : List Expr) : Expr.listNodes es = es.flatMap Expr.nodes := by
  induction es with
  | nil => rfl
  | cons e es ih => rw [Expr.listNodes, ih, List.flatMap_cons]

theorem DictEntry.listNodes_eq (entries : List DictEntry) :
    DictEntry.listNodes entries = entries.flatMap DictEntry.nodes := by
  induction entries with
  | nil => rfl
  | cons e entries ih => rw [DictEntry.listNodes, ih, List.flatMap_cons]

theorem MatchArm.listNodes_eq (arms : List MatchArm) :
    MatchArm.listNodes arms = arms.flatMap MatchArm.nodes := by
  induction arms with
  | nil => rfl
  | cons arm arms ih => rw [MatchArm.listNodes, ih, List.flatMap_cons]

theorem Block.nodes_eq (body : Block) : body.nodes = Stmt.listNodes body.stmts := by
  cases body
  rfl

theorem SwitchCase.listNodes_eq (cases : List SwitchCase) :
    SwitchCase.listNodes cases = cases.flatMap SwitchCase.nodes := by
  induction cases with
  | nil => rfl
  | cons c cases ih => rw [SwitchCase.listNodes, ih, List.flatMap_cons]

theorem Stmt.listNodes_eq (ss : List Stmt) : Stmt.listNodes ss = ss.flatMap Stmt.nodes := by
  induction ss with
  | nil => rfl
  | cons s ss ih => rw [Stmt.listNodes, ih, List.flatMap_cons]

theorem Expr.mem_nodes_self (e : Expr) : .expr e ∈ e.nodes := by
  cases e <;> simp [Expr.nodes]

/-! ## What the text of a tree stands for -/

/-- The name that is assigned to by the only one of some targets, if that is not starred. -/
def loneTarget? : List Target → Option Ident
  | [.name id] => some id
  | [.discard pos] => some ⟨"_", pos⟩
  | _ => none

/-- Whether a node is a destructuring with a single target that is not starred. -/
def Node.isLone : Node → Bool
  | .stmt (.destructure _ targets _ _) => (loneTarget? targets).isSome
  | _ => false

mutual

/-- The expression that the text of an expression stands for. -/
def Expr.reread : Expr → Expr
  | .ident id => .ident id
  | .int pos value => .int pos value
  | .float pos value => .float pos value
  | .str pos value => .str pos value
  | .bool pos value => .bool pos value
  | .nil pos => .nil pos
  | .tuple pos items => .tuple pos (Expr.listReread items)
  | .list pos items => .list pos (Expr.listReread items)
  | .dict pos entries => .dict pos (DictEntry.listReread entries)
  | .template pos tag parts exprs =>
    .template pos (Expr.optionReread tag) parts (Expr.listReread exprs)
  | .func pos params body => .func pos params body.reread
  | .unary pos op operand => .unary pos op operand.reread
  | .binary pos op left right => .binary pos op left.reread right.reread
  | .ternary pos cond thenE elseE => .ternary pos cond.reread thenE.reread elseE.reread
  | .conditional pos thenE cond elseE => .conditional pos thenE.reread cond.reread elseE.reread
  | .assign pos target op value => .assign pos target.reread op value.reread
  | .spread pos value => .spread pos value.reread
  | .call pos callee args => .call pos callee.reread (Expr.listReread args)
  | .index pos object index => .index pos object.reread index.reread
  | .slice pos object low high step =>
    .slice pos object.reread (Expr.optionReread low) (Expr.optionReread high)
      (Expr.optionReread step)
  | .member pos object name => .member pos object.reread name
  | .comprehension pos elem var seq filter =>
    .comprehension pos elem.reread var seq.reread (Expr.optionReread filter)
  | .select pos value arms fallback =>
    .select pos value.reread (MatchArm.listReread arms) (Expr.optionReread fallback)

/-- The expressions that the texts of expressions stand for. -/
def Expr.listReread : List Expr → List Expr
  | [] => []
  | e :: es => e.reread :: Expr.listReread es

/-- The expression that the text of an expression stands for, if there is one. -/
def Expr.optionReread : Option Expr → Option Expr
  | none => none
  | some e => some e.reread

/-- The entry that the text of a dictionary entry stands for. -/
def DictEntry.reread : DictEntry → DictEntry
  | .pair key value => .pair key.reread value.reread
  | .shorthand id => .shorthand id

/-- The entries that the texts of dictionary entries stand for. -/
def DictEntry.listReread : List DictEntry → List DictEntry
  | [] => []
  | e :: es => e.reread :: DictEntry.listReread es

/-- The case that the text of a case of a `match` expression stands for. -/
def MatchArm.reread : MatchArm → MatchArm
  | .mk pos values result => .mk pos (Expr.listReread values) result.reread

/-- The cases that the texts of cases of a `match` expression stand for. -/
def MatchArm.listReread : List MatchArm → List MatchArm
  | [] => []
  | arm :: arms => arm.reread :: MatchArm.listReread arms

/-- The block that the text of a block stands for. -/
def Block.reread : Block → Block
  | .mk pos stmts => .mk pos (Stmt.listReread stmts)

/-- The block that the text of a block stands for, if there is one. -/
def Block.optionReread : Option Block → Option Block
  | none => none
  | some body => some body.reread

/-- The case that the text of a case of a `switch` statement stands for. -/
def SwitchCase.reread : SwitchCase → SwitchCase
  | .mk pos values body => .mk pos (Expr.listReread values) body.reread

/-- The cases that the texts of cases of a `switch` statement stand for. -/
def SwitchCase.listReread : List SwitchCase → List SwitchCase
  | [] => []
  | c :: cs => c.reread :: SwitchCase.listReread cs

/-- The handler that the text of a handler stands for. -/
def CatchClause.reread : CatchClause → CatchClause
  | .mk pos name body => .mk pos name body.reread

/-- The handler that the text of a handler stands for, if there is one. -/
def CatchClause.optionReread : Option CatchClause → Option CatchClause
  | none => none
  | some handler => some handler.reread

/-- The statement that the text of a statement stands for. -/
def Stmt.reread : Stmt → Stmt
  | .expr pos value => .expr pos value.reread
  | .assign pos name op value => .assign pos name op value.reread
  | .indexAssign pos object index op value =>
    .indexAssign pos object.reread index.reread op value.reread
  | .memberAssign pos object name op value =>
    .memberAssign pos object.reread name op value.reread
  | .destructure pos targets op value =>
    match loneTarget? targets with
    | some id => .assign id.pos id op value.reread
    | none => .destructure pos targets op value.reread
  | .cond pos test thenS elseS => .cond pos test.reread thenS.reread (Stmt.optionReread elseS)
  | .whileLoop pos test body => .whileLoop pos test.reread body.reread
  | .forLoop pos init test post body =>
    .forLoop pos (Stmt.optionReread init) (Expr.optionReread test) (Stmt.optionReread post)
      body.reread
  | .forIn pos key value seq body => .forIn pos key value seq.reread body.reread
  | .switch pos value cases fallback =>
    .switch pos value.reread (SwitchCase.listReread cases) (Block.optionReread fallback)
  | .tryCatch pos body handler finalizer =>
    .tryCatch pos body.reread (CatchClause.optionReread handler) (Block.optionReread finalizer)
  | .func pos name params body => .func pos name params body.reread
  | .importAs pos path asName => .importAs pos path asName
  | .importFrom pos path items => .importFrom pos path items
  | .exported pos stmt => .exported pos stmt.reread
  | .ret pos values => .ret pos (Expr.listReread values)
  | .brk pos => .brk pos
  | .cont pos => .cont pos
  | .pass pos => .pass pos
  | .raise pos value => .raise pos value.reread
  | .defer pos call => .defer pos call.reread
  | .block body => .block body.reread

/-- The statements that the texts of statements stand for. -/
def Stmt.listReread : List Stmt → List Stmt
  | [] => []
  | s :: ss => s.reread :: Stmt.listReread ss

/-- The statement that the text of a statement stands for, if there is one. -/
def Stmt.optionReread : Option Stmt → Option Stmt
  | none => none
  | some s => some s.reread

end

@[simp] theorem Expr.listReread_eq (es : List Expr) : Expr.listReread es = es.map Expr.reread := by
  induction es with
  | nil => rfl
  | cons e es ih => rw [Expr.listReread, ih, List.map_cons]

@[simp] theorem Expr.optionReread_eq (e : Option Expr) : Expr.optionReread e = e.map Expr.reread := by
  cases e <;> rfl

@[simp] theorem DictEntry.listReread_eq (entries : List DictEntry) :
    DictEntry.listReread entries = entries.map DictEntry.reread := by
  induction entries with
  | nil => rfl
  | cons e entries ih => rw [DictEntry.listReread, ih, List.map_cons]

@[simp] theorem MatchArm.listReread_eq (arms : List MatchArm) :
    MatchArm.listReread arms = arms.map MatchArm.reread := by
  induction arms with
  | nil => rfl
  | cons arm arms ih => rw [MatchArm.listReread, ih, List.map_cons]

@[simp] theorem Block.optionReread_eq (body : Option Block) :
    Block.optionReread body = body.map Block.reread := by
  cases body <;> rfl

@[simp] theorem SwitchCase.listReread_eq (cases : List SwitchCase) :
    SwitchCase.listReread cases = cases.map SwitchCase.reread := by
  induction cases with
  | nil => rfl
  | cons c cases ih => rw [SwitchCase.listReread, ih, List.map_cons]

@[simp] theorem CatchClause.optionReread_eq (handler : Option CatchClause) :
    CatchClause.optionReread handler = handler.map CatchClause.reread := by
  cases handler <;> rfl

@[simp] theorem Stmt.listReread_eq (ss : List Stmt) : Stmt.listReread ss = ss.map Stmt.reread := by
  induction ss with
  | nil => rfl
  | cons s ss ih => rw [Stmt.listReread, ih, List.map_cons]

@[simp] theorem Stmt.optionReread_eq (s : Option Stmt) :
    Stmt.optionReread s = s.map Stmt.reread := by
  cases s <;> rfl

/-- The program that the text of a program stands for. -/
def Program.reread (program : Program) : Program := ⟨Stmt.listReread program.stmts⟩

end Welle
