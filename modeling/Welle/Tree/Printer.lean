import Welle.Numeral
import Welle.Text.Measure
import Welle.Tree

set_option autoImplicit false

/-! # Printing trees

`render` writes a tree as source text. Operators come with their parentheses, so the text shows the
shape of the tree; a program prints one statement per line. -/

namespace Welle

/-! ## Quoted text -/

namespace Literal

/-- How a character is written in a string or in the text of a template. -/
def escape (c : Char) : List Char :=
  if c = '\\' then ['\\', '\\']
  else if c = '"' then ['\\', '"']
  else if c = '\n' then ['\\', 'n']
  else if c = '\t' then ['\\', 't']
  else if c = '\r' then ['\\', 'r']
  else [c]

/-- A string literal with the given contents. -/
def quote (s : String) : String :=
  String.ofList (['"'] ++ s.toList.flatMap escape ++ ['"'])

/-- The text of a template part. A dollar sign that would open an interpolation is escaped too. -/
def escapePart : List Char → List Char
  | [] => []
  | c :: cs =>
    (if c = '$' && cs.head? = some '{' then ['\\', '$'] else escape c) ++ escapePart cs

/-- An interpolation with the given source. -/
def hole (source : String) : String := "$" ++ "\x7b" ++ source ++ "\x7d"

/-- The body of a template: its parts with an interpolation behind each of them while there are
    any. -/
def templateBody : List String → List String → String
  | [], _ => ""
  | part :: parts, [] => String.ofList (escapePart part.toList) ++ templateBody parts []
  | part :: parts, source :: sources =>
    String.ofList (escapePart part.toList) ++ hole source ++ templateBody parts sources

/-- Text between braces. -/
def braced (s : String) : String := "\x7b" ++ s ++ "\x7d"

/-- Texts with a comma and a space between them. -/
def commas (parts : List String) : String := Text.join ", " parts

end Literal

/-! ## Leaves -/

/-- A target as written. -/
def Target.render : Target → String
  | name id => id.name
  | discard _ => "_"
  | starred id => "*" ++ id.name

/-- A name behind the word `as`, if there is one. -/
def renderAs : Option Ident → String
  | some name => " as " ++ name.name
  | none => ""

/-- An import item as written. -/
def ImportItem.render (item : ImportItem) : String := item.name.name ++ renderAs item.asName

/-- A parameter list as written. -/
def renderParams (params : List Ident) : String :=
  "(" ++ Literal.commas (params.map (·.name)) ++ ")"

/-- A tuple of the given items as written; one of a single item has a comma behind it. -/
def renderTuple : List String → String
  | [item] => "(" ++ item ++ ",)"
  | items => "(" ++ Literal.commas items ++ ")"

/-- A block of the given statements as written. -/
def renderBlock : List String → String
  | [] => Literal.braced ""
  | stmts => Literal.braced (" " ++ Text.join "; " stmts ++ " ")

/-- A return of the given values as written. -/
def renderReturn : List String → String
  | [] => "return"
  | values => "return " ++ Literal.commas values

/-- The name of a caught value as written, with a space behind it. -/
def renderCaught : Option Ident → String
  | some name => "(" ++ name.name ++ ") "
  | none => ""

/-- The variables of a loop over a sequence as written. -/
def renderLoopNames (key : Ident) : Option Ident → String
  | some value => "(" ++ key.name ++ ", " ++ value.name ++ ")"
  | none => key.name

/-! ## Trees -/

open Literal in
mutual

/-- An expression as written. -/
def Expr.render : Expr → String
  | .ident id => id.name
  | .int _ value => toString value
  | .float _ value => Numeral.writeFloat value
  | .str _ value => quote value
  | .bool _ value => if value then "true" else "false"
  | .nil _ => "nil"
  | .tuple _ items => renderTuple (Expr.renderAll items)
  | .list _ items => "[" ++ commas (Expr.renderAll items) ++ "]"
  | .dict _ entries => "#" ++ braced (commas (DictEntry.renderAll entries))
  | .template _ tag parts exprs =>
    Expr.renderBetween "" " " tag ++ "t\"" ++ templateBody parts (Expr.renderAll exprs) ++ "\""
  | .func _ params body => "func" ++ renderParams params ++ " " ++ body.render
  | .unary _ op operand => "(" ++ op.text ++ operand.render ++ ")"
  | .binary _ op left right => "(" ++ left.render ++ " " ++ op.text ++ " " ++ right.render ++ ")"
  | .ternary _ cond thenE elseE =>
    "(" ++ cond.render ++ " ? " ++ thenE.render ++ " : " ++ elseE.render ++ ")"
  | .conditional _ thenE cond elseE =>
    "(" ++ thenE.render ++ " if " ++ cond.render ++ " else " ++ elseE.render ++ ")"
  | .assign _ target op value =>
    "(" ++ target.render ++ " " ++ op.text ++ " " ++ value.render ++ ")"
  | .spread _ value => "..." ++ value.render
  | .call _ callee args => callee.render ++ "(" ++ commas (Expr.renderAll args) ++ ")"
  | .index _ object index => "(" ++ object.render ++ "[" ++ index.render ++ "])"
  | .slice _ object low high step =>
    "(" ++ object.render ++ "[" ++ Expr.renderBetween "" "" low ++ ":"
      ++ Expr.renderBetween "" "" high ++ Expr.renderBetween ":" "" step ++ "])"
  | .member _ object name => object.render ++ "." ++ name.name
  | .comprehension _ elem var seq filter =>
    "[" ++ elem.render ++ " for " ++ var.name ++ " in " ++ seq.render
      ++ Expr.renderBetween " if " "" filter ++ "]"
  | .select _ value arms fallback =>
    "match (" ++ value.render ++ ") "
      ++ braced (String.join (MatchArm.renderAll arms)
        ++ Expr.renderBetween " default \x7b " " \x7d" fallback ++ " ")

/-- Expressions as written, each on its own. -/
def Expr.renderAll : List Expr → List String
  | [] => []
  | e :: es => e.render :: Expr.renderAll es

/-- An expression as written between two texts, or nothing where it is missing. -/
def Expr.renderBetween (before behind : String) : Option Expr → String
  | none => ""
  | some e => before ++ e.render ++ behind

/-- A dictionary entry as written. -/
def DictEntry.render : DictEntry → String
  | .pair key value => key.render ++ ": " ++ value.render
  | .shorthand id => id.name

/-- Dictionary entries as written, each on its own. -/
def DictEntry.renderAll : List DictEntry → List String
  | [] => []
  | e :: es => e.render :: DictEntry.renderAll es

/-- A case of a `match` expression as written, with a space in front. -/
def MatchArm.render : MatchArm → String
  | .mk _ values result =>
    " case " ++ commas (Expr.renderAll values) ++ " " ++ braced (" " ++ result.render ++ " ")

/-- The cases of a `match` expression as written, each on its own. -/
def MatchArm.renderAll : List MatchArm → List String
  | [] => []
  | arm :: arms => arm.render :: MatchArm.renderAll arms

/-- A block as written. -/
def Block.render : Block → String
  | .mk _ stmts => renderBlock (Stmt.renderAll stmts)

/-- A block as written behind a text, or nothing where it is missing. -/
def Block.renderBehind (before : String) : Option Block → String
  | none => ""
  | some body => before ++ body.render

/-- A case of a `switch` statement as written, with a space in front. -/
def SwitchCase.render : SwitchCase → String
  | .mk _ values body => " case " ++ commas (Expr.renderAll values) ++ " " ++ body.render

/-- The cases of a `switch` statement as written, each on its own. -/
def SwitchCase.renderAll : List SwitchCase → List String
  | [] => []
  | c :: cs => c.render :: SwitchCase.renderAll cs

/-- A handler as written, with a space in front. -/
def CatchClause.render : CatchClause → String
  | .mk _ name body => " catch " ++ renderCaught name ++ body.render

/-- A handler as written, or nothing where it is missing. -/
def CatchClause.renderOption : Option CatchClause → String
  | none => ""
  | some handler => handler.render

/-- A statement as written. -/
def Stmt.render : Stmt → String
  | .expr _ value => value.render
  | .assign _ name op value => name.name ++ " " ++ op.text ++ " " ++ value.render
  | .indexAssign _ object index op value =>
    object.render ++ "[" ++ index.render ++ "] " ++ op.text ++ " " ++ value.render
  | .memberAssign _ object name op value =>
    object.render ++ "." ++ name.name ++ " " ++ op.text ++ " " ++ value.render
  | .destructure _ targets op value =>
    "(" ++ commas (targets.map Target.render) ++ ") " ++ op.text ++ " " ++ value.render
  | .cond _ test thenS elseS =>
    "if (" ++ test.render ++ ") " ++ thenS.render ++ Stmt.renderBehind " else " elseS
  | .whileLoop _ test body => "while (" ++ test.render ++ ") " ++ body.render
  | .forLoop _ init test post body =>
    "for (" ++ Stmt.renderBehind "" init ++ "; " ++ Expr.renderBetween "" "" test ++ "; "
      ++ Stmt.renderBehind "" post ++ ") " ++ body.render
  | .forIn _ key value seq body =>
    "for (" ++ renderLoopNames key value ++ " in " ++ seq.render ++ ") " ++ body.render
  | .switch _ value cases fallback =>
    "switch (" ++ value.render ++ ") "
      ++ braced (String.join (SwitchCase.renderAll cases)
        ++ Block.renderBehind " default " fallback ++ " ")
  | .tryCatch _ body handler finalizer =>
    "try " ++ body.render ++ CatchClause.renderOption handler
      ++ Block.renderBehind " finally " finalizer
  | .func _ name params body => "func " ++ name.name ++ renderParams params ++ " " ++ body.render
  | .importAs _ path asName => "import " ++ quote path.value ++ renderAs asName
  | .importFrom _ path items =>
    "from " ++ quote path.value ++ " import " ++ commas (items.map ImportItem.render)
  | .exported _ stmt => "export " ++ stmt.render
  | .ret _ values => renderReturn (Expr.renderAll values)
  | .brk _ => "break"
  | .cont _ => "continue"
  | .pass _ => "pass"
  | .raise _ value => "throw " ++ value.render
  | .defer _ call => "defer " ++ call.render
  | .block body => body.render

/-- Statements as written, each on its own. -/
def Stmt.renderAll : List Stmt → List String
  | [] => []
  | s :: ss => s.render :: Stmt.renderAll ss

/-- A statement as written behind a text, or nothing where it is missing. -/
def Stmt.renderBehind (before : String) : Option Stmt → String
  | none => ""
  | some s => before ++ s.render

end

/-- A program as written, one statement per line. -/
def Program.render (program : Program) : String :=
  String.join ((Stmt.renderAll program.stmts).map (· ++ "\n"))

/-! ## Lists of texts -/

@[simp] theorem Expr.renderAll_eq (es : List Expr) : Expr.renderAll es = es.map Expr.render := by
  induction es with
  | nil => rfl
  | cons e es ih => rw [Expr.renderAll, ih, List.map_cons]

@[simp] theorem DictEntry.renderAll_eq (entries : List DictEntry) :
    DictEntry.renderAll entries = entries.map DictEntry.render := by
  induction entries with
  | nil => rfl
  | cons e entries ih => rw [DictEntry.renderAll, ih, List.map_cons]

@[simp] theorem MatchArm.renderAll_eq (arms : List MatchArm) :
    MatchArm.renderAll arms = arms.map MatchArm.render := by
  induction arms with
  | nil => rfl
  | cons arm arms ih => rw [MatchArm.renderAll, ih, List.map_cons]

@[simp] theorem SwitchCase.renderAll_eq (cases : List SwitchCase) :
    SwitchCase.renderAll cases = cases.map SwitchCase.render := by
  induction cases with
  | nil => rfl
  | cons c cases ih => rw [SwitchCase.renderAll, ih, List.map_cons]

@[simp] theorem Stmt.renderAll_eq (ss : List Stmt) : Stmt.renderAll ss = ss.map Stmt.render := by
  induction ss with
  | nil => rfl
  | cons s ss ih => rw [Stmt.renderAll, ih, List.map_cons]

end Welle
