import Welle.Tree

set_option autoImplicit false

/-! # Imported names

The names that `from` imports bring into a program, at any depth of its statements. Only bodies of
statements are searched, not expressions. -/

namespace Welle

/-- A name of an import list and the specifier of the module that it comes from. -/
structure ImportedName where
  spec : String
  item : ImportItem
deriving DecidableEq, Repr

mutual

/-- The names that a statement imports. -/
def Stmt.importedNames : Stmt → List ImportedName
  | .importFrom _ path items => items.map fun item => ⟨path.value, item⟩
  | .block body => body.importedNames
  | .cond _ _ thenS elseS => thenS.importedNames ++ Stmt.optionImportedNames elseS
  | .whileLoop _ _ body | .forIn _ _ _ _ body | .forLoop _ _ _ _ body | .func _ _ _ body =>
    body.importedNames
  | .switch _ _ cases fallback =>
    SwitchCase.listImportedNames cases ++ Block.optionImportedNames fallback
  | .tryCatch _ body handler finalizer =>
    body.importedNames ++ CatchClause.optionImportedNames handler
      ++ Block.optionImportedNames finalizer
  | .exported _ stmt => stmt.importedNames
  | .expr .. | .assign .. | .indexAssign .. | .memberAssign .. | .destructure .. | .importAs ..
  | .ret .. | .brk .. | .cont .. | .pass .. | .raise .. | .defer .. => []

/-- The names that statements import, one after the other. -/
def Stmt.listImportedNames : List Stmt → List ImportedName
  | [] => []
  | s :: ss => s.importedNames ++ Stmt.listImportedNames ss

/-- The names that a statement imports which may be missing. -/
def Stmt.optionImportedNames : Option Stmt → List ImportedName
  | none => []
  | some s => s.importedNames

/-- The names that the statements of a block import. -/
def Block.importedNames : Block → List ImportedName
  | .mk _ stmts => Stmt.listImportedNames stmts

/-- The names that the statements of a block import which may be missing. -/
def Block.optionImportedNames : Option Block → List ImportedName
  | none => []
  | some body => body.importedNames

/-- The names that a case of a `switch` statement imports. -/
def SwitchCase.importedNames : SwitchCase → List ImportedName
  | .mk _ _ body => body.importedNames

/-- The names that the cases of a `switch` statement import. -/
def SwitchCase.listImportedNames : List SwitchCase → List ImportedName
  | [] => []
  | c :: cs => c.importedNames ++ SwitchCase.listImportedNames cs

/-- The names that a handler imports. -/
def CatchClause.importedNames : CatchClause → List ImportedName
  | .mk _ _ body => body.importedNames

/-- The names that a handler imports which may be missing. -/
def CatchClause.optionImportedNames : Option CatchClause → List ImportedName
  | none => []
  | some handler => handler.importedNames

end

/-- The names that the statements of a program import. -/
def Program.importedNames (program : Program) : List ImportedName :=
  Stmt.listImportedNames program.stmts

end Welle
