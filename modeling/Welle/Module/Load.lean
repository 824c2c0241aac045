import Welle.FileSystem
import Welle.Module.Exports

set_option autoImplicit false

/-! # Modules on disk -/

namespace Welle

/-- A module whose file cannot be read. -/
structure LoadError where
  path : Path
deriving DecidableEq, Repr

/-- The wording of a load error. -/
def LoadError.message (e : LoadError) : String := s!"failed to read module {e.path}"

/-- The exports of the module in a file. -/
def ModuleInfo.load (disk : FileSystem) (p : Path) : Except LoadError ModuleInfo :=
  match disk.readText? p with
  | some text => .ok (.ofText p.text text)
  | none => .error ⟨p⟩

end Welle
