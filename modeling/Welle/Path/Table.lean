import Welle.Path

set_option autoImplicit false

/-! # Values by path

A table in which paths with the same components are one key. -/

namespace Welle.Path

/-- Values by path. -/
abbrev Table (α : Type) := List (Path × α)

namespace Table

variable {α : Type}

/-- The value of a path. -/
def get? (table : Table α) (p : Path) : Option α := (table.find? (·.1.same p)).map (·.2)

/-- The table with another value for a path. A path that is there keeps its text. -/
def insert (table : Table α) (p : Path) (value : α) : Table α :=
  if table.any (·.1.same p) then
    table.map fun entry => if entry.1.same p then (entry.1, value) else entry
  else table ++ [(p, value)]

/-- The table without a path. -/
def erase (table : Table α) (p : Path) : Table α := table.filter (!·.1.same p)

/-- The paths of a table. -/
def keys (table : Table α) : List Path := table.map (·.1)

end Table

end Welle.Path
