set_option autoImplicit false

/-! # TOML values

A document is a table of values by key. Tables come to be in several ways, and how one did decides
what may still be added to it: a key is never given twice, and a table is never opened twice. -/

namespace Welle.Toml

/-- How a table came to be: under its own header, on the way to another header, on the way to a
    dotted key, or written out as a value. -/
inductive Origin where
  | header
  | implied
  | dotted
  | value
deriving DecidableEq, Repr

/-- A value. No use is made of the value of a float or a time. An array of tables has a last one,
    which is the one that may grow. -/
inductive Value where
  | text (value : String)
  | int (value : Int)
  | float
  | bool (value : Bool)
  | time
  | array (items : List Value)
  | table (origin : Origin) (entries : List (String × Value))
  | tables (earlier : List (List (String × Value))) (last : List (String × Value))

/-- A table: its keys with their values. -/
abbrev Table := List (String × Value)

namespace Table

/-- The table with another value for a key. -/
def put (table : Table) (key : String) (value : Value) : Table :=
  if (table.lookup key).isSome then
    table.map fun entry => if entry.1 = key then (key, value) else entry
  else table ++ [(key, value)]

/-- Changes the table that a path of keys leads to. Tables that are missing on the way come to be
    with origin `fresh`, and those that are there have to be of an origin that may be entered. -/
def within? (fresh : Origin) (mayEnter : Origin → Bool) (change : Origin → Table → Option Table) :
    List String → Origin → Table → Option Table
  | [], origin, table => change origin table
  | key :: path, _, table =>
    match table.lookup key with
    | none => (within? fresh mayEnter change path fresh []).map fun inner =>
      table.put key (.table fresh inner)
    | some (.table origin inner) =>
      if mayEnter origin then
        (within? fresh mayEnter change path origin inner).map fun inner =>
          table.put key (.table origin inner)
      else none
    | some (.tables earlier last) =>
      (within? fresh mayEnter change path .header last).map fun last =>
        table.put key (.tables earlier last)
    | some _ => none

/-- Adds a value under a dotted key. All tables on the way have to be open to dotted keys, and the
    last one has to be there for dotted keys only. -/
def insert? (table : Table) (key : List String) (value : Value) : Option Table := do
  let path := key.dropLast
  let last ← key.getLast?
  let add := fun (origin : Origin) (inner : Table) =>
    if (path.isEmpty || origin = .dotted) && (inner.lookup last).isNone then
      some (inner.put last value)
    else none
  within? .dotted (fun origin => origin = .implied || origin = .dotted) add path .header table

/-- Changes the table under a header. Tables that are written out are closed. -/
def under? (table : Table) (header : List String) (change : Table → Option Table) : Option Table :=
  within? .implied (· ≠ .value) (fun _ inner => change inner) header .header table

/-- Opens the table of a header. One that is there has to be there for other headers only. -/
def openTable? (table : Table) (header : List String) : Option Table := do
  let last ← header.getLast?
  table.under? header.dropLast fun inner =>
    match inner.lookup last with
    | none => some (inner.put last (.table .header []))
    | some (.table .implied entries) => some (inner.put last (.table .header entries))
    | some _ => none

/-- Opens the next table of the array of a header. -/
def openNext? (table : Table) (header : List String) : Option Table := do
  let last ← header.getLast?
  table.under? header.dropLast fun inner =>
    match inner.lookup last with
    | none => some (inner.put last (.tables [] []))
    | some (.tables earlier entries) => some (inner.put last (.tables (earlier ++ [entries]) []))
    | some _ => none

end Table

end Welle.Toml
