import Welle.Toml.Scalar

set_option autoImplicit false

/-! # Reading TOML values

Arrays and tables can stand in each other, up to a fixed number of levels. The readers of one level
take the reader of the levels below as an argument. -/

namespace Welle.Toml

/-- The items of an array up to its closing bracket. A comma may stand behind the last one. -/
def items? (read : List Char → Option (Value × List Char)) :
    Nat → List Char → Option (List Value × List Char)
  | 0, _ => none
  | fuel + 1, cs =>
    match skipGap cs.length cs with
    | ']' :: rest => some ([], rest)
    | cs => do
      let (item, rest) ← read cs
      match skipGap rest.length rest with
      | ',' :: rest =>
        let (items, rest) ← items? read fuel rest
        return (item :: items, rest)
      | ']' :: rest => return ([item], rest)
      | _ => none

/-- A key and its value. -/
def assignment? (read : List Char → Option (Value × List Char)) (cs : List Char) :
    Option (List String × Value × List Char) := do
  let (key, rest) ← key? cs.length cs
  let (value, rest) ← read (skipBlanks (← behind? '=' rest))
  return (key, value, rest)

/-- The entries of a table up to its closing brace. A comma may stand behind the last one. -/
def entries? (read : List Char → Option (Value × List Char)) :
    Nat → Table → List Char → Option (Table × List Char)
  | 0, _, _ => none
  | fuel + 1, table, cs =>
    match skipGap cs.length cs with
    | '\x7d' :: rest => some (table, rest)
    | cs => do
      let (key, value, rest) ← assignment? read cs
      let table ← table.insert? key value
      match skipGap rest.length rest with
      | ',' :: rest => entries? read fuel table rest
      | '\x7d' :: rest => return (table, rest)
      | _ => none

/-- A value of at most the given number of levels. -/
def value? : Nat → List Char → Option (Value × List Char)
  | 0, cs => scalarValue? cs
  | levels + 1, cs =>
    match cs with
    | '[' :: rest =>
      (items? (value? levels) (rest.length + 1) rest).map fun (items, rest) => (.array items, rest)
    | '\x7b' :: rest =>
      (entries? (value? levels) (rest.length + 1) [] rest).map fun (table, rest) =>
        (.table .value table, rest)
    | _ => scalarValue? cs

/-- How many levels of arrays and tables a value may have. -/
def maxLevels : Nat := 80

end Welle.Toml
