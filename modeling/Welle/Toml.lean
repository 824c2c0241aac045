import Welle.Toml.Reader

set_option autoImplicit false

/-! # TOML

A reader for TOML documents. A document is a table: lines of keys and values, under headers that
name the table they belong to. -/

namespace Welle.Toml

/-- A document while it is read: its table and the header that lines stand under. -/
structure Document where
  table : Table
  header : List String

namespace Document

/-- The key of a header up to its closing bracket. -/
def headerKey? (cs : List Char) : Option (List String × List Char) := do
  let (key, rest) ← key? cs.length cs
  return (key, ← behind? ']' rest)

/-- Reads a header behind its opening bracket. Two brackets open the next table of an array. -/
def readHeader? (doc : Document) (cs : List Char) : Option (Document × List Char) :=
  match cs with
  | '[' :: rest => do
    let (key, rest) ← headerKey? rest
    return (⟨← doc.table.openNext? key, key⟩, ← behind? ']' rest)
  | _ => do
    let (key, rest) ← headerKey? cs
    return (⟨← doc.table.openTable? key, key⟩, rest)

/-- Reads a key and its value. -/
def readEntry? (doc : Document) (cs : List Char) : Option (Document × List Char) := do
  let (key, value, rest) ← assignment? (value? maxLevels) cs
  let table ← doc.table.under? doc.header fun table => table.insert? key value
  return ({ doc with table }, rest)

/-- Reads a document line by line. -/
def readLines? : Nat → Document → List Char → Option Document
  | 0, _, _ => none
  | fuel + 1, doc, cs => do
    let (doc, rest) ← match skipBlanks cs with
      | [] | '\n' :: _ | '\r' :: _ | '#' :: _ => some (doc, cs)
      | '[' :: rest => doc.readHeader? rest
      | rest => doc.readEntry? rest
    match ← endLine? rest with
    | [] => return doc
    | rest => readLines? fuel doc rest

end Document

/-- The text without the mark for the order of bytes that it may start with. -/
def dropMark : List Char → List Char
  | '\uFEFF' :: cs => cs
  | cs => cs

/-- Reads a document. -/
def parse? (text : String) : Option Table :=
  let cs := dropMark text.toList
  (Document.readLines? (cs.length + 1) ⟨[], []⟩ cs).map Document.table

end Welle.Toml
