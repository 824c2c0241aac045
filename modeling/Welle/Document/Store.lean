import Welle.Document
import Welle.Module.Index
import Welle.Path.Table
import Welle.Uri

set_option autoImplicit false

/-! # Open documents

The documents that an editor has open, by URI. A document that has a path is also found by that
path, together with the index of its module. -/

namespace Welle

/-- The open documents, which of them stands for each path, and the module indexes by path. -/
structure Store where
  documents : List (Uri × Document)
  paths : Path.Table Uri
  indexes : Path.Table ModuleIndex

namespace Store

/-- No open documents. -/
def empty : Store := ⟨[], [], []⟩

/-! ## Queries -/

/-- The document at a URI. -/
def document? (store : Store) (uri : Uri) : Option Document := store.documents.lookup uri

/-- The text of the document at a URI. -/
def text? (store : Store) (uri : Uri) : Option String := (store.document? uri).map (·.text)

/-- The text of the document that stands for a path. -/
def textAt? (store : Store) (p : Path) : Option String := (store.paths.get? p).bind store.text?

/-- The index of the document that stands for a path. -/
def indexAt? (store : Store) (p : Path) : Option ModuleIndex := store.indexes.get? p

/-- The paths of open documents. -/
def openPaths (store : Store) : List Path := store.paths.keys

/-! ## Changes -/

/-- The store with a document at a URI, which from now on stands for its path. -/
def put (store : Store) (uri : Uri) (doc : Document) : Store :=
  let documents := (uri, doc) :: store.documents.filter (·.1 ≠ uri)
  match uri.path? with
  | none => { store with documents }
  | some p =>
    { documents
      paths := store.paths.insert p uri
      indexes := store.indexes.insert p (.ofText doc.text) }

/-- Opens a document. -/
def openDocument (store : Store) (uri : Uri) (text : String) (version : Int) : Store :=
  store.put uri ⟨text, version⟩

/-- Edits an open document. Edits of a document that is not open are ignored. -/
def change (store : Store) (uri : Uri) (edits : List Edit) (version : Int) : Store :=
  match store.document? uri with
  | none => store
  | some doc => store.put uri (doc.change edits version)

/-- Closes a document. Its path no longer has one. -/
def close (store : Store) (uri : Uri) : Store :=
  let documents := store.documents.filter (·.1 ≠ uri)
  match uri.path? with
  | none => { store with documents }
  | some p => { documents, paths := store.paths.erase p, indexes := store.indexes.erase p }

end Store

end Welle
