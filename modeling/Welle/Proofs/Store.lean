import Mathlib.Data.List.Induction
import Welle.Document.Store

set_option autoImplicit false

/-! # Open documents and their paths

An editor opens, changes and closes documents in any order. What it did says which documents are
open, without a look at the store: those that were opened and not closed since. Several identifiers
can name one path; the document that was opened or changed last stands for it.

The index of a path is always that of the text that stands for it, which is the text of an open
document. Closing a document takes its path away from whichever document stands for it, so an open
document hides its file exactly as long as no document of the same path is closed without another
one being opened or changed behind that. -/

namespace Welle

/-! ## Tables -/

namespace Path

theorem same_congr {p q : Path} (h : p.same q = true) (r : Path) : p.same r = q.same r := by
  simp only [same, decide_eq_true_eq] at h
  simp [same, h]

theorem same_comm (p q : Path) : p.same q = q.same p := by
  simp [same, eq_comm]

theorem not_same_of_same {p q r : Path} (hp : r.same p ≠ true) (hq : r.same q = true) :
    p.same q ≠ true := by
  intro h
  rw [same_comm] at h
  rw [same_comm, ← same_congr h r, same_comm] at hp
  exact hp hq

namespace Table

variable {α : Type}

theorem get?_cons (entry : Path × α) (table : Table α) (p : Path) :
    Table.get? (entry :: table) p = if entry.1.same p then some entry.2 else table.get? p := by
  by_cases h : entry.1.same p = true <;> simp [get?, h]

theorem get?_append (table table' : Table α) (p : Path) :
    Table.get? (table ++ table') p = (table.get? p).or (table'.get? p) := by
  simp [get?, List.find?_append, Option.map_or]

/-- Other values for the entries of a path change nothing at other paths. -/
theorem get?_overwrite (table : Table α) (p q : Path) (value : α) :
    Table.get? (table.map fun entry => if entry.1.same p then (entry.1, value) else entry) q
      = if p.same q then (table.get? q).map fun _ => value else table.get? q := by
  induction table with
  | nil => simp [get?]
  | cons entry table ih =>
    rw [List.map_cons, get?_cons, get?_cons, ih]
    by_cases hp : entry.1.same p = true
    · have hq : entry.1.same q = p.same q := same_congr hp q
      by_cases h : p.same q = true <;> simp [hp, hq, h]
    · by_cases hq : entry.1.same q = true
      · -- the entry stands for `q`, so `q` is not `p`
        simp [hp, hq, not_same_of_same hp hq]
      · simp [hp, hq]

theorem isSome_get? (table : Table α) (p : Path) :
    (table.get? p).isSome = table.any (·.1.same p) := by
  simp [get?, List.isSome_find?]

/-- A path has the value that it was given last. -/
theorem get?_insert (table : Table α) (p q : Path) (value : α) :
    (table.insert p value).get? q = if p.same q then some value else table.get? q := by
  unfold insert
  by_cases h : p.same q = true
  · have hfound : (table.get? q).isSome = table.any (·.1.same p) := by
      rw [isSome_get?]
      simp only [same_comm _ q, same_comm _ p, same_congr h]
    by_cases hany : table.any (·.1.same p) = true
    · obtain ⟨old, hold⟩ := Option.isSome_iff_exists.1 (hfound.trans hany)
      rw [if_pos hany, get?_overwrite, hold]
      simp [h]
    · have hnone : table.get? q = none := by simpa [hany] using hfound
      rw [if_neg hany, get?_append, get?_cons, hnone]
      simp [h]
  · by_cases hany : table.any (·.1.same p) = true
    · simp [hany, get?_overwrite, h]
    · rw [if_neg hany, get?_append, get?_cons]
      simp [h, get?]

/-- A path that is taken out has no value. -/
theorem get?_erase (table : Table α) (p q : Path) :
    (table.erase p).get? q = if p.same q then none else table.get? q := by
  unfold erase
  induction table with
  | nil => simp [get?]
  | cons entry table ih =>
    by_cases hp : entry.1.same p = true
    · have hq : entry.1.same q = p.same q := same_congr hp q
      rw [List.filter_cons_of_neg (by simpa using hp), ih, get?_cons, hq]
      by_cases h : p.same q = true <;> simp [h]
    · rw [List.filter_cons_of_pos (by simpa using hp), get?_cons, get?_cons, ih]
      by_cases hq : entry.1.same q = true
      · simp [hq, not_same_of_same hp hq]
      · simp [hq]

/-- The paths of a table are those that have a value. -/
theorem exists_mem_keys_iff {table : Table α} {p : Path} :
    (∃ q ∈ table.keys, q.same p = true) ↔ (table.get? p).isSome = true := by
  simp [keys, get?]

end Table

end Path

/-- Whether an identifier names a path. -/
def Uri.denotes (uri : Uri) (p : Path) : Bool := uri.path?.any (·.same p)

theorem Uri.denotes_of_path? {uri : Uri} {p : Path} (h : uri.path? = some p) :
    uri.denotes p = true := by
  simp [Uri.denotes, h, Path.same]

/-- A file's identifier, as an editor writes its path. -/
def sampleUri (path : String) : Uri := ⟨Uri.fileScheme, some .empty, path, ""⟩

/-- Bytes that are no UTF-8 are shown alike, but they do not name one path. -/
example : (sampleUri "/a%FF.wll").path?.map (sampleUri "/a%FE.wll").denotes = some false := by
  decide +kernel

namespace Store

/-! ## Runs -/

/-- What an editor does with a document. -/
inductive Operation where
  | opens (uri : Uri) (text : String) (version : Int)
  | changes (uri : Uri) (edits : List Edit) (version : Int)
  | closes (uri : Uri)

/-- The store after an operation. -/
def apply (store : Store) : Operation → Store
  | .opens uri text version => store.openDocument uri text version
  | .changes uri edits version => store.change uri edits version
  | .closes uri => store.close uri

/-- The store after operations, of which the first finds no open documents. -/
def run (ops : List Operation) : Store := ops.foldl apply empty

theorem run_append_cons (before after : List Operation) (op : Operation) :
    run (before ++ op :: after) = after.foldl apply ((run before).apply op) := by
  simp [run]

theorem run_concat (ops : List Operation) (op : Operation) :
    run (ops ++ [op]) = (run ops).apply op :=
  run_append_cons ops [] op

/-! ## Documents that are left open -/

/-- Whether an operation closes a document or opens it anew. -/
def Operation.drops (uri : Uri) : Operation → Bool
  | opens other _ _ | closes other => other = uri
  | changes .. => false

/-- What an operation makes of a document that it leaves open. -/
def Operation.edited (uri : Uri) (doc : Document) : Operation → Document
  | changes other edits version => if other = uri then doc.change edits version else doc
  | opens .. | closes .. => doc

/-- Operations leave a document open: it was opened, it was not closed or opened anew since, and it
    is what it was opened with after the edits that followed. -/
def LeavesOpen (ops : List Operation) (uri : Uri) (doc : Document) : Prop :=
  ∃ before text version after, ops = before ++ .opens uri text version :: after ∧
    (∀ op ∈ after, op.drops uri = false) ∧
    doc = after.foldl (fun doc op => op.edited uri doc) ⟨text, version⟩

/-! ## What an operation does -/

section Queries

variable (store : Store) (uri : Uri) (doc : Document)

theorem lookup_filter_ne (documents : List (Uri × Document)) (other : Uri) :
    (documents.filter (·.1 ≠ uri)).lookup other
      = if other = uri then none else documents.lookup other := by
  induction documents with
  | nil => simp
  | cons entry documents ih =>
    obtain ⟨key, value⟩ := entry
    by_cases hkey : key = uri
    · rw [List.filter_cons_of_neg (by simpa using hkey), ih, List.lookup_cons]
      by_cases hother : other = uri
      · simp [hother]
      · have hne : (other == key) = false := by simpa [hkey] using hother
        simp [hother, hne]
    · rw [List.filter_cons_of_pos (by simpa using hkey), List.lookup_cons, List.lookup_cons, ih]
      by_cases hother : other = uri
      · have hne : (uri == key) = false := by simpa using Ne.symm hkey
        simp [hother, hne]
      · simp [hother]

theorem document?_put (other : Uri) :
    (store.put uri doc).document? other
      = if other = uri then some doc else store.document? other := by
  have hdocuments : (store.put uri doc).documents
      = (uri, doc) :: store.documents.filter (·.1 ≠ uri) := by
    unfold put
    cases uri.path? <;> rfl
  rw [document?, hdocuments, List.lookup_cons, lookup_filter_ne]
  by_cases hother : other = uri
  · simp [hother]
  · have hne : (other == uri) = false := by simpa using hother
    simp [hother, hne, document?]

theorem document?_close (other : Uri) :
    (store.close uri).document? other = if other = uri then none else store.document? other := by
  have hdocuments : (store.close uri).documents = store.documents.filter (·.1 ≠ uri) := by
    unfold close
    cases uri.path? <;> rfl
  rw [document?, hdocuments, lookup_filter_ne]
  rfl

theorem paths_put (p : Path) :
    (store.put uri doc).paths.get? p = if uri.denotes p then some uri else store.paths.get? p := by
  unfold put Uri.denotes
  cases uri.path? <;> simp [Path.Table.get?_insert]

theorem paths_close (p : Path) :
    (store.close uri).paths.get? p = if uri.denotes p then none else store.paths.get? p := by
  unfold close Uri.denotes
  cases uri.path? <;> simp [Path.Table.get?_erase]

theorem indexAt?_put (p : Path) :
    (store.put uri doc).indexAt? p
      = if uri.denotes p then some (.ofText doc.text) else store.indexAt? p := by
  unfold put Uri.denotes indexAt?
  cases uri.path? <;> simp [Path.Table.get?_insert]

theorem indexAt?_close (p : Path) :
    (store.close uri).indexAt? p = if uri.denotes p then none else store.indexAt? p := by
  unfold close Uri.denotes indexAt?
  cases uri.path? <;> simp [Path.Table.get?_erase]

end Queries

/-- An operation puts a document at its identifier, takes one away or does nothing. -/
theorem apply_cases (store : Store) (op : Operation) :
    (∃ uri doc, store.apply op = store.put uri doc) ∨ (∃ uri, store.apply op = store.close uri)
      ∨ store.apply op = store := by
  cases op with
  | opens uri text version => exact .inl ⟨uri, _, rfl⟩
  | changes uri edits version =>
    cases hdoc : store.document? uri with
    | none => exact .inr (.inr (by simp [apply, change, hdoc]))
    | some doc => exact .inl ⟨uri, doc.change edits version, by simp [apply, change, hdoc]⟩
  | closes uri => exact .inr (.inl ⟨uri, rfl⟩)

theorem document?_apply {store : Store} {op : Operation} {uri : Uri} (h : op.drops uri = false) :
    (store.apply op).document? uri = (store.document? uri).map fun doc => op.edited uri doc := by
  cases op with
  | opens other text version =>
    have hne : uri ≠ other := by
      rintro rfl
      simp [Operation.drops] at h
    simp [apply, openDocument, document?_put, hne, Operation.edited]
  | changes other edits version =>
    by_cases heq : other = uri
    · subst heq
      cases hdoc : store.document? other <;>
        simp [apply, change, hdoc, document?_put, Operation.edited]
    · cases hdoc : store.document? other <;>
        simp [apply, change, hdoc, document?_put, Operation.edited, heq, Ne.symm heq]
  | closes other =>
    have hne : uri ≠ other := by
      rintro rfl
      simp [Operation.drops] at h
    simp [apply, document?_close, hne, Operation.edited]

theorem document?_foldl {after : List Operation} {uri : Uri}
    (h : ∀ op ∈ after, op.drops uri = false) (store : Store) :
    (after.foldl apply store).document? uri
      = (store.document? uri).map fun doc => after.foldl (fun doc op => op.edited uri doc) doc := by
  induction after generalizing store with
  | nil => simp
  | cons op after ih =>
    rw [List.forall_mem_cons] at h
    rw [List.foldl_cons, ih h.2, document?_apply h.1, Option.map_map]
    rfl

theorem leavesOpen_concat {ops : List Operation} {op : Operation} {uri : Uri} {doc : Document}
    (h : LeavesOpen ops uri doc) (hdrops : op.drops uri = false) :
    LeavesOpen (ops ++ [op]) uri (op.edited uri doc) := by
  obtain ⟨before, text, version, after, rfl, hafter, rfl⟩ := h
  refine ⟨before, text, version, after ++ [op], by simp, ?_, by simp⟩
  intro later hlater
  rcases List.mem_append.1 hlater with hlater | hlater
  · exact hafter later hlater
  · rw [List.mem_singleton.1 hlater]
    exact hdrops

/-- The documents of a run are those that its operations leave open. -/
theorem document?_run {ops : List Operation} {uri : Uri} {doc : Document} :
    (run ops).document? uri = some doc ↔ LeavesOpen ops uri doc := by
  constructor
  · -- from the end of the run: its last operation drops the document or leaves it open
    intro hdoc
    induction ops using List.reverseRecOn generalizing doc with
    | nil => simp [run, document?, empty] at hdoc
    | append_singleton ops op ih =>
      rw [run_concat] at hdoc
      by_cases hdrops : op.drops uri = true
      · cases op with
        | opens other text version =>
          obtain rfl : other = uri := by simpa [Operation.drops] using hdrops
          obtain rfl : ⟨text, version⟩ = doc := by
            simpa [apply, openDocument, document?_put] using hdoc
          exact ⟨ops, text, version, [], rfl, by simp, rfl⟩
        | changes other edits version => cases hdrops
        | closes other =>
          obtain rfl : other = uri := by simpa [Operation.drops] using hdrops
          simp [apply, document?_close] at hdoc
      · have hdrops : op.drops uri = false := by simpa using hdrops
        rw [document?_apply hdrops] at hdoc
        obtain ⟨old, hold, rfl⟩ := Option.map_eq_some_iff.1 hdoc
        exact leavesOpen_concat (ih hold) hdrops
  · rintro ⟨before, text, version, after, rfl, hafter, rfl⟩
    have hopened : ((run before).apply (.opens uri text version)).document? uri
        = some ⟨text, version⟩ := by
      simp [apply, openDocument, document?_put]
    rw [run_append_cons, document?_foldl hafter, hopened, Option.map_some]

/-! ## The text and the index of a path -/

/-- The document that stands for a path is open and has that path, and the index of the path is that
    of its text. -/
structure Consistent (store : Store) : Prop where
  denotes {p : Path} {uri : Uri} : store.paths.get? p = some uri →
    uri.denotes p = true ∧ ∃ doc, store.document? uri = some doc
  index (p : Path) : store.indexAt? p = (store.textAt? p).map .ofText

namespace Consistent

variable {store : Store}

/-- The document that stands for a path is not one without that path. -/
theorem ne_of_not_denotes (h : store.Consistent) {p : Path} {uri other : Uri}
    (hdenotes : uri.denotes p ≠ true) (hpath : store.paths.get? p = some other) : other ≠ uri := by
  rintro rfl
  exact hdenotes (h.denotes hpath).1

theorem textAt?_put (h : store.Consistent) (uri : Uri) (doc : Document) (p : Path) :
    (store.put uri doc).textAt? p = if uri.denotes p then some doc.text else store.textAt? p := by
  unfold textAt?
  rw [paths_put]
  by_cases hdenotes : uri.denotes p = true
  · simp [hdenotes, text?, document?_put]
  · -- what stands for the path is another document, whose text stays
    cases hpath : store.paths.get? p with
    | none => simp [hdenotes]
    | some other => simp [hdenotes, text?, document?_put, h.ne_of_not_denotes hdenotes hpath]

theorem textAt?_close (h : store.Consistent) (uri : Uri) (p : Path) :
    (store.close uri).textAt? p = if uri.denotes p then none else store.textAt? p := by
  unfold textAt?
  rw [paths_close]
  by_cases hdenotes : uri.denotes p = true
  · simp [hdenotes]
  · cases hpath : store.paths.get? p with
    | none => simp [hdenotes]
    | some other => simp [hdenotes, text?, document?_close, h.ne_of_not_denotes hdenotes hpath]

/-- A path has a text when a document stands for it. -/
theorem isSome_textAt? (h : store.Consistent) (p : Path) :
    (store.textAt? p).isSome = (store.paths.get? p).isSome := by
  unfold textAt?
  cases hpath : store.paths.get? p with
  | none => rfl
  | some uri =>
    obtain ⟨-, doc, hdoc⟩ := h.denotes hpath
    simp [text?, hdoc]

theorem put (h : store.Consistent) (uri : Uri) (doc : Document) :
    (store.put uri doc).Consistent where
  denotes {p other} hpath := by
    rw [paths_put] at hpath
    rw [document?_put]
    by_cases hdenotes : uri.denotes p = true
    · obtain rfl : uri = other := by simpa [hdenotes] using hpath
      exact ⟨hdenotes, by simp⟩
    · have hpath' : store.paths.get? p = some other := by simpa [hdenotes] using hpath
      simpa [h.ne_of_not_denotes hdenotes hpath'] using h.denotes hpath'
  index p := by
    rw [indexAt?_put, h.textAt?_put, h.index]
    by_cases hdenotes : uri.denotes p = true <;> simp [hdenotes]

theorem close (h : store.Consistent) (uri : Uri) : (store.close uri).Consistent where
  denotes {p other} hpath := by
    rw [paths_close] at hpath
    rw [document?_close]
    by_cases hdenotes : uri.denotes p = true
    · simp [hdenotes] at hpath
    · have hpath' : store.paths.get? p = some other := by simpa [hdenotes] using hpath
      simpa [h.ne_of_not_denotes hdenotes hpath'] using h.denotes hpath'
  index p := by
    rw [indexAt?_close, h.textAt?_close, h.index]
    by_cases hdenotes : uri.denotes p = true <;> simp [hdenotes]

theorem apply (h : store.Consistent) (op : Operation) : (store.apply op).Consistent := by
  obtain ⟨uri, doc, hput⟩ | ⟨uri, hclose⟩ | hsame := store.apply_cases op
  · rw [hput]
    exact h.put uri doc
  · rw [hclose]
    exact h.close uri
  · rw [hsame]
    exact h

end Consistent

theorem consistent_empty : empty.Consistent where
  denotes h := by cases h
  index p := rfl

/-- Every run keeps paths, documents and indexes in step. -/
theorem consistent_run (ops : List Operation) : (run ops).Consistent := by
  induction ops using List.reverseRecOn with
  | nil => exact consistent_empty
  | append_singleton ops op ih =>
    rw [run_concat]
    exact ih.apply op

/-! ## The paths that have a document -/

/-- Whether an operation makes a document stand for a path: it opens a document of the path, or
    changes one that the operations before it left open. -/
def Operation.PutsAt (before : List Operation) (p : Path) : Operation → Prop
  | opens uri _ _ => uri.denotes p = true
  | changes uri _ _ => uri.denotes p = true ∧ ∃ doc, LeavesOpen before uri doc
  | closes _ => False

/-- Whether an operation closes a document of a path. -/
def Operation.closesAt (p : Path) : Operation → Bool
  | closes uri => uri.denotes p
  | opens .. | changes .. => false

/-- A path gets a document when one is put there and loses it when any of its documents is
    closed. -/
theorem isSome_paths_concat {ops : List Operation} {op : Operation} {p : Path} :
    ((run (ops ++ [op])).paths.get? p).isSome = true ↔
      op.PutsAt ops p ∨ op.closesAt p = false ∧ ((run ops).paths.get? p).isSome = true := by
  rw [run_concat]
  cases op with
  | opens uri text version =>
    by_cases h : uri.denotes p = true <;>
      simp [apply, openDocument, paths_put, Operation.PutsAt, Operation.closesAt, h]
  | changes uri edits version =>
    simp only [Operation.PutsAt, ← document?_run, Operation.closesAt, apply, change]
    cases hdoc : (run ops).document? uri with
    | none => simp
    | some doc => by_cases h : uri.denotes p = true <;> simp [paths_put, h]
  | closes uri =>
    by_cases h : uri.denotes p = true <;>
      simp [apply, paths_close, Operation.PutsAt, Operation.closesAt, h]

/-- A document was made to stand for a path at some time. -/
def Placed (ops : List Operation) (p : Path) : Prop :=
  ∃ before, ∃ op : Operation, ∃ after, ops = before ++ op :: after ∧ op.PutsAt before p

/-- Every time a document of a path is closed, one is opened or changed there later on. -/
def Regained (ops : List Operation) (p : Path) : Prop :=
  ∀ before op after, ops = before ++ op :: after → op.closesAt p = true →
    ∃ between, ∃ put : Operation, ∃ behind, after = between ++ put :: behind ∧
      put.PutsAt (before ++ op :: between) p

/-- An operation of a longer run is its last one, or one of the shorter run. -/
theorem concat_eq_append_cons {ops before after : List Operation} {op x : Operation}
    (h : ops ++ [op] = before ++ x :: after) :
    (after = [] ∧ before = ops ∧ x = op) ∨
      ∃ between, after = between ++ [op] ∧ ops = before ++ x :: between := by
  rcases List.eq_nil_or_concat after with rfl | ⟨between, last, hafter⟩
  · obtain ⟨hbefore, hx⟩ := List.append_inj' h rfl
    exact .inl ⟨rfl, hbefore.symm, (List.cons.inj hx).1.symm⟩
  · rw [List.concat_eq_append] at hafter
    subst hafter
    rw [← List.cons_append, ← List.append_assoc] at h
    obtain ⟨hops, hlast⟩ := List.append_inj' h rfl
    exact .inr ⟨between, by rw [(List.cons.inj hlast).1], hops⟩

theorem placed_of_leavesOpen {ops : List Operation} {uri : Uri} {doc : Document} {p : Path}
    (h : LeavesOpen ops uri doc) (hdenotes : uri.denotes p = true) : Placed ops p := by
  obtain ⟨before, text, version, after, hops, -, -⟩ := h
  exact ⟨before, _, after, hops, hdenotes⟩

theorem placed_concat {ops : List Operation} {op : Operation} {p : Path} :
    Placed (ops ++ [op]) p ↔ op.PutsAt ops p ∨ Placed ops p := by
  constructor
  · rintro ⟨before, x, after, heq, hputs⟩
    rcases concat_eq_append_cons heq with ⟨-, rfl, rfl⟩ | ⟨between, -, hops⟩
    · exact .inl hputs
    · exact .inr ⟨before, x, between, hops, hputs⟩
  · rintro (hputs | ⟨before, x, after, rfl, hputs⟩)
    · exact ⟨ops, op, [], rfl, hputs⟩
    · exact ⟨before, x, after ++ [op], by simp, hputs⟩

theorem regained_concat_of_puts {ops : List Operation} {op : Operation} {p : Path}
    (hputs : op.PutsAt ops p) : Regained (ops ++ [op]) p := by
  intro before x after heq hcloses
  rcases concat_eq_append_cons heq with ⟨-, -, rfl⟩ | ⟨between, rfl, rfl⟩
  · -- what closes a document puts none
    cases x with
    | opens | changes => cases hcloses
    | closes => cases hputs
  · exact ⟨between, op, [], rfl, hputs⟩

theorem not_regained_concat_of_closes {ops : List Operation} {op : Operation} {p : Path}
    (hcloses : op.closesAt p = true) : ¬ Regained (ops ++ [op]) p := by
  intro h
  obtain ⟨between, put, behind, hafter, -⟩ := h ops op [] rfl hcloses
  simp at hafter

theorem regained_concat_of_neither {ops : List Operation} {op : Operation} {p : Path}
    (hputs : ¬ op.PutsAt ops p) (hcloses : op.closesAt p = false) :
    Regained (ops ++ [op]) p ↔ Regained ops p := by
  constructor
  · -- what regains the path is not the last operation, which puts nothing there
    intro h before x after heq hx
    subst heq
    obtain ⟨between, put, behind, hafter, hput⟩ := h before x (after ++ [op]) (by simp) hx
    rcases concat_eq_append_cons hafter with ⟨-, rfl, rfl⟩ | ⟨rest, -, hrest⟩
    · exact absurd hput hputs
    · exact ⟨between, put, rest, hrest, hput⟩
  · intro h before x after heq hx
    rcases concat_eq_append_cons heq with ⟨-, -, rfl⟩ | ⟨rest, rfl, hops⟩
    · simp [hx] at hcloses
    · obtain ⟨between, put, behind, hrest, hput⟩ := h before x rest hops hx
      exact ⟨between, put, behind ++ [op], by simp [hrest], hput⟩

/-- A document stands for a path if one was put there and none was taken away for good. -/
theorem isSome_paths_run {ops : List Operation} {p : Path} :
    ((run ops).paths.get? p).isSome = true ↔ Placed ops p ∧ Regained ops p := by
  induction ops using List.reverseRecOn with
  | nil => simp [run, empty, Path.Table.get?, Placed]
  | append_singleton ops op ih =>
    rw [isSome_paths_concat, placed_concat, ih]
    by_cases hputs : op.PutsAt ops p
    · simp [hputs, regained_concat_of_puts hputs]
    · by_cases hcloses : op.closesAt p = true
      · simp [hputs, hcloses, not_regained_concat_of_closes hcloses]
      · have hcloses : op.closesAt p = false := by simpa using hcloses
        simp [hputs, hcloses, regained_concat_of_neither hputs hcloses]

/-! ## The index of a run -/

/-- The index of a path is never stale. Whatever was opened, changed and closed under any
    identifiers, the documents of the store are those that were left open, the index of a path is
    that of the text that stands for the path, which is the text of a document left open under an
    identifier of the path, and a path has an index exactly when it has a text: when a document was
    opened or changed there and none of its documents was closed since. -/
theorem indexAt?_run (ops : List Operation) (p : Path) :
    (∀ uri doc, (run ops).document? uri = some doc ↔ LeavesOpen ops uri doc) ∧
    (∀ index, (run ops).indexAt? p = some index →
      ∃ text, (run ops).textAt? p = some text ∧ index = .ofText text ∧
        ∃ uri doc, LeavesOpen ops uri doc ∧ uri.denotes p = true ∧ doc.text = text) ∧
    ((run ops).indexAt? p).isSome = ((run ops).textAt? p).isSome ∧
    (((run ops).textAt? p).isSome = true ↔ Placed ops p ∧ Regained ops p) := by
  have h := consistent_run ops
  refine ⟨fun uri doc => document?_run, ?_, ?_, ?_⟩
  · intro index hindex
    rw [h.index] at hindex
    obtain ⟨text, htext, rfl⟩ := Option.map_eq_some_iff.1 hindex
    obtain ⟨uri, hpath, htext'⟩ := Option.bind_eq_some_iff.1 htext
    obtain ⟨doc, hdoc, hdoctext⟩ := Option.map_eq_some_iff.1 htext'
    exact ⟨text, htext, rfl, uri, doc, document?_run.1 hdoc, (h.denotes hpath).1, hdoctext⟩
  · rw [h.index, Option.isSome_map]
  · rw [h.isSome_textAt?, isSome_paths_run]

/-- A file with a name that can be escaped. -/
def samplePath : Path := ⟨"/main.wll"⟩

theorem indexAt?_run_two_spellings :
    let ops := [.opens (sampleUri "/main.wll") "a = 1" 1,
      .opens (sampleUri "/%6Dain.wll") "b = 2" 1,
      .changes (sampleUri "/main.wll") [⟨none, "c = 3"⟩] 2]
    (run ops).indexAt? samplePath = some (.ofText "c = 3") ∧
      ∃ text, (run ops).textAt? samplePath = some text ∧
        ModuleIndex.ofText "c = 3" = ModuleIndex.ofText text ∧
        ∃ uri doc, LeavesOpen ops uri doc ∧ uri.denotes samplePath = true ∧ doc.text = text := by
  intro ops
  have htext : (run ops).textAt? samplePath = some "c = 3" := by decide +kernel
  have hindex : (run ops).indexAt? samplePath = some (.ofText "c = 3") := by
    rw [(consistent_run ops).index, htext]
    rfl
  exact ⟨hindex, (indexAt?_run ops samplePath).2.1 _ hindex⟩

/-! ## Documents that hide their files -/

/-- Readers of a path find the text of an open document of that path instead of the file, and the
    path is listed as one of an open document. -/
def Hides (ops : List Operation) (p : Path) : Prop :=
  (∃ uri doc, LeavesOpen ops uri doc ∧ uri.denotes p = true ∧
    (run ops).textAt? p = some doc.text) ∧
  ∃ q ∈ (run ops).openPaths, q.same p = true

theorem hides_iff_isSome {ops : List Operation} {p : Path} :
    Hides ops p ↔ ((run ops).paths.get? p).isSome = true := by
  unfold Hides openPaths
  rw [Path.Table.exists_mem_keys_iff]
  constructor
  · exact And.right
  · intro hsome
    obtain ⟨uri, huri⟩ := Option.isSome_iff_exists.1 hsome
    obtain ⟨hdenotes, doc, hdoc⟩ := (consistent_run ops).denotes huri
    exact ⟨⟨uri, doc, document?_run.1 hdoc, hdenotes, by simp [textAt?, huri, text?, hdoc]⟩, hsome⟩

/-- A document that was left open hides its file exactly when no document of the same path was
    closed since one was last opened or changed there. -/
theorem hides_iff_regained {ops : List Operation} {uri : Uri} {doc : Document} {p : Path}
    (hopen : LeavesOpen ops uri doc) (hpath : uri.path? = some p) :
    Hides ops p ↔ Regained ops p := by
  have hplaced := placed_of_leavesOpen hopen (Uri.denotes_of_path? hpath)
  rw [hides_iff_isSome, isSome_paths_run, and_iff_right hplaced]

/-- The second document is still open when the first one is closed, and its file is read. -/
theorem hides_iff_regained_two_spellings :
    let ops := [.opens (sampleUri "/main.wll") "a = 1" 1,
      .opens (sampleUri "/%6Dain.wll") "b = 2" 1,
      .closes (sampleUri "/main.wll")]
    LeavesOpen ops (sampleUri "/%6Dain.wll") ⟨"b = 2", 1⟩ ∧
      (sampleUri "/%6Dain.wll").path? = some samplePath ∧ ¬ Hides ops samplePath := by
  intro ops
  have hopen : LeavesOpen ops (sampleUri "/%6Dain.wll") ⟨"b = 2", 1⟩ :=
    ⟨ops.take 1, "b = 2", 1, ops.drop 2, rfl, by decide +kernel, rfl⟩
  have hpath : (sampleUri "/%6Dain.wll").path? = some samplePath := by decide +kernel
  refine ⟨hopen, hpath, ?_⟩
  rw [hides_iff_regained hopen hpath]
  have hcloses : (Operation.closes (sampleUri "/main.wll")).closesAt samplePath = true := by
    decide +kernel
  have hlast : ops = ops.take 2 ++ [.closes (sampleUri "/main.wll")] := rfl
  rw [hlast]
  exact not_regained_concat_of_closes hcloses

end Store

end Welle
