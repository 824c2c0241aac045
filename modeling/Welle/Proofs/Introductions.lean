import Mathlib.Data.List.Induction
import Mathlib.Data.List.Nodup
import Mathlib.Data.List.Perm.Basic
import Welle.Module.Index

set_option autoImplicit false

/-! # What a file introduces

At its top level a file introduces names: by declarations, which may be exported, and as aliases of
modules. A module index is filled by one pass over these introductions, and each of its tables holds
the first one of each name among those that the table is for. So the symbols have the names of the
definitions and of the aliases, each of them once.

A symbol is the first introduction of its name of any kind, an export the first exported one. Where
a name is introduced before it is exported, the symbol does not say that the name is exported. -/

namespace Welle

/-! ## The first of each key -/

section Firsts

variable {α β κ : Type} [DecidableEq κ] {key : α → κ} {xs : List α} {x : α} {k : κ}

/-- Adds an element unless there is one of its key. -/
def addNew (key : α → κ) (xs : List α) (x : α) : List α :=
  if xs.any (key · = key x) then xs else xs ++ [x]

/-- The first element of each key. -/
def firsts (key : α → κ) (xs : List α) : List α := xs.foldl (addNew key) []

theorem any_key_iff : xs.any (key · = k) = true ↔ k ∈ xs.map key := by
  simp

theorem addNew_of_mem (h : key x ∈ xs.map key) : addNew key xs x = xs :=
  if_pos (any_key_iff.2 h)

theorem addNew_of_not_mem (h : key x ∉ xs.map key) : addNew key xs x = xs ++ [x] :=
  if_neg fun hany => h (any_key_iff.1 hany)

theorem firsts_concat (key : α → κ) (xs : List α) (x : α) :
    firsts key (xs ++ [x]) = addNew key (firsts key xs) x := by
  simp [firsts]

theorem mem_keys_firsts : k ∈ (firsts key xs).map key ↔ k ∈ xs.map key := by
  induction xs using List.reverseRecOn with
  | nil => rfl
  | append_singleton xs x ih =>
    rw [firsts_concat, List.map_append, List.mem_append, ← ih, List.map_singleton,
      List.mem_singleton]
    by_cases hx : key x ∈ (firsts key xs).map key
    · rw [addNew_of_mem hx]
      exact ⟨.inl, fun h => h.elim id fun h => h ▸ hx⟩
    · rw [addNew_of_not_mem hx, List.map_append, List.mem_append, List.map_singleton,
        List.mem_singleton]

theorem nodup_firsts (key : α → κ) (xs : List α) : ((firsts key xs).map key).Nodup := by
  induction xs using List.reverseRecOn with
  | nil => exact List.nodup_nil
  | append_singleton xs x ih =>
    rw [firsts_concat]
    by_cases hx : key x ∈ (firsts key xs).map key
    · rwa [addNew_of_mem hx]
    · rw [addNew_of_not_mem hx, List.map_append, List.map_singleton, List.nodup_append_comm]
      exact List.nodup_cons.2 ⟨hx, ih⟩

/-- An element that is kept stands in front of all others of its key. -/
theorem exists_of_mem_firsts (h : x ∈ firsts key xs) :
    ∃ front back, xs = front ++ x :: back ∧ ∀ y ∈ front, key y ≠ key x := by
  induction xs using List.reverseRecOn with
  | nil => cases h
  | append_singleton xs y ih =>
    rw [firsts_concat] at h
    by_cases hy : key y ∈ (firsts key xs).map key
    · rw [addNew_of_mem hy] at h
      obtain ⟨front, back, rfl, hfront⟩ := ih h
      exact ⟨front, back ++ [y], by simp, hfront⟩
    · rw [addNew_of_not_mem hy, List.mem_append, List.mem_singleton] at h
      obtain h | rfl := h
      · obtain ⟨front, back, rfl, hfront⟩ := ih h
        exact ⟨front, back ++ [y], by simp, hfront⟩
      · refine ⟨xs, [], rfl, fun z hz heq => hy ?_⟩
        exact mem_keys_firsts.2 (heq ▸ List.mem_map_of_mem hz)

theorem mem_of_mem_firsts (h : x ∈ firsts key xs) : x ∈ xs := by
  obtain ⟨front, back, rfl, -⟩ := exists_of_mem_firsts h
  simp

theorem firsts_map (f : α → β) (key : β → κ) (xs : List α) :
    firsts key (xs.map f) = (firsts (key ∘ f) xs).map f := by
  induction xs using List.reverseRecOn with
  | nil => rfl
  | append_singleton xs x ih =>
    rw [List.map_append, List.map_singleton, firsts_concat, firsts_concat, ih]
    have hkeys : ((firsts (key ∘ f) xs).map f).map key = (firsts (key ∘ f) xs).map (key ∘ f) :=
      List.map_map
    by_cases hx : key (f x) ∈ (firsts (key ∘ f) xs).map (key ∘ f)
    · rw [addNew_of_mem (by rwa [hkeys]), addNew_of_mem hx]
    · rw [addNew_of_not_mem (by rwa [hkeys]), addNew_of_not_mem hx, List.map_append,
        List.map_singleton]

end Firsts

/-! ## Introductions -/

/-- A name that a file introduces at its top level. -/
inductive Introduction where
  | declaration (id : Ident) (kind : SymbolKind) (exported : Bool)
  | moduleAlias (id : Ident) (path : String)
deriving DecidableEq, Repr

namespace Introduction

/-- The introduced name. -/
def ident : Introduction → Ident
  | declaration id _ _ | moduleAlias id _ => id

/-- Whether a name is introduced as an export. -/
def isExported : Introduction → Bool
  | declaration _ _ exported => exported
  | moduleAlias .. => false

/-- Whether a name is introduced as the alias of a module. -/
def isAlias : Introduction → Bool
  | declaration .. => false
  | moduleAlias .. => true

/-- The symbol that an introduction stands for. -/
def symbol (i : Introduction) : ModuleSymbol :=
  let kind : SymbolKind := match i with
    | declaration _ kind _ => kind
    | moduleAlias .. => .moduleAlias
  ⟨i.ident.name, kind, i.ident, i.isExported⟩

/-- The definition that an introduction is. -/
def definition? : Introduction → Option (String × Ident)
  | declaration id _ _ => some (id.name, id)
  | moduleAlias .. => none

/-- The export that an introduction is. -/
def export? : Introduction → Option (String × Ident)
  | declaration id _ exported => if exported then some (id.name, id) else none
  | moduleAlias .. => none

/-- The import that an introduction is. -/
def import? : Introduction → Option (String × String)
  | declaration .. => none
  | moduleAlias id path => some (id.name, path)

@[simp] theorem definition?_declaration (id : Ident) (kind : SymbolKind) (exported : Bool) :
    (declaration id kind exported).definition? = some (id.name, id) := rfl

@[simp] theorem definition?_moduleAlias (id : Ident) (path : String) :
    (moduleAlias id path).definition? = none := rfl

@[simp] theorem export?_declaration (id : Ident) (kind : SymbolKind) (exported : Bool) :
    (declaration id kind exported).export? = if exported then some (id.name, id) else none := rfl

@[simp] theorem export?_moduleAlias (id : Ident) (path : String) :
    (moduleAlias id path).export? = none := rfl

@[simp] theorem import?_declaration (id : Ident) (kind : SymbolKind) (exported : Bool) :
    (declaration id kind exported).import? = none := rfl

@[simp] theorem import?_moduleAlias (id : Ident) (path : String) :
    (moduleAlias id path).import? = some (id.name, path) := rfl

variable {is : List Introduction} {name : String}

theorem eq_of_definition? {i : Introduction} {entry : String × Ident}
    (h : i.definition? = some entry) : i.isAlias = false ∧ entry = (i.ident.name, i.ident) := by
  cases i with
  | declaration id kind exported => exact ⟨rfl, (Option.some.inj h).symm⟩
  | moduleAlias => cases h

theorem definition?_of_export? {i : Introduction} {entry : String × Ident}
    (h : i.export? = some entry) : i.definition? = some entry := by
  cases i with
  | declaration id kind exported =>
    cases exported with
    | true => exact h
    | false => cases h
  | moduleAlias => cases h

/-- The names in a table that is for the introductions with the property `p`. -/
theorem mem_keys_iff {β : Type} {f : Introduction → Option (String × β)} {p : Introduction → Bool}
    (hf : ∀ i, (f i).map (·.1) = if p i then some i.ident.name else none) :
    name ∈ (firsts (·.1) (is.filterMap f)).map (·.1)
      ↔ ∃ i ∈ is, p i = true ∧ i.ident.name = name := by
  rw [mem_keys_firsts, List.map_filterMap, List.mem_filterMap]
  refine exists_congr fun i => and_congr_right fun _ => ?_
  rw [hf i]
  cases p i <;> simp

end Introduction

open Introduction (declaration moduleAlias)

/-- What a statement introduces, given whether it is exported. -/
def Stmt.introductions (exported : Bool) : Stmt → List Introduction
  | .func _ name _ _ => [declaration name .func exported]
  | .assign _ name _ value => [declaration name (ModuleIndex.kindOf value) exported]
  | .destructure _ targets _ _ =>
    (targets.filterMap Target.ident?).map fun id => declaration id .var exported
  | .exported _ stmt => stmt.introductions true
  | .importAs _ path (some name) => [moduleAlias name path.value]
  | _ => []

/-- What a program introduces, in order. -/
def Program.introductions (program : Program) : List Introduction :=
  program.stmts.flatMap (Stmt.introductions false)

namespace ModuleIndex

variable {index : ModuleIndex} {is : List Introduction}

/-- Adds an introduction. -/
def add (index : ModuleIndex) : Introduction → ModuleIndex
  | declaration id kind exported => index.declare id kind exported
  | moduleAlias id path =>
    addSymbol { index with imports := insertNew index.imports id.name path } id .moduleAlias false

theorem visit_eq (exported : Bool) (index : ModuleIndex) (s : Stmt) :
    visit exported index s = (s.introductions exported).foldl add index := by
  fun_induction visit exported index s with
  | case1 => rfl
  | case2 => rfl
  | case3 => rw [Stmt.introductions, List.foldl_map]; rfl
  | case4 exported pos stmt ih => rw [ih, Stmt.introductions]
  | case5 => rfl
  | case6 => simp_all [Stmt.introductions]

theorem ofProgram_eq (program : Program) :
    ofProgram program = program.introductions.foldl add empty := by
  rw [ofProgram, Program.introductions, List.foldl_flatMap]
  congr 1
  funext index s
  exact visit_eq false index s

/-! ## Tables -/

/-- The tables of an index hold the first introductions of each name. -/
structure Collects (is : List Introduction) (index : ModuleIndex) : Prop where
  symbols : index.symbols = firsts (·.name) (is.map (·.symbol))
  defs : index.defs = firsts (·.1) (is.filterMap (·.definition?))
  exports : index.exports = firsts (·.1) (is.filterMap (·.export?))
  imports : index.imports = firsts (·.1) (is.filterMap (·.import?))

theorem isSome_lookup_iff {β : Type} {table : List (String × β)} {key : String} :
    (table.lookup key).isSome = true ↔ key ∈ table.map (·.1) := by
  rw [List.lookup_isSome_iff]
  simp only [beq_iff_eq, List.mem_map]
  exact exists_congr fun entry => and_congr_right fun _ => eq_comm

theorem insertNew_eq {β : Type} (table : List (String × β)) (key : String) (value : β) :
    insertNew table key value = addNew (·.1) table (key, value) := by
  by_cases hkey : key ∈ table.map (·.1)
  · rw [insertNew, if_pos (isSome_lookup_iff.2 hkey), addNew_of_mem hkey]
  · rw [insertNew, if_neg fun hsome => hkey (isSome_lookup_iff.1 hsome), addNew_of_not_mem hkey]

theorem addSymbol_eq (index : ModuleIndex) (i : Introduction) :
    index.addSymbol i.ident i.symbol.kind i.isExported
      = { index with symbols := addNew (·.name) index.symbols i.symbol } := by
  have hname : i.symbol.name = i.ident.name := rfl
  rw [addSymbol, addNew, hname]
  split
  · rfl
  · rfl

theorem define_eq (index : ModuleIndex) (id : Ident) (kind : SymbolKind) (exported : Bool) :
    index.define id kind exported = { index with
      defs := addNew (·.1) index.defs (id.name, id)
      symbols := addNew (·.name) index.symbols (declaration id kind exported).symbol } := by
  rw [define, insertNew_eq]
  exact addSymbol_eq _ (declaration id kind exported)

theorem Collects.exists_of_mem_defs (h : Collects is index) {entry : String × Ident}
    (hentry : entry ∈ index.defs) :
    ∃ i ∈ is, i.isAlias = false ∧ entry = (i.ident.name, i.ident) := by
  rw [h.defs] at hentry
  obtain ⟨i, hi, hdefinition⟩ := List.mem_filterMap.1 (mem_of_mem_firsts hentry)
  exact ⟨i, hi, Introduction.eq_of_definition? hdefinition⟩

theorem Collects.exists_of_mem_exports (h : Collects is index) {entry : String × Ident}
    (hentry : entry ∈ index.exports) :
    ∃ i ∈ is, i.isAlias = false ∧ entry = (i.ident.name, i.ident) := by
  rw [h.exports] at hentry
  obtain ⟨i, hi, hexport⟩ := List.mem_filterMap.1 (mem_of_mem_firsts hentry)
  exact ⟨i, hi, Introduction.eq_of_definition? (Introduction.definition?_of_export? hexport)⟩

theorem Collects.mem_symbols_iff (h : Collects is index) {name : String} :
    name ∈ index.symbols.map (·.name) ↔ ∃ i ∈ is, i.ident.name = name := by
  rw [h.symbols, mem_keys_firsts, List.map_map, List.mem_map]
  rfl

theorem Collects.mem_defs_iff (h : Collects is index) {name : String} :
    name ∈ index.defs.map (·.1) ↔ ∃ i ∈ is, (!i.isAlias) = true ∧ i.ident.name = name := by
  rw [h.defs]
  exact Introduction.mem_keys_iff fun i => by cases i <;> rfl

theorem Collects.mem_imports_iff (h : Collects is index) {name : String} :
    name ∈ index.imports.map (·.1) ↔ ∃ i ∈ is, i.isAlias = true ∧ i.ident.name = name := by
  rw [h.imports]
  exact Introduction.mem_keys_iff fun i => by cases i <;> rfl

theorem Collects.mem_exports_iff (h : Collects is index) {name : String} :
    name ∈ index.exports.map (·.1) ↔ ∃ i ∈ is, i.isExported = true ∧ i.ident.name = name := by
  rw [h.exports]
  refine Introduction.mem_keys_iff fun i => ?_
  cases i with
  | declaration id kind exported => cases exported <;> rfl
  | moduleAlias => rfl

/-- Whatever is exported is a definition and has a symbol. -/
theorem Collects.mem_of_export (h : Collects is index) {name : String}
    (hname : name ∈ index.exports.map (·.1)) :
    name ∈ index.defs.map (·.1) ∧ name ∈ index.symbols.map (·.name) := by
  obtain ⟨i, hi, hexported, hident⟩ := h.mem_exports_iff.1 hname
  rw [h.mem_defs_iff, h.mem_symbols_iff]
  refine ⟨⟨i, hi, ?_, hident⟩, i, hi, hident⟩
  cases i with
  | declaration => rfl
  | moduleAlias => cases hexported

/-- A declaration that is no second export is added to the definitions and the symbols. -/
theorem Collects.define (h : Collects is index) {id : Ident} {kind : SymbolKind} {exported : Bool}
    {exports : List (String × Ident)} (hexports : exports
      = firsts (·.1) ((is ++ [declaration id kind exported]).filterMap (·.export?))) :
    Collects (is ++ [declaration id kind exported])
      ({ index with exports }.define id kind exported) := by
  rw [define_eq]
  refine ⟨?_, ?_, hexports, ?_⟩
  · simp [firsts_concat, h.symbols]
  · simp [firsts_concat, h.defs]
  · simp [h.imports, List.filterMap_cons]

/-- A second export of a name is in no table, since all of them have the name. -/
theorem Collects.repeated (h : Collects is index) {id : Ident} {kind : SymbolKind}
    (hmem : id.name ∈ index.exports.map (·.1)) (diagnostics : List Diagnostic) :
    Collects (is ++ [declaration id kind true]) { index with diagnostics } := by
  obtain ⟨hdef, hsymbol⟩ := h.mem_of_export hmem
  have hdefs : addNew (·.1) index.defs (id.name, id) = index.defs := addNew_of_mem hdef
  have hexports : addNew (·.1) index.exports (id.name, id) = index.exports := addNew_of_mem hmem
  have hsymbols : addNew (·.name) index.symbols (declaration id kind true).symbol = index.symbols :=
    addNew_of_mem hsymbol
  refine ⟨?_, ?_, ?_, ?_⟩
  · simp [firsts_concat, ← h.symbols, hsymbols]
  · simp [firsts_concat, ← h.defs, hdefs]
  · simp [firsts_concat, ← h.exports, hexports]
  · simp [h.imports, List.filterMap_cons]

theorem Collects.add (h : Collects is index) (i : Introduction) :
    Collects (is ++ [i]) (index.add i) := by
  cases i with
  | moduleAlias id path =>
    rw [ModuleIndex.add, insertNew_eq]
    refine (addSymbol_eq _ (moduleAlias id path)) ▸ ⟨?_, ?_, ?_, ?_⟩
    · simp [firsts_concat, h.symbols]
    · simp [h.defs, List.filterMap_cons]
    · simp [h.exports, List.filterMap_cons]
    · simp [firsts_concat, h.imports]
  | declaration id kind exported =>
    rw [ModuleIndex.add, declare]
    split
    next hexported =>
      subst hexported
      split
      next previous hprevious =>
        have hmem : id.name ∈ index.exports.map (·.1) :=
          isSome_lookup_iff.1 (Option.isSome_iff_exists.2 ⟨_, hprevious⟩)
        exact h.repeated hmem _
      next hnone =>
        have hnew : id.name ∉ index.exports.map (·.1) := by
          intro hmem
          have hsome := isSome_lookup_iff.2 hmem
          rw [hnone] at hsome
          cases hsome
        have hexports : addNew (·.1) index.exports (id.name, id)
            = index.exports ++ [(id.name, id)] := addNew_of_not_mem hnew
        refine h.define ?_
        simp [firsts_concat, ← h.exports, hexports]
    next hexported =>
      obtain rfl : exported = false := by simpa using hexported
      refine h.define ?_
      simp [h.exports]

/-- The tables of the index of a program hold the first introductions of each name. -/
theorem collects_ofProgram (program : Program) :
    Collects program.introductions (ofProgram program) := by
  rw [ofProgram_eq]
  induction program.introductions using List.reverseRecOn with
  | nil => exact ⟨rfl, rfl, rfl, rfl⟩
  | append_singleton is i ih =>
    rw [List.foldl_concat]
    exact ih.add i

/-! ## Symbols -/

/-- A symbol is the first introduction of its name. -/
theorem Collects.exists_of_mem_symbols (h : Collects is index) {s : ModuleSymbol}
    (hs : s ∈ index.symbols) :
    ∃ front : List Introduction, ∃ i back, is = front ++ i :: back
      ∧ (∀ j ∈ front, j.ident.name ≠ s.name) ∧ s = i.symbol := by
  rw [h.symbols, firsts_map] at hs
  obtain ⟨i, hi, rfl⟩ := List.mem_map.1 hs
  obtain ⟨front, back, his, hfront⟩ := exists_of_mem_firsts hi
  exact ⟨front, i, back, his, hfront, rfl⟩

theorem Collects.nodup_symbols (h : Collects is index) : (index.symbols.map (·.name)).Nodup := by
  rw [h.symbols]
  exact nodup_firsts _ _

/-- Every introduction is a definition or an import, and has a symbol. -/
theorem Collects.mem_symbols_iff_or (h : Collects is index) (name : String) :
    name ∈ index.symbols.map (·.name)
      ↔ name ∈ index.defs.map (·.1) ∨ name ∈ index.imports.map (·.1) := by
  rw [h.mem_symbols_iff, h.mem_defs_iff, h.mem_imports_iff]
  constructor
  · rintro ⟨i, hi, hname⟩
    cases halias : i.isAlias with
    | false => exact .inl ⟨i, hi, by rw [halias]; rfl, hname⟩
    | true => exact .inr ⟨i, hi, halias, hname⟩
  · rintro (⟨i, hi, -, hname⟩ | ⟨i, hi, -, hname⟩)
    · exact ⟨i, hi, hname⟩
    · exact ⟨i, hi, hname⟩

theorem Collects.isExported_iff (h : Collects is index) {name : String} :
    index.isExported name = true ↔ ∃ i ∈ is, i.isExported = true ∧ i.ident.name = name := by
  rw [isExported, isSome_lookup_iff, h.mem_exports_iff]

/-- The first introduction of a name says whether the name is exported if it is exported itself or
    none behind it is. -/
theorem Collects.isExported_eq_iff {front back : List Introduction} {i : Introduction}
    (h : Collects (front ++ i :: back) index) (hfront : ∀ j ∈ front, j.ident.name ≠ i.ident.name) :
    i.isExported = index.isExported i.ident.name
      ↔ i.isExported = true ∨ ∀ j ∈ back, j.ident.name = i.ident.name → j.isExported = false := by
  cases hi : i.isExported with
  | true =>
    have hexported := h.isExported_iff.2 ⟨i, by simp, hi, rfl⟩
    exact iff_of_true hexported.symm (.inl rfl)
  | false =>
    constructor
    · intro hflag
      refine .inr fun j hj hname => ?_
      by_contra hj'
      have hmem : j ∈ front ++ i :: back := by simp [hj]
      have htrue := h.isExported_iff.2 ⟨j, hmem, by simpa using hj', hname⟩
      rw [← hflag] at htrue
      cases htrue
    · rintro (htrue | hback)
      · cases htrue
      · by_contra hflag
        have htrue : index.isExported i.ident.name = true := by simpa using hflag
        obtain ⟨j, hj, hjexported, hname⟩ := h.isExported_iff.1 htrue
        obtain hj | hj := List.mem_append.1 hj
        · exact hfront j hj hname
        · obtain rfl | hj := List.mem_cons.1 hj
          · exact Bool.false_ne_true (hi.symm.trans hjexported)
          · exact Bool.false_ne_true ((hback j hj hname).symm.trans hjexported)

/-- The symbols of a text have the names of its definitions and of its imports, each once. A symbol
    stands for the first introduction of its name, and it says whether the name is exported if that
    introduction is exported or none behind it is. -/
theorem exported_eq_isExported_iff (text : String) :
    let index := ofText text
    (index.symbols.map (·.name)).Nodup
    ∧ (∀ name, name ∈ index.symbols.map (·.name)
        ↔ name ∈ index.defs.map (·.1) ∨ name ∈ index.imports.map (·.1))
    ∧ ∀ s ∈ index.symbols, ∃ front i back,
      (Program.parse text).program.introductions = front ++ i :: back
      ∧ (∀ j ∈ front, j.ident.name ≠ s.name) ∧ s = i.symbol
      ∧ (s.exported = index.isExported s.name
        ↔ i.isExported = true ∨ ∀ j ∈ back, j.ident.name = s.name → j.isExported = false) := by
  intro index
  have h : Collects (Program.parse text).program.introductions index := collects_ofProgram _
  refine ⟨h.nodup_symbols, h.mem_symbols_iff_or, fun s hs => ?_⟩
  obtain ⟨front, i, back, his, hfront, rfl⟩ := h.exists_of_mem_symbols hs
  exact ⟨front, i, back, his, hfront, rfl, (his ▸ h).isExported_eq_iff hfront⟩

/-- A variable that is assigned to before it is exported has a symbol that does not say that it is
    exported. -/
theorem exported_eq_isExported_iff_assigned_before :
    let text := "x = 1\nexport x = 2\n"
    let s : ModuleSymbol := ⟨"x", .var, ⟨"x", ⟨1, 1⟩⟩, false⟩
    s ∈ (ofText text).symbols ∧ (ofText text).isExported "x" = true
      ∧ ∃ front i back, (Program.parse text).program.introductions = front ++ i :: back
        ∧ s = i.symbol ∧ ∃ j ∈ back, j.ident.name = "x" ∧ j.isExported = true := by
  intro text s
  have hs : s ∈ (ofText text).symbols := by decide +kernel
  have hexported : (ofText text).isExported "x" = true := by decide +kernel
  refine ⟨hs, hexported, ?_⟩
  obtain ⟨-, -, hsymbols⟩ := exported_eq_isExported_iff text
  obtain ⟨front, i, back, his, -, hsymbol, hiff⟩ := hsymbols s hs
  refine ⟨front, i, back, his, hsymbol, ?_⟩
  by_contra hback
  have hflag := hiff.2 (.inr fun j hj hname => by
    by_contra hj'
    exact hback ⟨j, hj, hname, by simpa using hj'⟩)
  rw [show s.name = "x" from rfl, hexported] at hflag
  cases hflag

end ModuleIndex

end Welle
