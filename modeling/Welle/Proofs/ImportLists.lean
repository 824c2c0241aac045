import Welle.Proofs.Recorded
import Welle.Workspace.Index

set_option autoImplicit false

/-! # Every import list of a program

`imports` lists the names that `from` imports bring into a program, wherever the import stands. The
walk has a step for each of them. The search for imported names follows statements alone, so it finds
those of them that no expression is around. -/

namespace Welle

/-! ## The import lists of a tree -/

/-- A name of an import list, and whether the list stands in an expression or in the head of a `for`
    loop. -/
structure PlacedImport where
  imported : ImportedName
  enclosed : Bool
deriving DecidableEq, Repr

namespace PlacedImport

/-- Imported names of an enclosed part of a tree. -/
def within (found : List ImportedName) : List PlacedImport := found.map (⟨·, true⟩)

/-- The name, if it is not enclosed. -/
def open? (found : PlacedImport) : Option ImportedName :=
  if found.enclosed then none else some found.imported

@[simp] theorem map_event_within (found : List ImportedName) :
    (within found).map (·.imported.event) = found.map (·.event) := by
  simp [within]

@[simp] theorem open?_within (found : List ImportedName) : (within found).filterMap open? = [] := by
  simp [within, open?]

end PlacedImport

mutual

/-- The names that an expression imports, which it does in bodies of function literals. -/
def Expr.imports : Expr → List ImportedName
  | .ident _ | .int .. | .float .. | .str .. | .bool .. | .nil .. => []
  | .tuple _ items | .list _ items => Expr.listImports items
  | .dict _ entries => DictEntry.listImports entries
  | .template _ tag _ exprs => Expr.optionImports tag ++ Expr.listImports exprs
  | .func _ _ body => body.imports.map (·.imported)
  | .unary _ _ operand => operand.imports
  | .binary _ _ left right => left.imports ++ right.imports
  | .ternary _ cond thenE elseE => cond.imports ++ thenE.imports ++ elseE.imports
  | .conditional _ thenE cond elseE => thenE.imports ++ cond.imports ++ elseE.imports
  | .assign _ target _ value => target.imports ++ value.imports
  | .spread _ value => value.imports
  | .call _ callee args => callee.imports ++ Expr.listImports args
  | .index _ object index => object.imports ++ index.imports
  | .slice _ object low high step =>
    object.imports ++ Expr.optionImports low ++ Expr.optionImports high ++ Expr.optionImports step
  | .member _ object _ => object.imports
  | .comprehension _ elem _ seq filter =>
    seq.imports ++ Expr.optionImports filter ++ elem.imports
  | .select _ value arms fallback =>
    value.imports ++ MatchArm.listImports arms ++ Expr.optionImports fallback

/-- The names that expressions import. -/
def Expr.listImports : List Expr → List ImportedName
  | [] => []
  | e :: es => e.imports ++ Expr.listImports es

/-- The names that an expression imports which may be missing. -/
def Expr.optionImports : Option Expr → List ImportedName
  | none => []
  | some e => e.imports

/-- The names that a dictionary entry imports. -/
def DictEntry.imports : DictEntry → List ImportedName
  | .pair key value => key.imports ++ value.imports
  | .shorthand _ => []

/-- The names that dictionary entries import. -/
def DictEntry.listImports : List DictEntry → List ImportedName
  | [] => []
  | e :: es => e.imports ++ DictEntry.listImports es

/-- The names that a case of a `match` expression imports. -/
def MatchArm.imports : MatchArm → List ImportedName
  | .mk _ values result => Expr.listImports values ++ result.imports

/-- The names that the cases of a `match` expression import. -/
def MatchArm.listImports : List MatchArm → List ImportedName
  | [] => []
  | arm :: arms => arm.imports ++ MatchArm.listImports arms

/-- The names that a block imports. -/
def Block.imports : Block → List PlacedImport
  | .mk _ stmts => Stmt.listImports stmts

/-- The names that a block imports which may be missing. -/
def Block.optionImports : Option Block → List PlacedImport
  | none => []
  | some body => body.imports

/-- The names that a case of a `switch` statement imports. -/
def SwitchCase.imports : SwitchCase → List PlacedImport
  | .mk _ values body => PlacedImport.within (Expr.listImports values) ++ body.imports

/-- The names that the cases of a `switch` statement import. -/
def SwitchCase.listImports : List SwitchCase → List PlacedImport
  | [] => []
  | c :: cs => c.imports ++ SwitchCase.listImports cs

/-- The names that a handler imports. -/
def CatchClause.imports : CatchClause → List PlacedImport
  | .mk _ _ body => body.imports

/-- The names that a handler imports which may be missing. -/
def CatchClause.optionImports : Option CatchClause → List PlacedImport
  | none => []
  | some handler => handler.imports

/-- The names that a statement imports. -/
def Stmt.imports : Stmt → List PlacedImport
  | .importFrom _ path items => items.map fun item => ⟨⟨path.value, item⟩, false⟩
  | .expr _ value | .assign _ _ _ value | .destructure _ _ _ value | .raise _ value
  | .defer _ value => PlacedImport.within value.imports
  | .indexAssign _ object index _ value =>
    PlacedImport.within (object.imports ++ index.imports ++ value.imports)
  | .memberAssign _ object _ _ value => PlacedImport.within (object.imports ++ value.imports)
  | .cond _ test thenS elseS =>
    PlacedImport.within test.imports ++ thenS.imports ++ Stmt.optionImports elseS
  | .whileLoop _ test body => PlacedImport.within test.imports ++ body.imports
  | .forLoop _ init test post body =>
    -- No clause of a head is an import itself; what a clause imports, an expression of it does.
    PlacedImport.within ((Stmt.optionImports init).map (·.imported) ++ Expr.optionImports test
      ++ (Stmt.optionImports post).map (·.imported)) ++ body.imports
  | .forIn _ _ _ seq body => PlacedImport.within seq.imports ++ body.imports
  | .switch _ value cases fallback =>
    PlacedImport.within value.imports ++ SwitchCase.listImports cases
      ++ Block.optionImports fallback
  | .tryCatch _ body handler finalizer =>
    body.imports ++ CatchClause.optionImports handler ++ Block.optionImports finalizer
  | .func _ _ _ body | .block body => body.imports
  | .exported _ stmt => stmt.imports
  | .ret _ values => PlacedImport.within (Expr.listImports values)
  | .importAs .. | .brk _ | .cont _ | .pass _ => []

/-- The names that statements import. -/
def Stmt.listImports : List Stmt → List PlacedImport
  | [] => []
  | s :: ss => s.imports ++ Stmt.listImports ss

/-- The names that a statement imports which may be missing. -/
def Stmt.optionImports : Option Stmt → List PlacedImport
  | none => []
  | some s => s.imports

end

/-- The names that a program imports. -/
def Program.imports (program : Program) : List PlacedImport := Stmt.listImports program.stmts

/-! ## The search follows statements -/

mutual

theorem Block.open_imports : ∀ b : Block, b.imports.filterMap PlacedImport.open? = b.importedNames
  | .mk _ stmts => Stmt.open_listImports stmts

theorem Block.open_optionImports : ∀ b : Option Block,
    (Block.optionImports b).filterMap PlacedImport.open? = Block.optionImportedNames b
  | none => rfl
  | some body => body.open_imports

theorem SwitchCase.open_listImports : ∀ cs : List SwitchCase,
    (SwitchCase.listImports cs).filterMap PlacedImport.open? = SwitchCase.listImportedNames cs
  | [] => rfl
  | .mk _ values body :: cs => by
    simp [SwitchCase.listImports, SwitchCase.imports, SwitchCase.listImportedNames,
      SwitchCase.importedNames, body.open_imports, SwitchCase.open_listImports cs]

theorem CatchClause.open_optionImports : ∀ handler : Option CatchClause,
    (CatchClause.optionImports handler).filterMap PlacedImport.open?
      = CatchClause.optionImportedNames handler
  | none => rfl
  | some (.mk _ _ body) => body.open_imports

theorem Stmt.open_imports : ∀ s : Stmt, s.imports.filterMap PlacedImport.open? = s.importedNames
  | .importFrom _ path items => by
    rw [Stmt.imports, Stmt.importedNames, List.filterMap_map, ← List.filterMap_eq_map]
    rfl
  | .expr .. | .assign .. | .destructure .. | .indexAssign .. | .memberAssign .. | .ret .. | .raise ..
  | .defer .. => PlacedImport.open?_within _
  | .importAs .. | .brk _ | .cont _ | .pass _ => rfl
  | .cond _ test thenS elseS => by
    simp [Stmt.imports, Stmt.importedNames, thenS.open_imports, Stmt.open_optionImports elseS]
  | .whileLoop _ _ body | .forLoop _ _ _ _ body | .forIn _ _ _ _ body => by
    simp [Stmt.imports, Stmt.importedNames, body.open_imports]
  | .switch _ _ cases fallback => by
    simp [Stmt.imports, Stmt.importedNames, SwitchCase.open_listImports cases,
      Block.open_optionImports fallback]
  | .tryCatch _ body handler finalizer => by
    simp [Stmt.imports, Stmt.importedNames, body.open_imports,
      CatchClause.open_optionImports handler, Block.open_optionImports finalizer]
  | .func _ _ _ body | .block body => body.open_imports
  | .exported _ stmt => stmt.open_imports

theorem Stmt.open_listImports : ∀ ss : List Stmt,
    (Stmt.listImports ss).filterMap PlacedImport.open? = Stmt.listImportedNames ss
  | [] => rfl
  | s :: ss => by
    simp [Stmt.listImports, Stmt.listImportedNames, s.open_imports, Stmt.open_listImports ss]

theorem Stmt.open_optionImports : ∀ s : Option Stmt,
    (Stmt.optionImports s).filterMap PlacedImport.open? = Stmt.optionImportedNames s
  | none => rfl
  | some s => s.open_imports

end

/-! ## The walk comes to all of them -/

namespace Event

/-- Whether a step is that of a name of an import list. -/
def isImport : Event → Bool
  | .importMember .. => true
  | _ => false

@[simp] theorem imports_inScope (start opening : Position) (inner : List Event) :
    (inScope start opening inner).filter isImport = inner.filter isImport := by
  simp [inScope, isImport]

@[simp] theorem imports_function (start : Position) (params : List Ident) (opening : Position)
    (body : List Event) :
    (function start params opening body).filter isImport = body.filter isImport := by
  simp [function, isImport]

@[simp] theorem imports_targets (op : AssignOp) (targets : List Target) :
    (targets.flatMap (ofTarget op)).filter isImport = [] := by
  induction targets with
  | nil => rfl
  | cons t targets ih => cases t <;> simp [ofTarget, Target.ident?, isImport, ih]

@[simp] theorem imports_items (path : ImportPath) (items : List ImportItem) :
    (items.map (ofItem path)).filter isImport = items.map (ofItem path) := by
  induction items with
  | nil => rfl
  | cons item items ih => rw [List.map_cons, List.filter_cons_of_pos rfl, ih]

end Event

mutual

theorem Expr.imports_events :
    ∀ e : Expr, e.events.filter Event.isImport = e.imports.map (·.event)
  | .ident _ | .int .. | .float .. | .str .. | .bool .. | .nil .. => rfl
  | .tuple _ items | .list _ items => Expr.imports_listEvents items
  | .dict _ entries => DictEntry.imports_listEvents entries
  | .template _ tag _ exprs => by
    simp [Expr.events, Expr.imports, Expr.imports_optionEvents tag, Expr.imports_listEvents exprs]
  | .func _ params body => by
    simp [Expr.events, Expr.imports, body.imports_inner, Function.comp_def]
  | .unary _ _ operand => operand.imports_events
  | .binary _ _ left right => by
    simp [Expr.events, Expr.imports, left.imports_events, right.imports_events]
  | .ternary _ cond thenE elseE => by
    simp [Expr.events, Expr.imports, cond.imports_events, thenE.imports_events,
      elseE.imports_events]
  | .conditional _ thenE cond elseE => by
    simp [Expr.events, Expr.imports, thenE.imports_events, cond.imports_events,
      elseE.imports_events]
  | .assign _ target op value => by
    rw [Expr.events, Expr.imports, List.filter_append, value.imports_events, List.map_append,
      ← target.imports_events]
    split
    next name hname => rw [Expr.eq_of_ident? hname]; rfl
    next => rfl
  | .spread _ value => value.imports_events
  | .call _ callee args => by
    simp [Expr.events, Expr.imports, callee.imports_events, Expr.imports_listEvents args]
  | .index _ object index => by
    simp [Expr.events, Expr.imports, object.imports_events, index.imports_events]
  | .slice _ object low high step => by
    simp [Expr.events, Expr.imports, object.imports_events, Expr.imports_optionEvents low,
      Expr.imports_optionEvents high, Expr.imports_optionEvents step]
  | .member _ object name => by
    rw [Expr.events, Expr.imports, ← object.imports_events]
    split
    next base hbase => rw [Expr.eq_of_ident? hbase]; rfl
    next => rfl
  | .comprehension _ elem var seq filter => by
    simp [Expr.events, Expr.imports, Event.isImport, seq.imports_events,
      Expr.imports_optionEvents filter, elem.imports_events]
  | .select _ value arms fallback => by
    simp [Expr.events, Expr.imports, value.imports_events, MatchArm.imports_listEvents arms,
      Expr.imports_optionEvents fallback]

theorem Expr.imports_listEvents : ∀ es : List Expr,
    (Expr.listEvents es).filter Event.isImport = (Expr.listImports es).map (·.event)
  | [] => rfl
  | e :: es => by
    simp [Expr.listEvents, Expr.listImports, e.imports_events, Expr.imports_listEvents es]

theorem Expr.imports_optionEvents : ∀ e : Option Expr,
    (Expr.optionEvents e).filter Event.isImport = (Expr.optionImports e).map (·.event)
  | none => rfl
  | some e => e.imports_events

theorem DictEntry.imports_events :
    ∀ e : DictEntry, e.events.filter Event.isImport = e.imports.map (·.event)
  | .pair key value => by
    simp [DictEntry.events, DictEntry.imports, key.imports_events, value.imports_events]
  | .shorthand _ => rfl

theorem DictEntry.imports_listEvents : ∀ es : List DictEntry,
    (DictEntry.listEvents es).filter Event.isImport = (DictEntry.listImports es).map (·.event)
  | [] => rfl
  | e :: es => by
    simp [DictEntry.listEvents, DictEntry.listImports, e.imports_events,
      DictEntry.imports_listEvents es]

theorem MatchArm.imports_events :
    ∀ arm : MatchArm, arm.events.filter Event.isImport = arm.imports.map (·.event)
  | .mk _ values result => by
    simp [MatchArm.events, MatchArm.imports, Expr.imports_listEvents values,
      result.imports_events]

theorem MatchArm.imports_listEvents : ∀ arms : List MatchArm,
    (MatchArm.listEvents arms).filter Event.isImport = (MatchArm.listImports arms).map (·.event)
  | [] => rfl
  | arm :: arms => by
    simp [MatchArm.listEvents, MatchArm.listImports, arm.imports_events,
      MatchArm.imports_listEvents arms]

theorem Block.imports_inner :
    ∀ b : Block, b.inner.filter Event.isImport = b.imports.map (·.imported.event)
  | .mk _ stmts => Stmt.imports_listEvents stmts

theorem Block.imports_optionEvents : ∀ b : Option Block,
    (Block.optionEvents b).filter Event.isImport = (Block.optionImports b).map (·.imported.event)
  | none => rfl
  | some body => by simp [Block.optionEvents, Block.optionImports, body.imports_inner]

theorem SwitchCase.imports_events :
    ∀ c : SwitchCase, c.events.filter Event.isImport = c.imports.map (·.imported.event)
  | .mk _ values body => by
    simp [SwitchCase.events, SwitchCase.imports, Expr.imports_listEvents values,
      body.imports_inner]

theorem SwitchCase.imports_listEvents : ∀ cs : List SwitchCase,
    (SwitchCase.listEvents cs).filter Event.isImport = (SwitchCase.listImports cs).map (·.imported.event)
  | [] => rfl
  | c :: cs => by
    simp [SwitchCase.listEvents, SwitchCase.listImports, c.imports_events,
      SwitchCase.imports_listEvents cs]

theorem CatchClause.imports_optionEvents : ∀ handler : Option CatchClause,
    (CatchClause.optionEvents handler).filter Event.isImport
      = (CatchClause.optionImports handler).map (·.imported.event)
  | none => rfl
  | some (.mk _ name body) => by
    simp [CatchClause.optionEvents, CatchClause.events, CatchClause.optionImports,
      CatchClause.imports, Event.isImport, body.imports_inner]

theorem Stmt.imports_events :
    ∀ s : Stmt, s.events.filter Event.isImport = s.imports.map (·.imported.event)
  | .expr _ value | .raise _ value | .defer _ value => by
    simp [Stmt.events, Stmt.imports, value.imports_events]
  | .assign _ name _ value => by
    simp [Stmt.events, Stmt.imports, Event.isImport, value.imports_events]
  | .indexAssign _ object index _ value => by
    simp [Stmt.events, Stmt.imports, object.imports_events, index.imports_events,
      value.imports_events]
  | .memberAssign _ object name _ value => by
    rw [Stmt.events, Stmt.imports, List.filter_append, value.imports_events,
      PlacedImport.map_event_within, List.map_append, ← object.imports_events]
    split
    next base hbase => rw [Expr.eq_of_ident? hbase]; rfl
    next => rfl
  | .destructure _ targets op value => by
    simp [Stmt.events, Stmt.imports, value.imports_events]
  | .cond _ test thenS elseS => by
    simp [Stmt.events, Stmt.imports, test.imports_events, thenS.imports_events,
      Stmt.imports_optionEvents elseS]
  | .whileLoop _ test body => by
    simp [Stmt.events, Stmt.imports, test.imports_events, body.imports_inner]
  | .forLoop _ init test post body => by
    simp [Stmt.events, Stmt.imports, Stmt.imports_optionEvents init,
      Expr.imports_optionEvents test, Stmt.imports_optionEvents post, body.imports_inner,
      Function.comp_def]
  | .forIn _ key value seq body => by
    simp [Stmt.events, Stmt.imports, Event.isImport, seq.imports_events, body.imports_inner]
  | .switch _ value cases fallback => by
    simp [Stmt.events, Stmt.imports, value.imports_events, SwitchCase.imports_listEvents cases,
      Block.imports_optionEvents fallback]
  | .tryCatch _ body handler finalizer => by
    simp [Stmt.events, Stmt.imports, body.imports_inner,
      CatchClause.imports_optionEvents handler, Block.imports_optionEvents finalizer]
  | .func _ name params body => by
    simp [Stmt.events, Stmt.imports, Event.isImport, body.imports_inner]
  | .importAs _ path asName => by cases asName <;> rfl
  | .importFrom _ path items => by
    rw [Stmt.events, Stmt.imports, Event.imports_items, List.map_map]
    rfl
  | .exported _ stmt => stmt.imports_events
  | .ret _ values => by simp [Stmt.events, Stmt.imports, Expr.imports_listEvents values]
  | .brk _ | .cont _ | .pass _ => rfl
  | .block body => by simp [Stmt.events, Stmt.imports, body.imports_inner]

theorem Stmt.imports_listEvents : ∀ ss : List Stmt,
    (Stmt.listEvents ss).filter Event.isImport = (Stmt.listImports ss).map (·.imported.event)
  | [] => rfl
  | s :: ss => by
    simp [Stmt.listEvents, Stmt.listImports, s.imports_events, Stmt.imports_listEvents ss]

theorem Stmt.imports_optionEvents : ∀ s : Option Stmt,
    (Stmt.optionEvents s).filter Event.isImport = (Stmt.optionImports s).map (·.imported.event)
  | none => rfl
  | some s => s.imports_events

end

/-! ## Programs -/

namespace Program

/-- The import steps of a program are those of its import lists, in their order. -/
theorem imports_events (program : Program) :
    program.events.filter Event.isImport = program.imports.map (·.imported.event) :=
  Stmt.imports_listEvents program.stmts

theorem event_mem_of_mem_imports {program : Program} {found : PlacedImport}
    (h : found ∈ program.imports) : found.imported.event ∈ program.events := by
  have hmem : found.imported.event ∈ program.imports.map (·.imported.event) :=
    List.mem_map_of_mem h
  rw [← imports_events] at hmem
  exact List.mem_of_mem_filter hmem

/-- The search finds the names of the import lists that are not enclosed. -/
theorem mem_importedNames_iff {program : Program} {imported : ImportedName} :
    imported ∈ program.importedNames
      ↔ ∃ found ∈ program.imports, found.imported = imported ∧ found.enclosed = false := by
  have hopen : program.imports.filterMap PlacedImport.open? = program.importedNames :=
    Stmt.open_listImports program.stmts
  rw [← hopen, List.mem_filterMap]
  refine exists_congr fun found => and_congr_right fun _ => ?_
  cases hfound : found.enclosed <;> simp [PlacedImport.open?, hfound]

/-- The search finds nothing that the walk does not come to. -/
theorem event_mem {program : Program} {imported : ImportedName}
    (h : imported ∈ program.importedNames) : imported.event ∈ program.events := by
  obtain ⟨found, hfound, rfl, -⟩ := mem_importedNames_iff.1 h
  exact event_mem_of_mem_imports hfound

/-- No two names of import lists are bound at the same place. -/
theorem import_eq_of_pos_eq {text : String} {found other : PlacedImport}
    (hfound : found ∈ (Program.parse text).program.imports)
    (hother : other ∈ (Program.parse text).program.imports)
    (hpos : found.imported.item.bound.pos = other.imported.item.bound.pos) : found = other := by
  have hsub : ((Program.parse text).program.imports.map (·.imported.item.bound)).Sublist
      (Program.parse text).program.eventIdents := by
    have hidents : (Program.parse text).program.imports.map (·.imported.item.bound)
        = ((Program.parse text).program.events.filter Event.isImport).flatMap Event.idents := by
      rw [imports_events, List.flatMap_map, List.map_eq_flatMap]
      rfl
    rw [hidents]
    exact List.filter_sublist.flatMap _
  have hnodup := (nodup_eventPositions text).sublist (hsub.map (·.pos))
  rw [List.map_map] at hnodup
  exact List.inj_on_of_nodup_map hnodup hfound hother hpos

end Program

/-! ## Files -/

/-- The walk binds every name of an import list. -/
theorem Analysis.exists_binding_of_import {text : String} {found : PlacedImport}
    (h : found ∈ (Program.parse text).program.imports) : ∃ i b,
      (ofText text).bindings[i]? = some b ∧ b.name = found.imported.item.bound.name
        ∧ ⟨found.imported.item.bound, .binding i⟩ ∈ (ofText text).references := by
  obtain ⟨front, back, hevents⟩ := List.append_of_mem (Program.event_mem_of_mem_imports h)
  have hmeets := Walk.meets_of_events_eq hevents
  have hr := hmeets.mem_references (Walk.mem_references_declareAndRefer _ found.imported.item.bound
    .imported _)
  obtain ⟨b, hb, hname⟩ :=
    (Walk.valid_ofProgram (.ofText text) (Program.parse text).program).means _ hr
  exact ⟨_, b, hb, hname, hr⟩

namespace SourceFile

/-- The walk binds the names of all import lists and imports nothing else. The search finds those
    whose lists are not enclosed, with the names that they are given, and nothing else. -/
theorem importedNames_iff (uri : Uri) (p : Path) (text : String) :
    let file := SourceFile.ofText uri p text
    let program := file.analysis.program
    program.events.filter Event.isImport = program.imports.map (·.imported.event)
      ∧ (∀ found ∈ program.imports,
        (∃ i b, file.analysis.bindings[i]? = some b ∧ b.name = found.imported.item.bound.name
          ∧ ⟨found.imported.item.bound, .binding i⟩ ∈ file.analysis.references)
        ∧ (found.imported ∈ file.importedNames ↔ found.enclosed = false)
        ∧ ∀ asName, found.imported.item.asName = some asName →
          (asName.pos ∈ file.aliasPositions ↔ found.enclosed = false))
      ∧ (∀ imported ∈ file.importedNames, ∃ found ∈ program.imports, found.imported = imported)
      ∧ ∀ pos ∈ file.aliasPositions, ∃ found ∈ program.imports, ∃ asName,
        found.imported.item.asName = some asName ∧ asName.pos = pos := by
  intro file program
  -- the aliases that are known are those of the lists that the search finds
  have haliases (pos : Position) (hpos : pos ∈ file.aliasPositions) :
      ∃ found ∈ program.imports, found.enclosed = false ∧ ∃ asName,
        found.imported.item.asName = some asName ∧ asName.pos = pos := by
    obtain ⟨imported, himported, halias⟩ := List.mem_filterMap.1 hpos
    obtain ⟨found, hfound, rfl, hopen⟩ := Program.mem_importedNames_iff.1 himported
    exact ⟨found, hfound, hopen, Option.map_eq_some_iff.1 halias⟩
  refine ⟨program.imports_events, fun found hfound => ⟨?_, ⟨?_, ?_⟩, ?_⟩, ?_, ?_⟩
  · exact Analysis.exists_binding_of_import hfound
  · intro hmem
    obtain ⟨other, hother, himported, hopen⟩ := Program.mem_importedNames_iff.1 hmem
    obtain rfl : other = found := Program.import_eq_of_pos_eq hother hfound (by rw [himported])
    exact hopen
  · exact fun hopen => Program.mem_importedNames_iff.2 ⟨found, hfound, rfl, hopen⟩
  · intro asName hasName
    have hbound : found.imported.item.bound = asName := by simp [ImportItem.bound, hasName]
    constructor
    · intro hpos
      obtain ⟨other, hother, hopen, asName', hasName', hpos'⟩ := haliases _ hpos
      have hbound' : other.imported.item.bound = asName' := by simp [ImportItem.bound, hasName']
      obtain rfl : other = found :=
        Program.import_eq_of_pos_eq hother hfound (by rw [hbound, hbound', hpos'])
      exact hopen
    · intro hopen
      exact List.mem_filterMap.2 ⟨found.imported,
        Program.mem_importedNames_iff.2 ⟨found, hfound, rfl, hopen⟩, by simp [hasName]⟩
  · intro imported himported
    obtain ⟨found, hfound, heq, -⟩ := Program.mem_importedNames_iff.1 himported
    exact ⟨found, hfound, heq⟩
  · intro pos hpos
    obtain ⟨found, hfound, -, halias⟩ := haliases pos hpos
    exact ⟨found, hfound, halias⟩

/-- An import in a function literal is not found. -/
theorem importedNames_iff_literal :
    let file := SourceFile.ofText ⟨"file", some .empty, "/main.wll", ""⟩ ⟨"/main.wll"⟩
      "f = func() \x7b from \"./lib\" import a as b; b() \x7d\n"
    (Program.parse file.text).diagnostics = []
      ∧ .importMember ⟨"b", ⟨1, 39⟩⟩ "./lib" "a" ∈ file.analysis.program.events
      ∧ ⟨"./lib", ⟨"a", ⟨1, 34⟩⟩, some ⟨"b", ⟨1, 39⟩⟩⟩ ∉ file.importedNames
      ∧ ⟨1, 39⟩ ∉ file.aliasPositions := by
  intro file
  have hfound : ⟨⟨"./lib", ⟨"a", ⟨1, 34⟩⟩, some ⟨"b", ⟨1, 39⟩⟩⟩, true⟩
      ∈ file.analysis.program.imports := by
    decide +kernel
  obtain ⟨-, hnames, -⟩ := importedNames_iff ⟨"file", some .empty, "/main.wll", ""⟩
    ⟨"/main.wll"⟩ "f = func() \x7b from \"./lib\" import a as b; b() \x7d\n"
  obtain ⟨-, hname, halias⟩ := hnames _ hfound
  exact ⟨by decide +kernel, by decide +kernel, fun h => absurd (hname.1 h) (by decide),
    fun h => absurd ((halias _ rfl).1 h) (by decide)⟩

end SourceFile

end Welle
