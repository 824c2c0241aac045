import Welle.Proofs.Recorded

set_option autoImplicit false

/-! # The names that a walk records

`scopedNames` lists the identifiers of a tree that name something in a scope, which leaves out
members, the names of import lists that are bound under other names, and variables that are called
`_`. The walk comes to each of them once, in the order of the list, and records it there as a use or
as the place of a declaration. The one exception is a function whose name its scope has already: it
takes over the binding of the name, and nothing is recorded at the function. -/

namespace Welle

/-! ## Names of a tree -/

/-- The variables that are bound, which are those not called `_`. -/
def Ident.kept (ids : List Ident) : List Ident := ids.filter fun id => !id.isDiscard

mutual

/-- The names of an expression. -/
def Expr.scopedNames : Expr → List Ident
  | .ident id => [id]
  | .int .. | .float .. | .str .. | .bool .. | .nil .. => []
  | .tuple _ items | .list _ items => Expr.listScopedNames items
  | .dict _ entries => DictEntry.listScopedNames entries
  | .template _ tag _ exprs => Expr.optionScopedNames tag ++ Expr.listScopedNames exprs
  | .func _ params body => params ++ body.scopedNames
  | .unary _ _ operand => operand.scopedNames
  | .binary _ _ left right => left.scopedNames ++ right.scopedNames
  | .ternary _ cond thenE elseE => cond.scopedNames ++ thenE.scopedNames ++ elseE.scopedNames
  | .conditional _ thenE cond elseE => thenE.scopedNames ++ cond.scopedNames ++ elseE.scopedNames
  | .assign _ target _ value => target.scopedNames ++ value.scopedNames
  | .spread _ value => value.scopedNames
  | .call _ callee args => callee.scopedNames ++ Expr.listScopedNames args
  | .index _ object index => object.scopedNames ++ index.scopedNames
  | .slice _ object low high step =>
    object.scopedNames ++ Expr.optionScopedNames low ++ Expr.optionScopedNames high
      ++ Expr.optionScopedNames step
  | .member _ object _ => object.scopedNames
  | .comprehension _ elem var seq filter =>
    seq.scopedNames ++ Ident.kept [var] ++ Expr.optionScopedNames filter ++ elem.scopedNames
  | .select _ value arms fallback =>
    value.scopedNames ++ MatchArm.listScopedNames arms ++ Expr.optionScopedNames fallback

/-- The names of expressions. -/
def Expr.listScopedNames : List Expr → List Ident
  | [] => []
  | e :: es => e.scopedNames ++ Expr.listScopedNames es

/-- The names of an expression that may be missing. -/
def Expr.optionScopedNames : Option Expr → List Ident
  | none => []
  | some e => e.scopedNames

/-- The names of a dictionary entry. -/
def DictEntry.scopedNames : DictEntry → List Ident
  | .pair key value => key.scopedNames ++ value.scopedNames
  | .shorthand id => [id]

/-- The names of dictionary entries. -/
def DictEntry.listScopedNames : List DictEntry → List Ident
  | [] => []
  | e :: es => e.scopedNames ++ DictEntry.listScopedNames es

/-- The names of a case of a `match` expression. -/
def MatchArm.scopedNames : MatchArm → List Ident
  | .mk _ values result => Expr.listScopedNames values ++ result.scopedNames

/-- The names of the cases of a `match` expression. -/
def MatchArm.listScopedNames : List MatchArm → List Ident
  | [] => []
  | arm :: arms => arm.scopedNames ++ MatchArm.listScopedNames arms

/-- The names of a block. -/
def Block.scopedNames : Block → List Ident
  | .mk _ stmts => Stmt.listScopedNames stmts

/-- The names of a block that may be missing. -/
def Block.optionScopedNames : Option Block → List Ident
  | none => []
  | some body => body.scopedNames

/-- The names of a case of a `switch` statement. -/
def SwitchCase.scopedNames : SwitchCase → List Ident
  | .mk _ values body => Expr.listScopedNames values ++ body.scopedNames

/-- The names of the cases of a `switch` statement. -/
def SwitchCase.listScopedNames : List SwitchCase → List Ident
  | [] => []
  | c :: cs => c.scopedNames ++ SwitchCase.listScopedNames cs

/-- The names of a handler. -/
def CatchClause.scopedNames : CatchClause → List Ident
  | .mk _ name body => Ident.kept name.toList ++ body.scopedNames

/-- The names of a handler that may be missing. -/
def CatchClause.optionScopedNames : Option CatchClause → List Ident
  | none => []
  | some handler => handler.scopedNames

/-- The names of a statement. -/
def Stmt.scopedNames : Stmt → List Ident
  | .expr _ value => value.scopedNames
  | .assign _ name _ value => name :: value.scopedNames
  | .indexAssign _ object index _ value =>
    object.scopedNames ++ index.scopedNames ++ value.scopedNames
  | .memberAssign _ object _ _ value => object.scopedNames ++ value.scopedNames
  | .destructure _ targets _ value => targets.filterMap Target.ident? ++ value.scopedNames
  | .cond _ test thenS elseS =>
    test.scopedNames ++ thenS.scopedNames ++ Stmt.optionScopedNames elseS
  | .whileLoop _ test body => test.scopedNames ++ body.scopedNames
  | .forLoop _ init test post body =>
    Stmt.optionScopedNames init ++ Expr.optionScopedNames test ++ Stmt.optionScopedNames post
      ++ body.scopedNames
  | .forIn _ key value seq body =>
    seq.scopedNames ++ Ident.kept (key :: value.toList) ++ body.scopedNames
  | .switch _ value cases fallback =>
    value.scopedNames ++ SwitchCase.listScopedNames cases ++ Block.optionScopedNames fallback
  | .tryCatch _ body handler finalizer =>
    body.scopedNames ++ CatchClause.optionScopedNames handler ++ Block.optionScopedNames finalizer
  | .func _ name params body => name :: params ++ body.scopedNames
  | .importAs _ _ asName => asName.toList
  | .importFrom _ _ items => items.map ImportItem.bound
  | .exported _ stmt => stmt.scopedNames
  | .ret _ values => Expr.listScopedNames values
  | .brk _ | .cont _ | .pass _ => []
  | .raise _ value => value.scopedNames
  | .defer _ call => call.scopedNames
  | .block body => body.scopedNames

/-- The names of statements. -/
def Stmt.listScopedNames : List Stmt → List Ident
  | [] => []
  | s :: ss => s.scopedNames ++ Stmt.listScopedNames ss

/-- The names of a statement that may be missing. -/
def Stmt.optionScopedNames : Option Stmt → List Ident
  | none => []
  | some s => s.scopedNames

end

/-- The names of a program. -/
def Program.scopedNames (program : Program) : List Ident := Stmt.listScopedNames program.stmts

/-! ## Names of steps -/

/-- What a step is to record. -/
def Event.named : Event → List Ident
  | .enter .. | .leave => []
  | .use id | .assign id _ _ | .param id | .func id _ | .importModule id _
  | .importMember id _ _ => [id]
  | .bind id => Ident.kept [id]
  | .member base _ => [base]

namespace Event

@[simp] theorem named_inScope (start opening : Position) (inner : List Event) :
    (inScope start opening inner).flatMap named = inner.flatMap named := by
  simp [inScope, named]

@[simp] theorem named_function (start : Position) (params : List Ident) (opening : Position)
    (body : List Event) :
    (function start params opening body).flatMap named = params ++ body.flatMap named := by
  simp [function, List.flatMap_map, named]

@[simp] theorem named_binds (ids : List Ident) :
    (ids.map bind).flatMap named = Ident.kept ids := by
  induction ids with
  | nil => rfl
  | cons id ids ih =>
    rw [List.map_cons, List.flatMap_cons, ih, named, Ident.kept, Ident.kept, ← List.filter_append,
      List.singleton_append, Ident.kept]

@[simp] theorem named_targets (op : AssignOp) (targets : List Target) :
    (targets.flatMap (ofTarget op)).flatMap named = targets.filterMap Target.ident? := by
  induction targets with
  | nil => rfl
  | cons t targets ih => cases t <;> simp [ofTarget, Target.ident?, named, ih, List.filterMap_cons]

@[simp] theorem named_items (path : ImportPath) (items : List ImportItem) :
    (items.map (ofItem path)).flatMap named = items.map ImportItem.bound := by
  simp [List.flatMap_map, ofItem, named, ← List.map_eq_flatMap]

end Event

theorem Expr.scopedNames_of_ident? {e : Expr} {id : Ident} (h : e.ident? = some id) :
    e.scopedNames = [id] := by
  obtain rfl := Expr.eq_of_ident? h
  rfl

/-! ## The steps of a tree name its names -/

mutual

theorem Expr.named_events : ∀ e : Expr, e.events.flatMap Event.named = e.scopedNames
  | .ident id => rfl
  | .int .. | .float .. | .str .. | .bool .. | .nil .. => rfl
  | .tuple _ items | .list _ items => Expr.named_listEvents items
  | .dict _ entries => DictEntry.named_listEvents entries
  | .template _ tag _ exprs => by
    simp [Expr.events, Expr.scopedNames, Expr.named_optionEvents tag, Expr.named_listEvents exprs]
  | .func _ params body => by simp [Expr.events, Expr.scopedNames, body.named_inner]
  | .unary _ _ operand => operand.named_events
  | .binary _ _ left right => by
    simp [Expr.events, Expr.scopedNames, left.named_events, right.named_events]
  | .ternary _ cond thenE elseE => by
    simp [Expr.events, Expr.scopedNames, cond.named_events, thenE.named_events,
      elseE.named_events]
  | .conditional _ thenE cond elseE => by
    simp [Expr.events, Expr.scopedNames, thenE.named_events, cond.named_events,
      elseE.named_events]
  | .assign _ target op value => by
    rw [Expr.events, Expr.scopedNames, List.flatMap_append, value.named_events]
    split
    next name hname => simp [Event.named, Expr.scopedNames_of_ident? hname]
    next => rw [target.named_events]
  | .spread _ value => value.named_events
  | .call _ callee args => by
    simp [Expr.events, Expr.scopedNames, callee.named_events, Expr.named_listEvents args]
  | .index _ object index => by
    simp [Expr.events, Expr.scopedNames, object.named_events, index.named_events]
  | .slice _ object low high step => by
    simp [Expr.events, Expr.scopedNames, object.named_events, Expr.named_optionEvents low,
      Expr.named_optionEvents high, Expr.named_optionEvents step]
  | .member _ object name => by
    rw [Expr.events, Expr.scopedNames]
    split
    next base hbase => simp [Event.named, Expr.scopedNames_of_ident? hbase]
    next => exact object.named_events
  | .comprehension _ elem var seq filter => by
    simp [Expr.events, Expr.scopedNames, Event.named, seq.named_events,
      Expr.named_optionEvents filter, elem.named_events]
  | .select _ value arms fallback => by
    simp [Expr.events, Expr.scopedNames, value.named_events, MatchArm.named_listEvents arms,
      Expr.named_optionEvents fallback]

theorem Expr.named_listEvents :
    ∀ es : List Expr, (Expr.listEvents es).flatMap Event.named = Expr.listScopedNames es
  | [] => rfl
  | e :: es => by
    simp [Expr.listEvents, Expr.listScopedNames, e.named_events, Expr.named_listEvents es]

theorem Expr.named_optionEvents :
    ∀ e : Option Expr, (Expr.optionEvents e).flatMap Event.named = Expr.optionScopedNames e
  | none => rfl
  | some e => e.named_events

theorem DictEntry.named_events :
    ∀ e : DictEntry, e.events.flatMap Event.named = e.scopedNames
  | .pair key value => by
    simp [DictEntry.events, DictEntry.scopedNames, key.named_events, value.named_events]
  | .shorthand id => rfl

theorem DictEntry.named_listEvents : ∀ es : List DictEntry,
    (DictEntry.listEvents es).flatMap Event.named = DictEntry.listScopedNames es
  | [] => rfl
  | e :: es => by
    simp [DictEntry.listEvents, DictEntry.listScopedNames, e.named_events,
      DictEntry.named_listEvents es]

theorem MatchArm.named_events :
    ∀ arm : MatchArm, arm.events.flatMap Event.named = arm.scopedNames
  | .mk _ values result => by
    simp [MatchArm.events, MatchArm.scopedNames, Expr.named_listEvents values,
      result.named_events]

theorem MatchArm.named_listEvents : ∀ arms : List MatchArm,
    (MatchArm.listEvents arms).flatMap Event.named = MatchArm.listScopedNames arms
  | [] => rfl
  | arm :: arms => by
    simp [MatchArm.listEvents, MatchArm.listScopedNames, arm.named_events,
      MatchArm.named_listEvents arms]

theorem Block.named_inner : ∀ b : Block, b.inner.flatMap Event.named = b.scopedNames
  | .mk _ stmts => Stmt.named_listEvents stmts

theorem Block.named_optionEvents :
    ∀ b : Option Block, (Block.optionEvents b).flatMap Event.named = Block.optionScopedNames b
  | none => rfl
  | some body => by simp [Block.optionEvents, Block.optionScopedNames, body.named_inner]

theorem SwitchCase.named_events :
    ∀ c : SwitchCase, c.events.flatMap Event.named = c.scopedNames
  | .mk _ values body => by
    simp [SwitchCase.events, SwitchCase.scopedNames, Expr.named_listEvents values,
      body.named_inner]

theorem SwitchCase.named_listEvents : ∀ cs : List SwitchCase,
    (SwitchCase.listEvents cs).flatMap Event.named = SwitchCase.listScopedNames cs
  | [] => rfl
  | c :: cs => by
    simp [SwitchCase.listEvents, SwitchCase.listScopedNames, c.named_events,
      SwitchCase.named_listEvents cs]

theorem CatchClause.named_optionEvents : ∀ handler : Option CatchClause,
    (CatchClause.optionEvents handler).flatMap Event.named
      = CatchClause.optionScopedNames handler
  | none => rfl
  | some (.mk _ name body) => by
    simp [CatchClause.optionEvents, CatchClause.events, CatchClause.optionScopedNames,
      CatchClause.scopedNames, body.named_inner]

theorem Stmt.named_events : ∀ s : Stmt, s.events.flatMap Event.named = s.scopedNames
  | .expr _ value => value.named_events
  | .assign _ name _ value => by
    simp [Stmt.events, Stmt.scopedNames, Event.named, value.named_events]
  | .indexAssign _ object index _ value => by
    simp [Stmt.events, Stmt.scopedNames, object.named_events, index.named_events,
      value.named_events]
  | .memberAssign _ object name _ value => by
    rw [Stmt.events, Stmt.scopedNames, List.flatMap_append, value.named_events]
    split
    next base hbase => simp [Event.named, Expr.scopedNames_of_ident? hbase]
    next => rw [object.named_events]
  | .destructure _ targets op value => by
    rw [Stmt.events, Stmt.scopedNames, List.flatMap_append, Event.named_targets,
      value.named_events]
  | .cond _ test thenS elseS => by
    simp [Stmt.events, Stmt.scopedNames, test.named_events, thenS.named_events,
      Stmt.named_optionEvents elseS]
  | .whileLoop _ test body => by
    simp [Stmt.events, Stmt.scopedNames, test.named_events, body.named_inner]
  | .forLoop _ init test post body => by
    simp [Stmt.events, Stmt.scopedNames, Stmt.named_optionEvents init,
      Expr.named_optionEvents test, Stmt.named_optionEvents post, body.named_inner]
  | .forIn _ key value seq body => by
    rw [Stmt.events, Stmt.scopedNames, ← List.map_cons, Event.named_inScope, List.flatMap_append,
      List.flatMap_append, seq.named_events, Event.named_binds, body.named_inner]
  | .switch _ value cases fallback => by
    simp [Stmt.events, Stmt.scopedNames, value.named_events, SwitchCase.named_listEvents cases,
      Block.named_optionEvents fallback]
  | .tryCatch _ body handler finalizer => by
    simp [Stmt.events, Stmt.scopedNames, body.named_inner,
      CatchClause.named_optionEvents handler, Block.named_optionEvents finalizer]
  | .func _ name params body => by
    simp [Stmt.events, Stmt.scopedNames, Event.named, body.named_inner]
  | .importAs _ path asName => by cases asName <;> rfl
  | .importFrom _ path items => Event.named_items path items
  | .exported _ stmt => stmt.named_events
  | .ret _ values => Expr.named_listEvents values
  | .brk _ | .cont _ | .pass _ => rfl
  | .raise _ value => value.named_events
  | .defer _ call => call.named_events
  | .block body => by simp [Stmt.events, Stmt.scopedNames, body.named_inner]

theorem Stmt.named_listEvents :
    ∀ ss : List Stmt, (Stmt.listEvents ss).flatMap Event.named = Stmt.listScopedNames ss
  | [] => rfl
  | s :: ss => by
    simp [Stmt.listEvents, Stmt.listScopedNames, s.named_events, Stmt.named_listEvents ss]

theorem Stmt.named_optionEvents :
    ∀ s : Option Stmt, (Stmt.optionEvents s).flatMap Event.named = Stmt.optionScopedNames s
  | none => rfl
  | some s => s.named_events

end

/-- The steps of a program come to its names, one after the other. -/
theorem Program.named_events (program : Program) :
    program.events.flatMap Event.named = program.scopedNames :=
  Stmt.named_listEvents program.stmts

/-! ## What a step records -/

namespace Walk

variable {w : Walk}

/-- Whether a walk records an identifier, as the place of a declaration or as a use. -/
def Records (w : Walk) (id : Ident) : Prop :=
  (∃ b ∈ w.bindings, b.decl = id) ∨ ∃ r ∈ w.references, r.ident = id

theorem records_refer (w : Walk) (id : Ident) (resolution : Resolution) :
    (w.refer id resolution).Records id :=
  .inr ⟨_, Array.mem_push_self, rfl⟩

theorem records_declareAndRefer (w : Walk) (id : Ident) (kind : BindingKind)
    (f : Binding → Binding) : (w.declareAndRefer id kind f).Records id :=
  .inr ⟨_, mem_references_declareAndRefer w id kind f, rfl⟩

theorem records_use (w : Walk) (id : Ident) : (w.use id).Records id := by
  unfold use
  split <;> exact records_refer ..

theorem records_assign (w : Walk) (id : Ident) (op : AssignOp) (params : Option (List String)) :
    (w.assign id op params).Records id := by
  unfold assign
  dsimp only
  split
  · split
    · exact records_refer w id _
    · exact records_refer w id _
  · split <;> exact records_declareAndRefer ..

theorem records_useMember (w : Walk) (base name : Ident) :
    (w.useMember base name).Records base := by
  obtain ⟨i, x, hlookup, hx, hkind⟩ | hother := w.alias_or_other base
  · rw [useMember_of_alias name hlookup hx hkind]
    exact .inr ⟨⟨base, .binding i⟩, Array.mem_push_of_mem _ Array.mem_push_self, rfl⟩
  · rw [useMember_of_other name hother]
    exact records_use w base

/-- A function whose name is new to the scope is recorded where it is declared. -/
theorem records_func {id : Ident} (pairs : Bracket.Pairs) (params : List String)
    (hnew : w.own? id.name = none) : (w.step pairs (.func id params)).Records id := by
  rw [step_func, declare_of_none .func hnew]
  refine .inl ⟨⟨id.name, .func, id, w.current, params, none, none⟩, ?_, rfl⟩
  refine Array.mem_of_getElem? (i := w.bindings.size) ?_
  simp only [update, Array.getElem?_modify, if_true, Array.getElem?_push_size, Option.map_some]

/-- A step records what it is to record, unless it is a function that takes over a binding. -/
theorem records_step (w : Walk) (pairs : Bracket.Pairs) {e : Event} {id : Ident}
    (hid : id ∈ e.named) : (w.step pairs e).Records id
      ∨ ∃ params i, e = .func id params ∧ w.own? id.name = some i := by
  cases e with
  | enter start opening => simp [Event.named] at hid
  | leave => simp [Event.named] at hid
  | use other =>
    obtain rfl := List.mem_singleton.1 hid
    exact .inl (records_use w id)
  | assign other op params =>
    obtain rfl := List.mem_singleton.1 hid
    exact .inl (records_assign w id op params)
  | param other =>
    obtain rfl := List.mem_singleton.1 hid
    exact .inl (records_declareAndRefer ..)
  | bind other =>
    obtain ⟨hmem, hkept⟩ := List.mem_filter.1 hid
    obtain rfl := List.mem_singleton.1 hmem
    rw [step, if_neg (by simpa using hkept)]
    exact .inl (records_declareAndRefer ..)
  | func other params =>
    obtain rfl := List.mem_singleton.1 hid
    cases hown : w.own? id.name with
    | some i => exact .inr ⟨params, i, rfl, rfl⟩
    | none => exact .inl (records_func pairs params hown)
  | importModule other path =>
    obtain rfl := List.mem_singleton.1 hid
    exact .inl (records_declareAndRefer ..)
  | importMember other path member =>
    obtain rfl := List.mem_singleton.1 hid
    exact .inl (records_declareAndRefer ..)
  | member base name =>
    obtain rfl := List.mem_singleton.1 hid
    exact .inl (records_useMember w id name)

/-- What is recorded stays recorded. -/
theorem Grows.records {ids : List Ident} {w w' : Walk} (h : Grows ids w w') {id : Ident}
    (hid : w.Records id) : w'.Records id := by
  obtain ⟨b, hb, rfl⟩ | ⟨r, hr, rfl⟩ := hid
  · obtain ⟨i, hi⟩ := Array.mem_iff_getElem?.1 hb
    obtain ⟨b', hb', hkeeps⟩ := h.keeps hi
    exact .inl ⟨b', Array.mem_of_getElem? hb', hkeeps.decl⟩
  · obtain ⟨more, hmore, -⟩ := h.references
    exact .inr ⟨r, hmore ▸ Array.mem_append_left _ hr, rfl⟩

theorem Unmet.not_records {id : Ident} (h : w.Unmet id.pos) : ¬w.Records id := by
  rintro (⟨b, hb, rfl⟩ | ⟨r, hr, rfl⟩)
  · obtain ⟨i, hi⟩ := Array.mem_iff_getElem?.1 hb
    exact h.declaration i b hi rfl
  · exact h.use r hr rfl

/-- The uses that a walk adds stand in the order of the identifiers that it comes to. -/
theorem references_run (w : Walk) (pairs : Bracket.Pairs) (es : List Event) :
    ∃ more : List Reference, (w.run pairs es).references.toList = w.references.toList ++ more
      ∧ (more.map (·.ident)).Sublist (es.flatMap Event.idents) := by
  induction es generalizing w with
  | nil => exact ⟨[], (List.append_nil _).symm, .slnil⟩
  | cons e es ih =>
    obtain ⟨first, hfirst, hsub, -⟩ := (adds_step w pairs e).references
    obtain ⟨more, hmore, hsub'⟩ := ih (w.step pairs e)
    refine ⟨first ++ more, ?_, ?_⟩
    · show ((w.step pairs e).run pairs es).references.toList = _
      rw [hmore, hfirst, List.append_assoc]
    · rw [List.map_append, List.flatMap_cons]
      exact hsub.append hsub'

end Walk

/-! ## Texts -/

/-- Whether the function that is declared at an identifier takes over a binding: when the walk comes
    to it, the scope has the name already. -/
def Program.TakesOver (pairs : Bracket.Pairs) (program : Program) (id : Ident) : Prop :=
  ∃ front params back i, program.events = front ++ Event.func id params :: back
    ∧ ((Walk.start pairs.stop).run pairs front).own? id.name = some i

namespace Analysis

/-- No place is recorded as a use twice. -/
theorem nodup_references (text : String) :
    ((ofText text).references.toList.map (·.ident.pos)).Nodup := by
  obtain ⟨more, hmore, hsub⟩ := Walk.references_run (Walk.start (Bracket.Pairs.ofText text).stop)
    (.ofText text) (Program.parse text).program.events
  have hreferences : (ofText text).references.toList = more := hmore
  rw [hreferences]
  have hnodup := (Program.nodup_eventPositions text).sublist (hsub.map (·.pos))
  rwa [List.map_map] at hnodup

/-- Every name of a text is recorded, and no name twice as a use, but for the functions that take over
    a binding. -/
theorem records_iff (text : String) :
    ((ofText text).references.toList.map (·.ident.pos)).Nodup
      ∧ ∀ id ∈ (ofText text).program.scopedNames,
        ((∃ b ∈ (ofText text).bindings, b.decl = id) ∨ ∃ r ∈ (ofText text).references, r.ident = id)
          ↔ ¬(ofText text).program.TakesOver (.ofText text) id := by
  refine ⟨nodup_references text, fun id hid => ?_⟩
  show Walk.Records (Walk.ofProgram (.ofText text) (Program.parse text).program) id
    ↔ ¬(Program.parse text).program.TakesOver (.ofText text) id
  constructor
  · -- the step that takes over a binding does not meet the name, and no other step does
    rintro hrecords ⟨front, params, back, i, hevents, hown⟩
    have hmeets := Walk.meets_of_events_eq hevents
    have hmem : id ∈ (Event.func id params).idents := List.mem_singleton_self id
    have hunmet := (hmeets.unmet id hmem).update i (Binding.keeps_func params)
    have hstep := Walk.step_func ((Walk.start (Bracket.Pairs.ofText text).stop).run (.ofText text)
      front) (.ofText text) id params
    rw [Walk.declare_of_some .func hown] at hstep
    rw [← hstep] at hunmet
    exact (hmeets.grows.unmet (hmeets.apart id hmem) hunmet).not_records hrecords
  · -- the step at a name records it, unless it takes over a binding
    intro hkept
    have hid' : id ∈ (Program.parse text).program.events.flatMap Event.named :=
      (Program.parse text).program.named_events ▸ hid
    obtain ⟨e, he, hnamed⟩ := List.mem_flatMap.1 hid'
    obtain ⟨front, back, hevents⟩ := List.append_of_mem he
    obtain hrecords | ⟨params, i, rfl, hown⟩ := Walk.records_step
      ((Walk.start (Bracket.Pairs.ofText text).stop).run (.ofText text) front) (.ofText text) hnamed
    · exact (Walk.meets_of_events_eq hevents).grows.records hrecords
    · exact absurd ⟨front, params, back, i, hevents, hown⟩ hkept

/-- A function under the name of a variable is not recorded. -/
theorem records_iff_assigned_before :
    let text := "a = 1\nfunc a() \x7b\x7d\n"
    (Program.parse text).diagnostics = []
      ∧ ⟨"a", ⟨2, 6⟩⟩ ∈ (ofText text).program.scopedNames
      ∧ ¬((∃ b ∈ (ofText text).bindings, b.decl = ⟨"a", ⟨2, 6⟩⟩)
        ∨ ∃ r ∈ (ofText text).references, r.ident = ⟨"a", ⟨2, 6⟩⟩) := by
  intro text
  have hid : ⟨"a", ⟨2, 6⟩⟩ ∈ (ofText text).program.scopedNames := by decide +kernel
  have hevents : (ofText text).program.events = [.assign ⟨"a", ⟨1, 1⟩⟩ .assign none]
      ++ .func ⟨"a", ⟨2, 6⟩⟩ [] :: [.enter ⟨2, 1⟩ ⟨2, 10⟩, .leave] := by
    decide +kernel
  refine ⟨by decide +kernel, hid, fun hrecorded => ?_⟩
  exact ((records_iff text).2 _ hid).1 hrecorded ⟨_, _, _, 0, hevents, by decide +kernel⟩

end Analysis

end Welle
