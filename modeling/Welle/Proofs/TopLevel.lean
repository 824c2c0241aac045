import Welle.Proofs.Introductions
import Welle.Proofs.Recorded
import Welle.Proofs.Sight

set_option autoImplicit false

/-! # The top level of a file

A module index reads off the statements of a program what the file declares, and a walk carries out
their steps. The two meet in the scope of the file: steps leave every scope that they enter, also
where the text is broken, so each statement at the top level starts in the scope of the file, and
what it declares is bound there when the walk ends. A function takes over a binding of its name that
is there already and leaves nothing at its own place. -/

namespace Welle

/-! ## Steps that are nested -/

namespace Event

/-- Steps that leave the scopes that they enter. -/
inductive Nested : List Event → Prop where
  | nil : Nested []
  | plain {e : Event} {es : List Event} : e.isPlain = true → Nested es → Nested (e :: es)
  | scope {start opening : Position} {inner es : List Event} :
      Nested inner → Nested es → Nested (inScope start opening inner ++ es)

namespace Nested

variable {es fs : List Event}

theorem append (h : Nested es) (h' : Nested fs) : Nested (es ++ fs) := by
  induction h with
  | nil => exact h'
  | plain hplain _ ih => exact .plain hplain ih
  | scope hinner _ _ ih =>
    rw [List.append_assoc]
    exact .scope hinner ih

theorem inScope (start opening : Position) (h : Nested es) :
    Nested (Event.inScope start opening es) := by
  have hscope : Nested (Event.inScope start opening es ++ []) := .scope h .nil
  rwa [List.append_nil] at hscope

theorem of_forall (h : ∀ e ∈ es, e.isPlain = true) : Nested es := by
  induction es with
  | nil => exact .nil
  | cons e es ih =>
    rw [List.forall_mem_cons] at h
    exact .plain h.1 (ih h.2)

theorem map {α : Type} {f : α → Event} (hf : ∀ a, (f a).isPlain = true) (as : List α) :
    Nested (as.map f) := by
  refine of_forall fun e he => ?_
  obtain ⟨a, -, rfl⟩ := List.mem_map.1 he
  exact hf a

theorem function (start opening : Position) (params : List Ident) (h : Nested es) :
    Nested (Event.function start params opening es) :=
  .inScope start opening ((map (fun _ => rfl) params).append h)

theorem targets (op : AssignOp) (ts : List Target) : Nested (ts.flatMap (ofTarget op)) := by
  refine of_forall fun e he => ?_
  obtain ⟨t, -, ht⟩ := List.mem_flatMap.1 he
  obtain ⟨id, -, rfl⟩ := List.mem_map.1 ht
  rfl

end Nested

end Event

open Event (Nested)

/-! ### Trees

Every construct that enters a scope leaves it behind its contents, so there is nothing to know about
the text. -/

mutual

theorem Expr.nested : ∀ e : Expr, Nested e.events
  | .ident id => .plain rfl .nil
  | .int .. | .float .. | .str .. | .bool .. | .nil .. => .nil
  | .tuple _ items | .list _ items => by
    rw [Expr.events]
    exact Expr.nested_list items
  | .dict _ entries => by
    rw [Expr.events]
    exact DictEntry.nested_list entries
  | .template _ tag _ exprs => by
    rw [Expr.events]
    exact (Expr.nested_option tag).append (Expr.nested_list exprs)
  | .func pos params body => by
    rw [Expr.events]
    exact .function _ _ params body.nested
  | .unary _ _ operand => by
    rw [Expr.events]
    exact operand.nested
  | .binary _ _ left right => by
    rw [Expr.events]
    exact left.nested.append right.nested
  | .ternary _ cond thenE elseE => by
    rw [Expr.events]
    exact (cond.nested.append thenE.nested).append elseE.nested
  | .conditional _ thenE cond elseE => by
    rw [Expr.events]
    exact (thenE.nested.append cond.nested).append elseE.nested
  | .assign _ target op value => by
    rw [Expr.events]
    refine Nested.append ?_ value.nested
    split
    · exact .plain rfl .nil
    · exact target.nested
  | .spread _ value => by
    rw [Expr.events]
    exact value.nested
  | .call _ callee args => by
    rw [Expr.events]
    exact callee.nested.append (Expr.nested_list args)
  | .index _ object index => by
    rw [Expr.events]
    exact object.nested.append index.nested
  | .slice _ object low high step => by
    rw [Expr.events]
    exact ((object.nested.append (Expr.nested_option low)).append
      (Expr.nested_option high)).append (Expr.nested_option step)
  | .member _ object name => by
    rw [Expr.events]
    split
    · exact .plain rfl .nil
    · exact object.nested
  | .comprehension pos elem var seq filter => by
    rw [Expr.events]
    exact seq.nested.append
      (.inScope _ _ (.plain rfl ((Expr.nested_option filter).append elem.nested)))
  | .select _ value arms fallback => by
    rw [Expr.events]
    exact (value.nested.append (MatchArm.nested_list arms)).append (Expr.nested_option fallback)

theorem Expr.nested_list : ∀ es : List Expr, Nested (Expr.listEvents es)
  | [] => .nil
  | e :: es => by
    rw [Expr.listEvents]
    exact e.nested.append (Expr.nested_list es)

theorem Expr.nested_option : ∀ e : Option Expr, Nested (Expr.optionEvents e)
  | none => .nil
  | some e => by
    rw [Expr.optionEvents]
    exact e.nested

theorem DictEntry.nested : ∀ entry : DictEntry, Nested entry.events
  | .pair key value => by
    rw [DictEntry.events]
    exact key.nested.append value.nested
  | .shorthand id => .plain rfl .nil

theorem DictEntry.nested_list : ∀ entries : List DictEntry, Nested (DictEntry.listEvents entries)
  | [] => .nil
  | entry :: entries => by
    rw [DictEntry.listEvents]
    exact entry.nested.append (DictEntry.nested_list entries)

theorem MatchArm.nested_list : ∀ arms : List MatchArm, Nested (MatchArm.listEvents arms)
  | [] => .nil
  | .mk _ values result :: arms => by
    rw [MatchArm.listEvents, MatchArm.events]
    exact ((Expr.nested_list values).append result.nested).append (MatchArm.nested_list arms)

theorem Block.nested : ∀ b : Block, Nested b.inner
  | .mk _ stmts => by
    rw [Block.inner]
    exact Stmt.nested_list stmts

theorem Block.nested_option : ∀ b : Option Block, Nested (Block.optionEvents b)
  | none => .nil
  | some body => by
    rw [Block.optionEvents]
    exact .inScope _ _ body.nested

theorem SwitchCase.nested_list : ∀ cases : List SwitchCase, Nested (SwitchCase.listEvents cases)
  | [] => .nil
  | .mk _ values body :: cases => by
    rw [SwitchCase.listEvents, SwitchCase.events]
    exact ((Expr.nested_list values).append (.inScope _ _ body.nested)).append
      (SwitchCase.nested_list cases)

theorem CatchClause.nested_option :
    ∀ handler : Option CatchClause, Nested (CatchClause.optionEvents handler)
  | none => .nil
  | some (.mk _ name body) => by
    rw [CatchClause.optionEvents, CatchClause.events]
    exact .inScope _ _ ((Nested.map (fun _ => rfl) _).append body.nested)

theorem Stmt.nested : ∀ s : Stmt, Nested s.events
  | .expr _ value => by
    rw [Stmt.events]
    exact value.nested
  | .assign _ name op value => by
    rw [Stmt.events]
    exact .plain rfl value.nested
  | .indexAssign _ object index _ value => by
    rw [Stmt.events]
    exact (object.nested.append index.nested).append value.nested
  | .memberAssign _ object name _ value => by
    rw [Stmt.events]
    refine Nested.append ?_ value.nested
    split
    · exact .plain rfl .nil
    · exact object.nested
  | .destructure _ targets op value => by
    rw [Stmt.events]
    exact (Nested.targets op targets).append value.nested
  | .cond _ test thenS elseS => by
    rw [Stmt.events]
    exact (test.nested.append thenS.nested).append (Stmt.nested_option elseS)
  | .whileLoop _ test body => by
    rw [Stmt.events]
    exact test.nested.append (.inScope _ _ body.nested)
  | .forLoop _ init test post body => by
    rw [Stmt.events]
    exact .inScope _ _ ((((Stmt.nested_option init).append (Expr.nested_option test)).append
      (Stmt.nested_option post)).append body.nested)
  | .forIn _ key value seq body => by
    rw [Stmt.events]
    exact .inScope _ _ ((seq.nested.append (.plain rfl (.map (fun _ => rfl) _))).append body.nested)
  | .switch _ value cases fallback => by
    rw [Stmt.events]
    exact (value.nested.append (SwitchCase.nested_list cases)).append
      (Block.nested_option fallback)
  | .tryCatch _ body handler finalizer => by
    rw [Stmt.events]
    exact ((body.nested.inScope _ _).append (CatchClause.nested_option handler)).append
      (Block.nested_option finalizer)
  | .func _ name params body => by
    rw [Stmt.events]
    exact .plain rfl (.function _ _ params body.nested)
  | .importAs _ path asName => by
    rw [Stmt.events]
    exact .map (fun _ => rfl) _
  | .importFrom _ path items => by
    rw [Stmt.events]
    exact .map (fun _ => rfl) items
  | .exported _ stmt => by
    rw [Stmt.events]
    exact stmt.nested
  | .ret _ values => by
    rw [Stmt.events]
    exact Expr.nested_list values
  | .brk _ | .cont _ | .pass _ => .nil
  | .raise _ value => by
    rw [Stmt.events]
    exact value.nested
  | .defer _ call => by
    rw [Stmt.events]
    exact call.nested
  | .block body => by
    rw [Stmt.events]
    exact .inScope _ _ body.nested

theorem Stmt.nested_list : ∀ ss : List Stmt, Nested (Stmt.listEvents ss)
  | [] => .nil
  | s :: ss => by
    rw [Stmt.listEvents]
    exact s.nested.append (Stmt.nested_list ss)

theorem Stmt.nested_option : ∀ s : Option Stmt, Nested (Stmt.optionEvents s)
  | none => .nil
  | some s => by
    rw [Stmt.optionEvents]
    exact s.nested

end

/-! ## Walks in the scope of the file -/

namespace Walk

variable {w w' : Walk}

/-- Nested steps lead back to the scope that they start in. -/
theorem Returns.run {es : List Event} (h : Nested es) (hw : w.Valid) (pairs : Bracket.Pairs) :
    w.Returns (w.run pairs es) := by
  induction h generalizing w with
  | nil => exact .refl w
  | @plain e es hplain _ ih =>
    exact (stays_step hw pairs hplain).returns.trans (ih (hw.step pairs e))
  | @scope start opening inner es _ _ ihinner ih =>
    rw [run_append, run_inScope]
    have hinner := (ihinner (hw.enter (pairs.span start opening))).leave
    exact hinner.trans (ih ((hw.enter _).run pairs inner).leave)

theorem own?_modify (scopes : Scopes) {k i : Nat} {name : String} (j : Nat) {f : Scope → Scope}
    (hf : ∀ s, s.names <+: (f s).names) (h : scopes.own? k name = some i) :
    Scopes.own? (scopes.modify j f) k name = some i := by
  obtain ⟨s, hs, hlookup⟩ := Option.bind_eq_some_iff.1 h
  rw [Scopes.own?, Array.getElem?_modify, hs]
  split
  · obtain ⟨more, hmore⟩ := hf s
    show (f s).names.lookup name = some i
    rw [← hmore, List.lookup_append, hlookup, Option.some_or]
  · exact hlookup

/-- A scope keeps the names that it has. -/
theorem Change.own? {ids : List Ident} (h : Change ids w w') {k i : Nat} {name : String}
    (hk : w.scopes.own? k name = some i) : w'.scopes.own? k name = some i := by
  cases h with
  | enter span =>
    have hmodify := own?_modify w.scopes w.current (f := fun scope =>
      { scope with children := scope.children ++ [w.scopes.size] })
      (fun _ => List.prefix_rfl) hk
    obtain ⟨s, hs, hlookup⟩ := Option.bind_eq_some_iff.1 hmodify
    have hlt := (Array.getElem?_eq_some_iff.1 hs).1
    rw [Scopes.own?, Walk.enter, Array.getElem?_push_lt hlt, ← Array.getElem?_eq_getElem hlt, hs]
    exact hlookup
  | leave => exact hk
  | report diagnostics => exact hk
  | @declare id kind hid hnew =>
    rw [declare_of_none kind hnew]
    exact own?_modify w.scopes w.current (fun _ => List.prefix_append _ _) hk
  | update i hf => exact hk
  | refer hid hmeans => exact hk

theorem Changes.own? {ids : List Ident} (h : Changes ids w w') {k i : Nat} {name : String}
    (hk : w.scopes.own? k name = some i) : w'.scopes.own? k name = some i := by
  induction h with
  | refl => exact hk
  | tail _ hlast ih => exact hlast.own? ih

theorem own?_run (hw : w.Valid) (pairs : Bracket.Pairs) {k i : Nat} {name : String}
    (hk : w.scopes.own? k name = some i) (es : List Event) :
    (w.run pairs es).scopes.own? k name = some i := by
  induction es generalizing w with
  | nil => exact hk
  | cons e es ih => exact ih (hw.step pairs e) ((changes_step hw pairs e).own? hk)

/-- What was declared is bound in the current scope. -/
theorem own?_declare (hw : w.Valid) (id : Ident) (kind : BindingKind) :
    (w.declare id kind).1.own? id.name = some (w.declare id kind).2 := by
  cases hown : w.own? id.name with
  | some i =>
    rw [declare_of_some kind hown]
    exact hown
  | none =>
    rw [declare_of_none kind hown]
    have hs := Array.getElem?_eq_getElem hw.current
    rw [Walk.own?, Scopes.own?, hs] at hown
    show Scopes.own? _ w.current id.name = some w.bindings.size
    rw [Scopes.own?, Array.getElem?_modify, if_pos rfl, hs]
    show List.lookup id.name (_ ++ _) = _
    rw [List.lookup_append, show List.lookup id.name _ = none from hown, Option.none_or]
    simp

/-- In the scope of the file no other scope is in sight. -/
theorem lookup_of_root (hroot : w.current = rootScope) (name : String) :
    w.lookup name = w.own? name := by
  have hchain : w.scopes.chain w.current = [w.current] := by
    rw [hroot, Scopes.chain]
    cases w.scopes[rootScope]?.bind (·.parent) <;> simp [rootScope]
  rw [lookup, Scopes.lookup, hchain, List.findSome?_singleton]
  rfl

/-- An assignment in the scope of the file is recorded as a use of the binding that the file has for
    the name. -/
theorem assign_at_root (hw : w.Valid) (hroot : w.current = rootScope) (id : Ident) (op : AssignOp)
    (params : Option (List String)) : ∃ i, (w.assign id op params).own? id.name = some i
      ∧ ⟨id, .binding i⟩ ∈ (w.assign id op params).references := by
  have hdeclare (kind : BindingKind) (f : Binding → Binding) :
      ∃ i, (w.declareAndRefer id kind f).own? id.name = some i
        ∧ ⟨id, .binding i⟩ ∈ (w.declareAndRefer id kind f).references :=
    ⟨_, own?_declare hw id kind, mem_references_declareAndRefer w id kind f⟩
  unfold assign
  dsimp only
  -- Where no scope is around the current one, it does not matter which look-up an operator asks for.
  rw [lookup_of_root hroot, ite_self]
  split
  next i hown =>
    split
    · exact ⟨i, hown, Array.mem_push_self⟩
    · exact ⟨i, hown, Array.mem_push_self⟩
  next =>
    split
    · exact hdeclare .func _
    · exact hdeclare .var _

/-- A function takes the binding that the current scope has for its name. If there is one already,
    nothing is recorded at the name of the function. -/
theorem func_at (hw : w.Valid) (pairs : Bracket.Pairs) {id : Ident} (hunmet : w.Unmet id.pos)
    (params : List String) : ∃ i b, (w.step pairs (.func id params)).own? id.name = some i
      ∧ (w.step pairs (.func id params)).bindings[i]? = some b ∧ b.kind = .func
      ∧ (b.decl = id ∨ (w.step pairs (.func id params)).Unmet id.pos) := by
  rw [step_func]
  have hown' := own?_declare hw id .func
  cases hown : w.own? id.name with
  | some i =>
    -- The old binding keeps the place where it was declared.
    rw [declare_of_some .func hown] at hown' ⊢
    obtain ⟨b, hb, -⟩ := named_of_own? hw hown
    exact ⟨i, { b with kind := .func, params }, hown',
      by simp [update, Array.getElem?_modify, hb], rfl,
      .inr (hunmet.update i (Binding.keeps_func params))⟩
  | none =>
    rw [declare_of_none .func hown] at hown' ⊢
    refine ⟨w.bindings.size, ⟨id.name, .func, id, w.current, params, none, none⟩, hown', ?_, rfl,
      .inl rfl⟩
    simp only [update, Array.getElem?_modify, if_true, Array.getElem?_push_size, Option.map_some]

end Walk

/-! ## What statements declare -/

/-- The names that a statement declares for its file. -/
def Stmt.declared : Stmt → List Ident
  | .func _ name _ _ => [name]
  | .assign _ name _ _ => [name]
  | .destructure _ targets _ _ => targets.filterMap Target.ident?
  | .exported _ stmt => stmt.declared
  | _ => []

/-- The names that a program declares at its top level. -/
def Program.declared (program : Program) : List Ident := program.stmts.flatMap Stmt.declared

/-- What a statement introduces is declared by it, unless it is the alias of a module. -/
theorem Stmt.ident_mem_declared {exported : Bool} {s : Stmt} {i : Introduction}
    (hi : i ∈ s.introductions exported) (halias : i.isAlias = false) : i.ident ∈ s.declared := by
  fun_induction Stmt.introductions exported s with
  | case1 =>
    obtain rfl := List.mem_singleton.1 hi
    exact List.mem_cons_self
  | case2 =>
    obtain rfl := List.mem_singleton.1 hi
    exact List.mem_cons_self
  | case3 exported pos targets =>
    obtain ⟨id, hid, rfl⟩ := List.mem_map.1 hi
    exact hid
  | case4 exported pos stmt ih =>
    rw [declared]
    exact ih hi
  | case5 =>
    obtain rfl := List.mem_singleton.1 hi
    cases halias
  | case6 => cases hi

namespace ModuleIndex

/-- Definitions and exports stand under their own names, and all of them are among the given
    identifiers. -/
structure Lists (ids : List Ident) (index : ModuleIndex) : Prop where
  defs : ∀ entry ∈ index.defs, entry.2.name = entry.1 ∧ entry.2 ∈ ids
  exports : ∀ entry ∈ index.exports, entry.2.name = entry.1 ∧ entry.2 ∈ ids

/-- The index of a program lists what the program declares at its top level. -/
theorem lists_ofProgram (program : Program) : Lists program.declared (ofProgram program) := by
  have hcollects := collects_ofProgram program
  have hdeclared {i : Introduction} (hi : i ∈ program.introductions) (halias : i.isAlias = false) :
      i.ident ∈ program.declared := by
    obtain ⟨s, hs, his⟩ := List.mem_flatMap.1 hi
    exact List.mem_flatMap.2 ⟨s, hs, Stmt.ident_mem_declared his halias⟩
  constructor
  · intro entry hentry
    obtain ⟨i, hi, halias, rfl⟩ := hcollects.exists_of_mem_defs hentry
    exact ⟨rfl, hdeclared hi halias⟩
  · intro entry hentry
    obtain ⟨i, hi, halias, rfl⟩ := hcollects.exists_of_mem_exports hentry
    exact ⟨rfl, hdeclared hi halias⟩

end ModuleIndex

namespace Event

/-- The steps that declare a name of a file. -/
inductive Declares (id : Ident) : Event → Prop where
  | func (params : List String) : Declares id (.func id params)
  | assign (op : AssignOp) (params : Option (List String)) : Declares id (.assign id op params)

theorem Declares.idents {id : Ident} {e : Event} (h : e.Declares id) : e.idents = [id] := by
  cases h <;> rfl

end Event

/-- What a statement declares has a step, with nested steps in front of it. -/
theorem Stmt.exists_step {id : Ident} {s : Stmt} (h : id ∈ s.declared) :
    ∃ front, ∃ e : Event, ∃ back, s.events = front ++ e :: back ∧ Nested front ∧ e.Declares id := by
  fun_induction Stmt.declared s with
  | case1 pos name params body =>
    rw [List.mem_singleton] at h
    subst h
    exact ⟨[], _, _, by rw [Stmt.events, List.nil_append], .nil, .func _⟩
  | case2 pos name op value =>
    rw [List.mem_singleton] at h
    subst h
    exact ⟨[], _, _, by rw [Stmt.events, List.nil_append], .nil, .assign _ _⟩
  | case3 pos targets op value =>
    obtain ⟨target, htarget, hid⟩ := List.mem_filterMap.1 h
    obtain ⟨before, behind, rfl⟩ := List.append_of_mem htarget
    refine ⟨before.flatMap (Event.ofTarget op), .assign id op none,
      behind.flatMap (Event.ofTarget op) ++ value.events, ?_, .targets op before, .assign _ _⟩
    simp [Stmt.events, Event.ofTarget, hid]
  | case4 pos stmt ih =>
    rw [Stmt.events]
    exact ih h
  | case5 => cases h

theorem Program.exists_step {program : Program} {id : Ident} (h : id ∈ program.declared) :
    ∃ front, ∃ e : Event, ∃ back, program.events = front ++ e :: back ∧ Nested front ∧ e.Declares id := by
  unfold declared at h
  unfold events
  generalize program.stmts = stmts at h ⊢
  induction stmts with
  | nil => simp at h
  | cons s stmts ih =>
    rw [List.flatMap_cons, List.mem_append] at h
    rw [Stmt.listEvents]
    obtain h | h := h
    · obtain ⟨front, e, back, hevents, hnested, hdeclares⟩ := Stmt.exists_step h
      exact ⟨front, e, back ++ Stmt.listEvents stmts, by simp [hevents], hnested, hdeclares⟩
    · obtain ⟨front, e, back, hevents, hnested, hdeclares⟩ := ih h
      exact ⟨s.events ++ front, e, back, by simp [hevents], s.nested.append hnested, hdeclares⟩

theorem Program.declared_subset_idents (program : Program) : program.declared ⊆ program.idents := by
  intro id hid
  obtain ⟨front, e, back, hevents, -, hdeclares⟩ := exists_step hid
  refine program.eventIdents_subperm.subset (List.mem_flatMap.2 ⟨e, ?_, ?_⟩)
  · simp [hevents]
  · simp [hdeclares.idents]

/-! ## Bindings of the file -/

namespace Analysis

theorem binding_of_topLevel? {text name : String} {i : Nat}
    (h : (ofText text).topLevel? name = some i) : ∃ b, (ofText text).bindings[i]? = some b
      ∧ b.name = name ∧ b.scope = rootScope := by
  obtain ⟨s, hs, hlookup⟩ := Option.bind_eq_some_iff.1 h
  exact (Walk.valid_ofProgram (.ofText text) (Program.parse text).program).entry _ s hs (name, i)
    (Walk.mem_of_lookup hlookup)

/-- How the binding `i` is recorded at a name that the file declares. -/
inductive DeclaredAt (text : String) (id : Ident) (i : Nat) (b : Binding) : Prop where
  | function (params : List String) (hstep : .func id params ∈ (Program.parse text).program.events)
    (hkind : b.kind = .func) (hplace : b.decl = id
      ∨ (Walk.ofProgram (.ofText text) (Program.parse text).program).Unmet id.pos)
  | assigned (op : AssignOp) (params : Option (List String))
    (hstep : .assign id op params ∈ (Program.parse text).program.events)
    (huse : ⟨id, .binding i⟩ ∈ (ofText text).references)

/-- What a file declares is bound in its scope. -/
theorem exists_binding_of_declared {text : String} {id : Ident}
    (h : id ∈ (Program.parse text).program.declared) : ∃ i b,
      (ofText text).topLevel? id.name = some i ∧ (ofText text).bindings[i]? = some b
        ∧ b.name = id.name ∧ b.scope = rootScope ∧ DeclaredAt text id i b := by
  obtain ⟨front, e, back, hevents, hnested, hdeclares⟩ := Program.exists_step h
  have hmeets := Walk.meets_of_events_eq hevents
  have hstep : e ∈ (Program.parse text).program.events := by simp [hevents]
  have hroot := (Walk.Returns.run hnested (Walk.valid_start (Bracket.Pairs.ofText text).stop)
    (.ofText text)).current
  generalize (Walk.start (Bracket.Pairs.ofText text).stop).run (.ofText text) front = w
    at hmeets hroot
  -- What the step binds in the scope of the file is bound there in the end.
  have hbound {i : Nat} (hcurrent : (w.step (.ofText text) e).current = rootScope)
      (hown : (w.step (.ofText text) e).own? id.name = some i) :
      (ofText text).topLevel? id.name = some i := by
    rw [Walk.own?, hcurrent] at hown
    show (Walk.ofProgram (.ofText text) (Program.parse text).program).scopes.own? _ _ = _
    rw [hmeets.rest]
    exact Walk.own?_run (hmeets.valid.step _ e) _ hown back
  have hcurrent : (w.step (.ofText text) e).current = rootScope := by
    have hstays := Walk.stays_step hmeets.valid (.ofText text) (e := e) (by cases hdeclares <;> rfl)
    exact hstays.current.trans hroot
  cases hdeclares with
  | func params =>
    obtain ⟨i, b, hown, hb, hkind, hplace⟩ :=
      Walk.func_at hmeets.valid (.ofText text) (hmeets.unmet id (by simp [Event.idents])) params
    have htop := hbound hcurrent hown
    obtain ⟨b', hb', hname, hscope⟩ := binding_of_topLevel? htop
    obtain ⟨b'', hb'', hkeeps⟩ := hmeets.grows.keeps hb
    obtain rfl := Option.some.inj (hb'.symm.trans hb'')
    refine ⟨i, b', htop, hb', hname, hscope, .function params hstep ?_ ?_⟩
    · exact hkeeps.kind.elim (fun h => h.trans hkind) fun h => h
    · rw [hkeeps.decl]
      exact hplace.imp_right (hmeets.grows.unmet (hmeets.apart id (by simp [Event.idents])))
  | assign op params =>
    obtain ⟨i, hown, huse⟩ := Walk.assign_at_root hmeets.valid hroot id op params
    have htop := hbound hcurrent hown
    obtain ⟨b, hb, hname, hscope⟩ := binding_of_topLevel? htop
    exact ⟨i, b, htop, hb, hname, hscope, .assigned op params hstep (hmeets.mem_references huse)⟩

end Analysis

end Welle
