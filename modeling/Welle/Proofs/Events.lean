import Welle.Analysis.Event
import Welle.Proofs.Idents
import Welle.Tree.Imports

set_option autoImplicit false

/-! # The identifiers that a walk meets

The steps of a program name identifiers of the program, each one at most once. Members of values
that are no names, and what an import list names under another name, are not met. -/

namespace Welle

/-- The identifiers that a step names. -/
def Event.idents : Event → List Ident
  | .enter .. | .leave => []
  | .use id | .assign id _ _ | .param id | .bind id | .func id _ | .importModule id _
  | .importMember id _ _ => [id]
  | .member base name => [base, name]

/-- How often steps name an identifier. -/
def Event.count (a : Ident) (events : List Event) : Nat := (events.flatMap Event.idents).count a

namespace ImportedName

/-- The name of an import list that is bound under another name. -/
def replaced? (imported : ImportedName) : Option Ident :=
  imported.item.asName.map fun _ => imported.item.name

/-- The names of import lists that are bound under other names. -/
def replaced (imported : List ImportedName) : List Ident := imported.filterMap replaced?

/-- The step of a name of an import list. -/
def event (imported : ImportedName) : Event :=
  .importMember imported.item.bound imported.spec imported.item.name.name

@[simp] theorem replaced_nil : replaced [] = [] := rfl

theorem replaced_cons (imported : ImportedName) (xs : List ImportedName) :
    replaced (imported :: xs) = (replaced? imported).toList ++ replaced xs := by
  cases h : replaced? imported <;> simp [replaced, h]

@[simp] theorem replaced_append (xs ys : List ImportedName) :
    replaced (xs ++ ys) = replaced xs ++ replaced ys := List.filterMap_append

end ImportedName

namespace Event

variable (a : Ident)

@[simp] theorem count_nil : count a [] = 0 := rfl

@[simp] theorem count_append (xs ys : List Event) :
    count a (xs ++ ys) = count a xs + count a ys := by
  simp [count]

theorem count_cons (e : Event) (es : List Event) :
    count a (e :: es) = e.idents.count a + count a es := by
  simp [count]

@[simp] theorem count_inScope (start opening : Position) (inner : List Event) :
    count a (inScope start opening inner) = count a inner := by
  simp [inScope, count, idents]

theorem count_map (f : Ident → Event) (hf : ∀ id, (f id).idents = [id]) (ids : List Ident) :
    count a (ids.map f) = ids.count a := by
  induction ids with
  | nil => rfl
  | cons id ids ih => simp [count_cons, hf, ih, List.count_cons, Nat.add_comm]

@[simp] theorem count_function (start : Position) (params : List Ident) (opening : Position)
    (body : List Event) :
    count a (function start params opening body) = params.count a + count a body := by
  simp [function, count_map a .param fun _ => rfl]

theorem count_targets (op : AssignOp) (targets : List Target) :
    count a (targets.flatMap (ofTarget op)) = (targets.filterMap Target.ident?).count a := by
  induction targets with
  | nil => rfl
  | cons t targets ih =>
    rw [List.flatMap_cons, count_append, ih]
    cases t <;> simp [ofTarget, Target.ident?, count_cons, idents, List.filterMap_cons,
      List.count_cons, Nat.add_comm]

theorem count_items (path : ImportPath) (items : List ImportItem) :
    count a (items.map (ofItem path))
      + (ImportedName.replaced (items.map fun item => ⟨path.value, item⟩)).count a
      ≤ (items.flatMap ImportItem.idents).count a := by
  induction items with
  | nil => exact Nat.le_refl _
  | cons item items ih =>
    rw [List.map_cons, count_cons, List.flatMap_cons, List.count_append, List.map_cons]
    rcases item with ⟨name, _ | asName⟩ <;>
      simp only [ofItem, ImportItem.bound, idents, ImportItem.idents, Option.getD, Option.toList,
        ImportedName.replaced_cons, ImportedName.replaced?, Option.map, List.nil_append,
        List.cons_append, List.count_cons, List.count_nil] <;>
      omega

end Event

/-! ## Trees -/

theorem Expr.idents_of_ident? {e : Expr} {id : Ident} (h : e.ident? = some id) : e.idents = [id] := by
  obtain rfl := Expr.eq_of_ident? h
  rfl

mutual

theorem Expr.count_events (a : Ident) : ∀ e : Expr, Event.count a e.events ≤ e.idents.count a
  | .ident id => by simp [Expr.events, Expr.idents, Event.count, Event.idents]
  | .int .. | .float .. | .str .. | .bool .. | .nil .. => by simp [Expr.events]
  | .tuple _ items => by simpa [Expr.events, Expr.idents] using Expr.count_listEvents a items
  | .list _ items => by simpa [Expr.events, Expr.idents] using Expr.count_listEvents a items
  | .dict _ entries => by
    simpa [Expr.events, Expr.idents] using DictEntry.count_listEvents a entries
  | .template _ tag _ exprs => by
    simpa [Expr.events, Expr.idents] using
      Nat.add_le_add (Expr.count_optionEvents a tag) (Expr.count_listEvents a exprs)
  | .func _ params body => by
    simpa [Expr.events, Expr.idents] using Nat.le_trans (Nat.le_add_right _ _) (body.count_inner a)
  | .unary _ _ operand => by simpa [Expr.events, Expr.idents] using operand.count_events a
  | .binary _ _ left right => by
    simpa [Expr.events, Expr.idents] using
      Nat.add_le_add (left.count_events a) (right.count_events a)
  | .ternary _ cond thenE elseE => by
    simpa [Expr.events, Expr.idents, Nat.add_assoc] using Nat.add_le_add (cond.count_events a)
      (Nat.add_le_add (thenE.count_events a) (elseE.count_events a))
  | .conditional _ thenE cond elseE => by
    simpa [Expr.events, Expr.idents, Nat.add_assoc] using Nat.add_le_add (thenE.count_events a)
      (Nat.add_le_add (cond.count_events a) (elseE.count_events a))
  | .assign _ target _ value => by
    have htarget := target.count_events a
    have hvalue := value.count_events a
    rw [Expr.events, Expr.idents, Event.count_append, List.count_append]
    split
    next name hname =>
      simp only [Event.count_cons, Event.count_nil, Event.idents, Expr.idents_of_ident? hname]
      omega
    next => omega
  | .spread _ value => by simpa [Expr.events, Expr.idents] using value.count_events a
  | .call _ callee args => by
    simpa [Expr.events, Expr.idents] using
      Nat.add_le_add (callee.count_events a) (Expr.count_listEvents a args)
  | .index _ object index => by
    simpa [Expr.events, Expr.idents] using
      Nat.add_le_add (object.count_events a) (index.count_events a)
  | .slice _ object low high step => by
    simpa [Expr.events, Expr.idents, Nat.add_assoc] using Nat.add_le_add (object.count_events a)
      (Nat.add_le_add (Expr.count_optionEvents a low)
        (Nat.add_le_add (Expr.count_optionEvents a high) (Expr.count_optionEvents a step)))
  | .member _ object name => by
    have hobject := object.count_events a
    rw [Expr.events, Expr.idents, List.count_append]
    split
    next base hbase =>
      simp only [Event.count_cons, Event.count_nil, Event.idents, Expr.idents_of_ident? hbase,
        List.count_cons, List.count_nil]
      omega
    next => omega
  | .comprehension _ elem var seq filter => by
    have helem := elem.count_events a
    have hseq := seq.count_events a
    have hfilter := Expr.count_optionEvents a filter
    simp only [Expr.events, Expr.idents, Event.count_append, Event.count_inScope, Event.count_cons,
      Event.count_nil, Event.idents, List.count_append]
    omega
  | .select _ value arms fallback => by
    simpa [Expr.events, Expr.idents, Nat.add_assoc] using Nat.add_le_add (value.count_events a)
      (Nat.add_le_add (MatchArm.count_listEvents a arms) (Expr.count_optionEvents a fallback))

theorem Expr.count_listEvents (a : Ident) :
    ∀ es : List Expr, Event.count a (Expr.listEvents es) ≤ (Expr.listIdents es).count a
  | [] => by simp [Expr.listEvents]
  | e :: es => by
    simpa [Expr.listEvents, Expr.listIdents] using
      Nat.add_le_add (e.count_events a) (Expr.count_listEvents a es)

theorem Expr.count_optionEvents (a : Ident) :
    ∀ e : Option Expr, Event.count a (Expr.optionEvents e) ≤ (Expr.optionIdents e).count a
  | none => by simp [Expr.optionEvents]
  | some e => by simpa [Expr.optionEvents, Expr.optionIdents] using e.count_events a

theorem DictEntry.count_events (a : Ident) :
    ∀ e : DictEntry, Event.count a e.events ≤ e.idents.count a
  | .pair key value => by
    simpa [DictEntry.events, DictEntry.idents] using
      Nat.add_le_add (key.count_events a) (value.count_events a)
  | .shorthand id => by simp [DictEntry.events, DictEntry.idents, Event.count, Event.idents]

theorem DictEntry.count_listEvents (a : Ident) : ∀ es : List DictEntry,
    Event.count a (DictEntry.listEvents es) ≤ (DictEntry.listIdents es).count a
  | [] => by simp [DictEntry.listEvents]
  | e :: es => by
    simpa [DictEntry.listEvents, DictEntry.listIdents] using
      Nat.add_le_add (e.count_events a) (DictEntry.count_listEvents a es)

theorem MatchArm.count_events (a : Ident) :
    ∀ arm : MatchArm, Event.count a arm.events ≤ arm.idents.count a
  | .mk _ values result => by
    simpa [MatchArm.events, MatchArm.idents] using
      Nat.add_le_add (Expr.count_listEvents a values) (result.count_events a)

theorem MatchArm.count_listEvents (a : Ident) : ∀ arms : List MatchArm,
    Event.count a (MatchArm.listEvents arms) ≤ (MatchArm.listIdents arms).count a
  | [] => by simp [MatchArm.listEvents]
  | arm :: arms => by
    simpa [MatchArm.listEvents, MatchArm.listIdents] using
      Nat.add_le_add (arm.count_events a) (MatchArm.count_listEvents a arms)

theorem Block.count_inner (a : Ident) : ∀ b : Block,
    Event.count a b.inner + (ImportedName.replaced b.importedNames).count a ≤ b.idents.count a
  | .mk _ stmts => by
    simpa [Block.inner, Block.idents, Block.importedNames] using Stmt.count_listEvents a stmts

theorem Block.count_optionEvents (a : Ident) : ∀ b : Option Block,
    Event.count a (Block.optionEvents b)
      + (ImportedName.replaced (Block.optionImportedNames b)).count a
      ≤ (Block.optionIdents b).count a
  | none => by simp [Block.optionEvents, Block.optionImportedNames]
  | some body => by
    simpa [Block.optionEvents, Block.optionIdents, Block.optionImportedNames] using
      body.count_inner a

theorem SwitchCase.count_events (a : Ident) : ∀ c : SwitchCase,
    Event.count a c.events + (ImportedName.replaced c.importedNames).count a ≤ c.idents.count a
  | .mk _ values body => by
    simpa [SwitchCase.events, SwitchCase.idents, SwitchCase.importedNames, Nat.add_assoc] using
      Nat.add_le_add (Expr.count_listEvents a values) (body.count_inner a)

theorem SwitchCase.count_listEvents (a : Ident) : ∀ cs : List SwitchCase,
    Event.count a (SwitchCase.listEvents cs)
      + (ImportedName.replaced (SwitchCase.listImportedNames cs)).count a
      ≤ (SwitchCase.listIdents cs).count a
  | [] => by simp [SwitchCase.listEvents, SwitchCase.listImportedNames]
  | c :: cs => by
    have hcase := c.count_events a
    have hcases := SwitchCase.count_listEvents a cs
    simp only [SwitchCase.listEvents, SwitchCase.listIdents, SwitchCase.listImportedNames,
      Event.count_append, ImportedName.replaced_append, List.count_append]
    omega

theorem CatchClause.count_optionEvents (a : Ident) : ∀ handler : Option CatchClause,
    Event.count a (CatchClause.optionEvents handler)
      + (ImportedName.replaced (CatchClause.optionImportedNames handler)).count a
      ≤ (CatchClause.optionIdents handler).count a
  | none => by simp [CatchClause.optionEvents, CatchClause.optionImportedNames]
  | some (.mk _ name body) => by
    simpa [CatchClause.optionEvents, CatchClause.optionIdents, CatchClause.events,
      CatchClause.idents, CatchClause.optionImportedNames, CatchClause.importedNames,
      Event.count_map a .bind fun _ => rfl, Nat.add_assoc] using body.count_inner a

theorem Stmt.count_events (a : Ident) : ∀ s : Stmt,
    Event.count a s.events + (ImportedName.replaced s.importedNames).count a ≤ s.idents.count a
  | .expr _ value => by
    simpa [Stmt.events, Stmt.idents, Stmt.importedNames] using value.count_events a
  | .assign _ name _ value => by
    simpa [Stmt.events, Stmt.idents, Stmt.importedNames, Event.count_cons, Event.idents,
      List.count_cons, Nat.add_comm] using value.count_events a
  | .indexAssign _ object index _ value => by
    simpa [Stmt.events, Stmt.idents, Stmt.importedNames, Nat.add_assoc] using
      Nat.add_le_add (object.count_events a)
        (Nat.add_le_add (index.count_events a) (value.count_events a))
  | .memberAssign _ object name _ value => by
    have hobject := object.count_events a
    have hvalue := value.count_events a
    rw [Stmt.events, Stmt.idents, Stmt.importedNames, Event.count_append, List.count_append,
      List.count_append, ImportedName.replaced_nil, List.count_nil]
    split
    next base hbase =>
      simp only [Event.count_cons, Event.count_nil, Event.idents, Expr.idents_of_ident? hbase,
        List.count_cons, List.count_nil]
      omega
    next => omega
  | .destructure _ targets op value => by
    simpa [Stmt.events, Stmt.idents, Stmt.importedNames, Event.count_targets] using
      value.count_events a
  | .cond _ test thenS elseS => by
    have htest := test.count_events a
    have hthen := thenS.count_events a
    have helse := Stmt.count_optionEvents a elseS
    simp only [Stmt.events, Stmt.idents, Stmt.importedNames, Event.count_append,
      ImportedName.replaced_append, List.count_append]
    omega
  | .whileLoop _ test body => by
    simpa [Stmt.events, Stmt.idents, Stmt.importedNames, Nat.add_assoc] using
      Nat.add_le_add (test.count_events a) (body.count_inner a)
  | .forLoop _ init test post body => by
    have hinit := Stmt.count_optionEvents a init
    have htest := Expr.count_optionEvents a test
    have hpost := Stmt.count_optionEvents a post
    have hbody := body.count_inner a
    simp only [Stmt.events, Stmt.idents, Stmt.importedNames, Event.count_append,
      Event.count_inScope, List.count_append]
    omega
  | .forIn _ key value seq body => by
    have hseq := seq.count_events a
    have hbody := body.count_inner a
    simp only [Stmt.events, Stmt.idents, Stmt.importedNames, Event.count_append,
      Event.count_inScope, Event.count_cons, Event.count_map a .bind fun _ => rfl, Event.idents,
      List.count_append, List.count_cons, List.count_nil, List.cons_append]
    omega
  | .switch _ value cases fallback => by
    have hvalue := value.count_events a
    have hcases := SwitchCase.count_listEvents a cases
    have hfallback := Block.count_optionEvents a fallback
    simp only [Stmt.events, Stmt.idents, Stmt.importedNames, Event.count_append,
      ImportedName.replaced_append, List.count_append]
    omega
  | .tryCatch _ body handler finalizer => by
    have hbody := body.count_inner a
    have hhandler := CatchClause.count_optionEvents a handler
    have hfinalizer := Block.count_optionEvents a finalizer
    simp only [Stmt.events, Stmt.idents, Stmt.importedNames, Event.count_append,
      Event.count_inScope, ImportedName.replaced_append, List.count_append]
    omega
  | .func _ name params body => by
    have hbody := body.count_inner a
    simp only [Stmt.events, Stmt.idents, Stmt.importedNames, Event.count_cons,
      Event.count_function, Event.idents, List.count_append, List.count_cons, List.count_nil,
      List.cons_append]
    omega
  | .importAs _ path asName => by
    cases asName <;> simp [Stmt.events, Stmt.idents, Stmt.importedNames, Event.count, Event.idents]
  | .importFrom _ path items => by
    simpa [Stmt.events, Stmt.idents, Stmt.importedNames] using Event.count_items a path items
  | .exported _ stmt => by
    simpa [Stmt.events, Stmt.idents, Stmt.importedNames] using stmt.count_events a
  | .ret _ values => by
    simpa [Stmt.events, Stmt.idents, Stmt.importedNames] using Expr.count_listEvents a values
  | .brk _ | .cont _ | .pass _ => by simp [Stmt.events, Stmt.importedNames]
  | .raise _ value => by
    simpa [Stmt.events, Stmt.idents, Stmt.importedNames] using value.count_events a
  | .defer _ call => by
    simpa [Stmt.events, Stmt.idents, Stmt.importedNames] using call.count_events a
  | .block body => by
    simpa [Stmt.events, Stmt.idents, Stmt.importedNames] using body.count_inner a

theorem Stmt.count_listEvents (a : Ident) : ∀ ss : List Stmt,
    Event.count a (Stmt.listEvents ss)
      + (ImportedName.replaced (Stmt.listImportedNames ss)).count a
      ≤ (Stmt.listIdents ss).count a
  | [] => by simp [Stmt.listEvents, Stmt.listImportedNames]
  | s :: ss => by
    have hstmt := s.count_events a
    have hstmts := Stmt.count_listEvents a ss
    simp only [Stmt.listEvents, Stmt.listIdents, Stmt.listImportedNames, Event.count_append,
      ImportedName.replaced_append, List.count_append]
    omega

theorem Stmt.count_optionEvents (a : Ident) : ∀ s : Option Stmt,
    Event.count a (Stmt.optionEvents s)
      + (ImportedName.replaced (Stmt.optionImportedNames s)).count a
      ≤ (Stmt.optionIdents s).count a
  | none => by simp [Stmt.optionEvents, Stmt.optionImportedNames]
  | some s => by
    simpa [Stmt.optionEvents, Stmt.optionIdents, Stmt.optionImportedNames] using s.count_events a

end

end Welle
