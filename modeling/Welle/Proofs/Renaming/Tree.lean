import Welle.Analysis.Event

set_option autoImplicit false

/-! # Renaming in trees

`mapIdents f` puts `f id` in the place of every identifier `id` of a tree. The steps of the new tree
are those of the old one with other names. What a step copies from a name as text, the parameters of
a function and the member that is imported, is not compared. -/

namespace Welle

/-- A target with other identifiers. -/
def Target.mapIdents (f : Ident → Ident) : Target → Target
  | name id => name (f id)
  | discard pos => discard pos
  | starred id => starred (f id)

/-- An import item with other identifiers. -/
def ImportItem.mapIdents (f : Ident → Ident) (item : ImportItem) : ImportItem :=
  ⟨f item.name, item.asName.map f⟩

mutual

/-- An expression with other identifiers. -/
def Expr.mapIdents (f : Ident → Ident) : Expr → Expr
  | .ident id => .ident (f id)
  | .int pos value => .int pos value
  | .float pos value => .float pos value
  | .str pos value => .str pos value
  | .bool pos value => .bool pos value
  | .nil pos => .nil pos
  | .tuple pos items => .tuple pos (Expr.mapListIdents f items)
  | .list pos items => .list pos (Expr.mapListIdents f items)
  | .dict pos entries => .dict pos (DictEntry.mapListIdents f entries)
  | .template pos tag parts exprs =>
    .template pos (Expr.mapOptionIdents f tag) parts (Expr.mapListIdents f exprs)
  | .func pos params body => .func pos (params.map f) (body.mapIdents f)
  | .unary pos op operand => .unary pos op (operand.mapIdents f)
  | .binary pos op left right => .binary pos op (left.mapIdents f) (right.mapIdents f)
  | .ternary pos cond thenE elseE =>
    .ternary pos (cond.mapIdents f) (thenE.mapIdents f) (elseE.mapIdents f)
  | .conditional pos thenE cond elseE =>
    .conditional pos (thenE.mapIdents f) (cond.mapIdents f) (elseE.mapIdents f)
  | .assign pos target op value => .assign pos (target.mapIdents f) op (value.mapIdents f)
  | .spread pos value => .spread pos (value.mapIdents f)
  | .call pos callee args => .call pos (callee.mapIdents f) (Expr.mapListIdents f args)
  | .index pos object index => .index pos (object.mapIdents f) (index.mapIdents f)
  | .slice pos object low high step =>
    .slice pos (object.mapIdents f) (Expr.mapOptionIdents f low) (Expr.mapOptionIdents f high)
      (Expr.mapOptionIdents f step)
  | .member pos object name => .member pos (object.mapIdents f) (f name)
  | .comprehension pos elem var seq filter =>
    .comprehension pos (elem.mapIdents f) (f var) (seq.mapIdents f) (Expr.mapOptionIdents f filter)
  | .select pos value arms fallback =>
    .select pos (value.mapIdents f) (MatchArm.mapListIdents f arms)
      (Expr.mapOptionIdents f fallback)

/-- Expressions with other identifiers. -/
def Expr.mapListIdents (f : Ident → Ident) : List Expr → List Expr
  | [] => []
  | e :: es => e.mapIdents f :: Expr.mapListIdents f es

/-- An expression that may be missing, with other identifiers. -/
def Expr.mapOptionIdents (f : Ident → Ident) : Option Expr → Option Expr
  | none => none
  | some e => some (e.mapIdents f)

/-- A dictionary entry with other identifiers. -/
def DictEntry.mapIdents (f : Ident → Ident) : DictEntry → DictEntry
  | .pair key value => .pair (key.mapIdents f) (value.mapIdents f)
  | .shorthand id => .shorthand (f id)

/-- Dictionary entries with other identifiers. -/
def DictEntry.mapListIdents (f : Ident → Ident) : List DictEntry → List DictEntry
  | [] => []
  | e :: es => e.mapIdents f :: DictEntry.mapListIdents f es

/-- A case of a `match` expression with other identifiers. -/
def MatchArm.mapIdents (f : Ident → Ident) : MatchArm → MatchArm
  | .mk pos values result => .mk pos (Expr.mapListIdents f values) (result.mapIdents f)

/-- Cases of a `match` expression with other identifiers. -/
def MatchArm.mapListIdents (f : Ident → Ident) : List MatchArm → List MatchArm
  | [] => []
  | arm :: arms => arm.mapIdents f :: MatchArm.mapListIdents f arms

/-- A block with other identifiers. -/
def Block.mapIdents (f : Ident → Ident) : Block → Block
  | .mk pos stmts => .mk pos (Stmt.mapListIdents f stmts)

/-- A block that may be missing, with other identifiers. -/
def Block.mapOptionIdents (f : Ident → Ident) : Option Block → Option Block
  | none => none
  | some body => some (body.mapIdents f)

/-- A case of a `switch` statement with other identifiers. -/
def SwitchCase.mapIdents (f : Ident → Ident) : SwitchCase → SwitchCase
  | .mk pos values body => .mk pos (Expr.mapListIdents f values) (body.mapIdents f)

/-- Cases of a `switch` statement with other identifiers. -/
def SwitchCase.mapListIdents (f : Ident → Ident) : List SwitchCase → List SwitchCase
  | [] => []
  | c :: cs => c.mapIdents f :: SwitchCase.mapListIdents f cs

/-- A handler with other identifiers. -/
def CatchClause.mapIdents (f : Ident → Ident) : CatchClause → CatchClause
  | .mk pos name body => .mk pos (name.map f) (body.mapIdents f)

/-- A handler that may be missing, with other identifiers. -/
def CatchClause.mapOptionIdents (f : Ident → Ident) : Option CatchClause → Option CatchClause
  | none => none
  | some handler => some (handler.mapIdents f)

/-- A statement with other identifiers. -/
def Stmt.mapIdents (f : Ident → Ident) : Stmt → Stmt
  | .expr pos value => .expr pos (value.mapIdents f)
  | .assign pos name op value => .assign pos (f name) op (value.mapIdents f)
  | .indexAssign pos object index op value =>
    .indexAssign pos (object.mapIdents f) (index.mapIdents f) op (value.mapIdents f)
  | .memberAssign pos object name op value =>
    .memberAssign pos (object.mapIdents f) (f name) op (value.mapIdents f)
  | .destructure pos targets op value =>
    .destructure pos (targets.map (Target.mapIdents f)) op (value.mapIdents f)
  | .cond pos test thenS elseS =>
    .cond pos (test.mapIdents f) (thenS.mapIdents f) (Stmt.mapOptionIdents f elseS)
  | .whileLoop pos test body => .whileLoop pos (test.mapIdents f) (body.mapIdents f)
  | .forLoop pos init test post body =>
    .forLoop pos (Stmt.mapOptionIdents f init) (Expr.mapOptionIdents f test)
      (Stmt.mapOptionIdents f post) (body.mapIdents f)
  | .forIn pos key value seq body =>
    .forIn pos (f key) (value.map f) (seq.mapIdents f) (body.mapIdents f)
  | .switch pos value cases fallback =>
    .switch pos (value.mapIdents f) (SwitchCase.mapListIdents f cases)
      (Block.mapOptionIdents f fallback)
  | .tryCatch pos body handler finalizer =>
    .tryCatch pos (body.mapIdents f) (CatchClause.mapOptionIdents f handler)
      (Block.mapOptionIdents f finalizer)
  | .func pos name params body => .func pos (f name) (params.map f) (body.mapIdents f)
  | .importAs pos path asName => .importAs pos path (asName.map f)
  | .importFrom pos path items => .importFrom pos path (items.map (ImportItem.mapIdents f))
  | .exported pos stmt => .exported pos (stmt.mapIdents f)
  | .ret pos values => .ret pos (Expr.mapListIdents f values)
  | .brk pos => .brk pos
  | .cont pos => .cont pos
  | .pass pos => .pass pos
  | .raise pos value => .raise pos (value.mapIdents f)
  | .defer pos call => .defer pos (call.mapIdents f)
  | .block body => .block (body.mapIdents f)

/-- Statements with other identifiers. -/
def Stmt.mapListIdents (f : Ident → Ident) : List Stmt → List Stmt
  | [] => []
  | s :: ss => s.mapIdents f :: Stmt.mapListIdents f ss

/-- A statement that may be missing, with other identifiers. -/
def Stmt.mapOptionIdents (f : Ident → Ident) : Option Stmt → Option Stmt
  | none => none
  | some s => some (s.mapIdents f)

end

/-- A program with other identifiers. -/
def Program.mapIdents (f : Ident → Ident) (program : Program) : Program :=
  ⟨Stmt.mapListIdents f program.stmts⟩

/-! ## Steps -/

namespace Event

/-- A step with other identifiers. -/
def mapIdents (f : Ident → Ident) : Event → Event
  | .enter start opening => .enter start opening
  | .leave => .leave
  | .use id => .use (f id)
  | .assign name op params => .assign (f name) op params
  | .param id => .param (f id)
  | .bind id => .bind (f id)
  | .func name params => .func (f name) params
  | .importModule name path => .importModule (f name) path
  | .importMember name path text => .importMember (f name) path text
  | .member base name => .member (f base) (f name)

/-- A step without the texts that it copies from names. -/
def bare : Event → Event
  | .assign name op params => .assign name op (params.map fun _ => [])
  | .func name _ => .func name []
  | .importMember name path _ => .importMember name path ""
  | e => e

/-- The step with other identifiers, without copied texts. -/
def renamed (f : Ident → Ident) (e : Event) : Event := (e.mapIdents f).bare

end Event

/-! ## Steps of the new tree -/

section Renaming

variable (f : Ident → Ident)

@[simp] theorem Block.pos_mapIdents (b : Block) : (b.mapIdents f).pos = b.pos := by
  cases b
  rw [Block.mapIdents, Block.pos, Block.pos]

@[simp] theorem Expr.ident?_mapIdents (e : Expr) : (e.mapIdents f).ident? = e.ident?.map f := by
  cases e <;> simp [Expr.mapIdents, Expr.ident?]

theorem Expr.funcParams?_mapIdents (e : Expr) :
    ((e.mapIdents f).funcParams?.map fun _ => ([] : List String))
      = e.funcParams?.map fun _ => [] := by
  cases e <;> simp [Expr.mapIdents, Expr.funcParams?]

theorem Event.bare_inScope (start opening : Position) {inner inner' : List Event}
    (h : inner'.map Event.bare = inner.map (Event.renamed f)) :
    (Event.inScope start opening inner').map Event.bare
      = (Event.inScope start opening inner).map (Event.renamed f) := by
  simp [Event.inScope, h, Event.bare, Event.renamed, Event.mapIdents]

theorem Event.bare_function (start opening : Position) (params : List Ident)
    {body body' : List Event} (h : body'.map Event.bare = body.map (Event.renamed f)) :
    (Event.function start (params.map f) opening body').map Event.bare
      = (Event.function start params opening body).map (Event.renamed f) := by
  refine Event.bare_inScope f start opening ?_
  simp [h, Event.bare, Event.renamed, Event.mapIdents, Function.comp_def]

theorem Event.bare_targets (op : AssignOp) (targets : List Target) :
    ((targets.map (Target.mapIdents f)).flatMap (Event.ofTarget op)).map Event.bare
      = (targets.flatMap (Event.ofTarget op)).map (Event.renamed f) := by
  induction targets with
  | nil => rfl
  | cons t targets ih =>
    cases t <;> simpa [Event.ofTarget, Target.mapIdents, Target.ident?, Event.bare, Event.renamed,
      Event.mapIdents] using ih

theorem Event.bare_items (path : ImportPath) (items : List ImportItem) :
    ((items.map (ImportItem.mapIdents f)).map (Event.ofItem path)).map Event.bare
      = (items.map (Event.ofItem path)).map (Event.renamed f) := by
  induction items with
  | nil => rfl
  | cons item items ih =>
    rcases item with ⟨name, _ | asName⟩ <;>
      simp [Event.ofItem, ImportItem.mapIdents, ImportItem.bound, Event.bare, Event.renamed,
        Event.mapIdents]

mutual

theorem Expr.events_mapIdents :
    ∀ e : Expr, (e.mapIdents f).events.map Event.bare = e.events.map (Event.renamed f)
  | .ident id => by
    simp [Expr.mapIdents, Expr.events, Event.bare, Event.renamed, Event.mapIdents]
  | .int .. | .float .. | .str .. | .bool .. | .nil .. => by simp [Expr.mapIdents, Expr.events]
  | .tuple _ items => by
    simpa [Expr.mapIdents, Expr.events] using Expr.listEvents_mapIdents items
  | .list _ items => by
    simpa [Expr.mapIdents, Expr.events] using Expr.listEvents_mapIdents items
  | .dict _ entries => by
    simpa [Expr.mapIdents, Expr.events] using DictEntry.listEvents_mapIdents entries
  | .template _ tag _ exprs => by
    simp [Expr.mapIdents, Expr.events, Expr.optionEvents_mapIdents tag,
      Expr.listEvents_mapIdents exprs]
  | .func pos params body => by
    simpa [Expr.mapIdents, Expr.events] using
      Event.bare_function f pos body.pos params body.inner_mapIdents
  | .unary _ _ operand => by
    simpa [Expr.mapIdents, Expr.events] using operand.events_mapIdents
  | .binary _ _ left right => by
    simp [Expr.mapIdents, Expr.events, left.events_mapIdents, right.events_mapIdents]
  | .ternary _ cond thenE elseE => by
    simp [Expr.mapIdents, Expr.events, cond.events_mapIdents, thenE.events_mapIdents,
      elseE.events_mapIdents]
  | .conditional _ thenE cond elseE => by
    simp [Expr.mapIdents, Expr.events, cond.events_mapIdents, thenE.events_mapIdents,
      elseE.events_mapIdents]
  | .assign _ target _ value => by
    have htarget := target.events_mapIdents
    cases h : target.ident? <;>
      simp [Expr.mapIdents, Expr.events, h, htarget, value.events_mapIdents, Event.bare,
        Event.renamed, Event.mapIdents, Expr.funcParams?_mapIdents]
  | .spread _ value => by simpa [Expr.mapIdents, Expr.events] using value.events_mapIdents
  | .call _ callee args => by
    simp [Expr.mapIdents, Expr.events, callee.events_mapIdents, Expr.listEvents_mapIdents args]
  | .index _ object index => by
    simp [Expr.mapIdents, Expr.events, object.events_mapIdents, index.events_mapIdents]
  | .slice _ object low high step => by
    simp [Expr.mapIdents, Expr.events, object.events_mapIdents, Expr.optionEvents_mapIdents low,
      Expr.optionEvents_mapIdents high, Expr.optionEvents_mapIdents step]
  | .member _ object name => by
    have hobject := object.events_mapIdents
    cases h : object.ident? <;>
      simp [Expr.mapIdents, Expr.events, h, hobject, Event.bare, Event.renamed, Event.mapIdents]
  | .comprehension pos elem var seq filter => by
    have hinner : ([Event.bind (f var)] ++ Expr.optionEvents (Expr.mapOptionIdents f filter)
        ++ (elem.mapIdents f).events).map Event.bare
        = ([Event.bind var] ++ Expr.optionEvents filter ++ elem.events).map
          (Event.renamed f) := by
      simp [elem.events_mapIdents, Expr.optionEvents_mapIdents filter, Event.bare, Event.renamed,
        Event.mapIdents]
    simp only [Expr.mapIdents, Expr.events, List.map_append, seq.events_mapIdents,
      Event.bare_inScope f pos pos hinner]
  | .select _ value arms fallback => by
    simp [Expr.mapIdents, Expr.events, value.events_mapIdents, MatchArm.listEvents_mapIdents arms,
      Expr.optionEvents_mapIdents fallback]

theorem Expr.listEvents_mapIdents : ∀ es : List Expr,
    (Expr.listEvents (Expr.mapListIdents f es)).map Event.bare
      = (Expr.listEvents es).map (Event.renamed f)
  | [] => by simp [Expr.mapListIdents, Expr.listEvents]
  | e :: es => by
    simp [Expr.mapListIdents, Expr.listEvents, e.events_mapIdents, Expr.listEvents_mapIdents es]

theorem Expr.optionEvents_mapIdents : ∀ e : Option Expr,
    (Expr.optionEvents (Expr.mapOptionIdents f e)).map Event.bare
      = (Expr.optionEvents e).map (Event.renamed f)
  | none => by simp [Expr.mapOptionIdents, Expr.optionEvents]
  | some e => by simpa [Expr.mapOptionIdents, Expr.optionEvents] using e.events_mapIdents

theorem DictEntry.events_mapIdents :
    ∀ e : DictEntry, (e.mapIdents f).events.map Event.bare = e.events.map (Event.renamed f)
  | .pair key value => by
    simp [DictEntry.mapIdents, DictEntry.events, key.events_mapIdents, value.events_mapIdents]
  | .shorthand id => by
    simp [DictEntry.mapIdents, DictEntry.events, Event.bare, Event.renamed, Event.mapIdents]

theorem DictEntry.listEvents_mapIdents : ∀ es : List DictEntry,
    (DictEntry.listEvents (DictEntry.mapListIdents f es)).map Event.bare
      = (DictEntry.listEvents es).map (Event.renamed f)
  | [] => by simp [DictEntry.mapListIdents, DictEntry.listEvents]
  | e :: es => by
    simp [DictEntry.mapListIdents, DictEntry.listEvents, e.events_mapIdents,
      DictEntry.listEvents_mapIdents es]

theorem MatchArm.events_mapIdents :
    ∀ arm : MatchArm, (arm.mapIdents f).events.map Event.bare = arm.events.map (Event.renamed f)
  | .mk _ values result => by
    simp [MatchArm.mapIdents, MatchArm.events, Expr.listEvents_mapIdents values,
      result.events_mapIdents]

theorem MatchArm.listEvents_mapIdents : ∀ arms : List MatchArm,
    (MatchArm.listEvents (MatchArm.mapListIdents f arms)).map Event.bare
      = (MatchArm.listEvents arms).map (Event.renamed f)
  | [] => by simp [MatchArm.mapListIdents, MatchArm.listEvents]
  | arm :: arms => by
    simp [MatchArm.mapListIdents, MatchArm.listEvents, arm.events_mapIdents,
      MatchArm.listEvents_mapIdents arms]

theorem Block.inner_mapIdents :
    ∀ b : Block, (b.mapIdents f).inner.map Event.bare = b.inner.map (Event.renamed f)
  | .mk _ stmts => by
    simpa [Block.mapIdents, Block.inner] using Stmt.listEvents_mapIdents stmts

theorem Block.optionEvents_mapIdents : ∀ b : Option Block,
    (Block.optionEvents (Block.mapOptionIdents f b)).map Event.bare
      = (Block.optionEvents b).map (Event.renamed f)
  | none => by simp [Block.mapOptionIdents, Block.optionEvents]
  | some body => by
    simpa [Block.mapOptionIdents, Block.optionEvents] using
      Event.bare_inScope f body.pos body.pos body.inner_mapIdents

theorem SwitchCase.events_mapIdents :
    ∀ c : SwitchCase, (c.mapIdents f).events.map Event.bare = c.events.map (Event.renamed f)
  | .mk _ values body => by
    simp [SwitchCase.mapIdents, SwitchCase.events, Expr.listEvents_mapIdents values,
      Event.bare_inScope f body.pos body.pos body.inner_mapIdents]

theorem SwitchCase.listEvents_mapIdents : ∀ cs : List SwitchCase,
    (SwitchCase.listEvents (SwitchCase.mapListIdents f cs)).map Event.bare
      = (SwitchCase.listEvents cs).map (Event.renamed f)
  | [] => by simp [SwitchCase.mapListIdents, SwitchCase.listEvents]
  | c :: cs => by
    simp [SwitchCase.mapListIdents, SwitchCase.listEvents, c.events_mapIdents,
      SwitchCase.listEvents_mapIdents cs]

theorem CatchClause.optionEvents_mapIdents : ∀ handler : Option CatchClause,
    (CatchClause.optionEvents (CatchClause.mapOptionIdents f handler)).map Event.bare
      = (CatchClause.optionEvents handler).map (Event.renamed f)
  | none => by simp [CatchClause.mapOptionIdents, CatchClause.optionEvents]
  | some (.mk pos name body) => by
    have hinner : ((name.map f).toList.map Event.bind ++ (body.mapIdents f).inner).map Event.bare
        = (name.toList.map Event.bind ++ body.inner).map (Event.renamed f) := by
      cases name <;>
        simp [body.inner_mapIdents, Event.bare, Event.renamed, Event.mapIdents]
    simpa [CatchClause.mapOptionIdents, CatchClause.mapIdents, CatchClause.optionEvents,
      CatchClause.events] using Event.bare_inScope f pos body.pos hinner

theorem Stmt.events_mapIdents :
    ∀ s : Stmt, (s.mapIdents f).events.map Event.bare = s.events.map (Event.renamed f)
  | .expr _ value => by simpa [Stmt.mapIdents, Stmt.events] using value.events_mapIdents
  | .assign _ name _ value => by
    simp [Stmt.mapIdents, Stmt.events, value.events_mapIdents, Event.bare, Event.renamed,
      Event.mapIdents, Expr.funcParams?_mapIdents]
  | .indexAssign _ object index _ value => by
    simp [Stmt.mapIdents, Stmt.events, object.events_mapIdents, index.events_mapIdents,
      value.events_mapIdents]
  | .memberAssign _ object name _ value => by
    have hobject := object.events_mapIdents
    cases h : object.ident? <;>
      simp [Stmt.mapIdents, Stmt.events, h, hobject, value.events_mapIdents, Event.bare,
        Event.renamed, Event.mapIdents]
  | .destructure _ targets op value => by
    have htargets := Event.bare_targets f op targets
    simp only [Stmt.mapIdents, Stmt.events, List.map_append, htargets, value.events_mapIdents]
  | .cond _ test thenS elseS => by
    simp [Stmt.mapIdents, Stmt.events, test.events_mapIdents, thenS.events_mapIdents,
      Stmt.optionEvents_mapIdents elseS]
  | .whileLoop _ test body => by
    simp [Stmt.mapIdents, Stmt.events, test.events_mapIdents,
      Event.bare_inScope f body.pos body.pos body.inner_mapIdents]
  | .forLoop pos init test post body => by
    have hinner : ((Stmt.optionEvents (Stmt.mapOptionIdents f init)
        ++ Expr.optionEvents (Expr.mapOptionIdents f test)
        ++ Stmt.optionEvents (Stmt.mapOptionIdents f post)
        ++ (body.mapIdents f).inner).map Event.bare)
        = (Stmt.optionEvents init ++ Expr.optionEvents test ++ Stmt.optionEvents post
          ++ body.inner).map (Event.renamed f) := by
      simp [Stmt.optionEvents_mapIdents init, Expr.optionEvents_mapIdents test,
        Stmt.optionEvents_mapIdents post, body.inner_mapIdents]
    simpa [Stmt.mapIdents, Stmt.events] using Event.bare_inScope f pos body.pos hinner
  | .forIn pos key value seq body => by
    have hinner : ((seq.mapIdents f).events
        ++ Event.bind (f key) :: (value.map f).toList.map Event.bind
        ++ (body.mapIdents f).inner).map Event.bare
        = (seq.events ++ Event.bind key :: value.toList.map Event.bind
          ++ body.inner).map (Event.renamed f) := by
      cases value <;>
        simp [seq.events_mapIdents, body.inner_mapIdents, Event.bare, Event.renamed,
          Event.mapIdents]
    simpa [Stmt.mapIdents, Stmt.events] using Event.bare_inScope f pos body.pos hinner
  | .switch _ value cases fallback => by
    simp [Stmt.mapIdents, Stmt.events, value.events_mapIdents,
      SwitchCase.listEvents_mapIdents cases, Block.optionEvents_mapIdents fallback]
  | .tryCatch _ body handler finalizer => by
    simp [Stmt.mapIdents, Stmt.events,
      Event.bare_inScope f body.pos body.pos body.inner_mapIdents,
      CatchClause.optionEvents_mapIdents handler, Block.optionEvents_mapIdents finalizer]
  | .func pos name params body => by
    have hbody := Event.bare_function f pos body.pos params body.inner_mapIdents
    simp [Stmt.mapIdents, Stmt.events, hbody, Event.bare, Event.renamed, Event.mapIdents]
  | .importAs _ path asName => by
    cases asName <;>
      simp [Stmt.mapIdents, Stmt.events, Event.bare, Event.renamed, Event.mapIdents]
  | .importFrom _ path items => by
    have hitems := Event.bare_items f path items
    simp only [Stmt.mapIdents, Stmt.events, hitems]
  | .exported _ stmt => by simpa [Stmt.mapIdents, Stmt.events] using stmt.events_mapIdents
  | .ret _ values => by
    simpa [Stmt.mapIdents, Stmt.events] using Expr.listEvents_mapIdents values
  | .brk _ | .cont _ | .pass _ => by simp [Stmt.mapIdents, Stmt.events]
  | .raise _ value => by simpa [Stmt.mapIdents, Stmt.events] using value.events_mapIdents
  | .defer _ call => by simpa [Stmt.mapIdents, Stmt.events] using call.events_mapIdents
  | .block body => by
    simpa [Stmt.mapIdents, Stmt.events] using
      Event.bare_inScope f body.pos body.pos body.inner_mapIdents

theorem Stmt.listEvents_mapIdents : ∀ ss : List Stmt,
    (Stmt.listEvents (Stmt.mapListIdents f ss)).map Event.bare
      = (Stmt.listEvents ss).map (Event.renamed f)
  | [] => by simp [Stmt.mapListIdents, Stmt.listEvents]
  | s :: ss => by
    simp [Stmt.mapListIdents, Stmt.listEvents, s.events_mapIdents, Stmt.listEvents_mapIdents ss]

theorem Stmt.optionEvents_mapIdents : ∀ s : Option Stmt,
    (Stmt.optionEvents (Stmt.mapOptionIdents f s)).map Event.bare
      = (Stmt.optionEvents s).map (Event.renamed f)
  | none => by simp [Stmt.mapOptionIdents, Stmt.optionEvents]
  | some s => by simpa [Stmt.mapOptionIdents, Stmt.optionEvents] using s.events_mapIdents

end

/-- The steps of a program with other identifiers. -/
theorem Program.events_mapIdents (program : Program) :
    (program.mapIdents f).events.map Event.bare = program.events.map (Event.renamed f) :=
  Stmt.listEvents_mapIdents f program.stmts

end Renaming

end Welle
