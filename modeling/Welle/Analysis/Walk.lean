import Welle.Analysis.Event
import Welle.Analysis.Scope
import Welle.Bracket
import Welle.Builtin
import Welle.Diagnostic

set_option autoImplicit false

/-! # Walking a program

`Walk.step` carries out one `Event` on the scopes, bindings and references found so far, and
`Walk.run` carries out a list of them. Assignment declares a name that no scope in sight has; a
declaration with `:=` looks at the current scope alone. -/

namespace Welle

/-- The state of a walk: what was found, and the scope that the walk is in. -/
structure Walk where
  scopes : Scopes
  bindings : Array Binding
  references : Array Reference
  diagnostics : List Diagnostic
  current : Nat

namespace Walk

/-- The start of a walk, in a scope that covers the whole text. -/
def start (stop : Position) : Walk where
  scopes := #[⟨none, [], ⟨.start, stop⟩, []⟩]
  bindings := #[]
  references := #[]
  diagnostics := []
  current := rootScope

/-! ## Parts of a step -/

/-- Opens a scope inside the current one and goes into it. -/
def enter (w : Walk) (span : Span) : Walk :=
  let id := w.scopes.size
  let scopes := w.scopes.modify w.current fun scope =>
    { scope with children := scope.children ++ [id] }
  { w with scopes := scopes.push ⟨some w.current, [], span, []⟩, current := id }

/-- Goes back to the scope around the current one. -/
def leave (w : Walk) : Walk :=
  { w with current := (w.scopes[w.current]?.bind (·.parent)).getD rootScope }

/-- The binding of a name in the current scope itself. -/
def own? (w : Walk) (name : String) : Option Nat := w.scopes.own? w.current name

/-- The binding of a name that the current scope sees. -/
def lookup (w : Walk) (name : String) : Option Nat := w.scopes.lookup w.current name

/-- The binding of a name in the current scope, which is declared if there is none. -/
def declare (w : Walk) (id : Ident) (kind : BindingKind) : Walk × Nat :=
  match w.own? id.name with
  | some existing => (w, existing)
  | none =>
    let binding := w.bindings.size
    let scopes := w.scopes.modify w.current fun scope =>
      { scope with names := scope.names ++ [(id.name, binding)] }
    let bindings := w.bindings.push ⟨id.name, kind, id, w.current, [], none, none⟩
    ({ w with scopes, bindings }, binding)

/-- Changes what is known about a binding. -/
def update (w : Walk) (binding : Nat) (f : Binding → Binding) : Walk :=
  { w with bindings := w.bindings.modify binding f }

/-- Records a use of a name. -/
def refer (w : Walk) (id : Ident) (resolution : Resolution) : Walk :=
  { w with references := w.references.push ⟨id, resolution⟩ }

/-- Leaves what is known about a binding as it is. -/
def same (binding : Binding) : Binding := binding

/-- Declares a name and records the declaration as a use. -/
def declareAndRefer (w : Walk) (id : Ident) (kind : BindingKind) (f : Binding → Binding) : Walk :=
  let (w, binding) := w.declare id kind
  (w.update binding f).refer id (.binding binding)

/-- Records a use of a name and what it stands for. -/
def use (w : Walk) (id : Ident) : Walk :=
  match w.lookup id.name with
  | some binding => w.refer id (.binding binding)
  | none => w.refer id (if Builtin.isFunction id.name then .builtin else .unresolved)

/-- The report of a second declaration in one scope. -/
def redeclaration (id : Ident) : Diagnostic :=
  .error .redeclaration s!"cannot redeclare {Text.quoted id.name} in this scope" id.pos id.width

/-- Assigns to a name. A name that is new becomes a function if a function literal is assigned to
    it, and a variable otherwise. -/
def assign (w : Walk) (id : Ident) (op : AssignOp) (params : Option (List String)) : Walk :=
  let declares := op = .walrus
  match if declares then w.own? id.name else w.lookup id.name with
  | some binding =>
    let w := w.refer id (.binding binding)
    if declares then { w with diagnostics := w.diagnostics ++ [redeclaration id] } else w
  | none =>
    match params with
    | some params => w.declareAndRefer id .func fun b => { b with params }
    | none => w.declareAndRefer id .var same

/-- Uses a member of a name. On an alias of a module the member is one of the module. -/
def useMember (w : Walk) (base name : Ident) : Walk :=
  match w.lookup base.name with
  | none => w.use base
  | some binding =>
    match w.bindings[binding]? with
    | some ⟨_, .moduleAlias, _, _, _, path, _⟩ =>
      (w.refer base (.binding binding)).refer name
        (.moduleMember base.name (path.getD "") name.name)
    | _ => w.use base

/-! ## Steps -/

/-- Carries out one event. -/
def step (pairs : Bracket.Pairs) (w : Walk) : Event → Walk
  | .enter start opening => w.enter (pairs.span start opening)
  | .leave => w.leave
  | .use id => w.use id
  | .assign name op params => w.assign name op params
  | .param id => w.declareAndRefer id .param same
  | .bind id => if id.isDiscard then w else w.declareAndRefer id .var same
  | .func name params =>
    let (w, binding) := w.declare name .func
    w.update binding fun b => { b with kind := .func, params }
  | .importModule name path =>
    w.declareAndRefer name .moduleAlias fun b => { b with modulePath := some path }
  | .importMember name path member =>
    w.declareAndRefer name .imported fun b =>
      { b with modulePath := some path, member := some member }
  | .member base name => w.useMember base name

/-- Carries out a list of events. -/
def run (pairs : Bracket.Pairs) (w : Walk) (events : List Event) : Walk :=
  events.foldl (step pairs) w

/-- Walks a program whose brackets pair as given. -/
def ofProgram (pairs : Bracket.Pairs) (program : Program) : Walk :=
  (start pairs.stop).run pairs program.events

end Walk

end Welle
