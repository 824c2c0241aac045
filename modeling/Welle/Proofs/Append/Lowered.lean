import Welle.Proofs.Grammar
import Welle.Proofs.Places
import Welle.Proofs.Segments

set_option autoImplicit false

/-! # Further down in a file

What stands so many lines further down: positions, tokens, reports and trees. Lexing looks at
characters only, so the tokens of a text that starts further down are those of the text, further
down, and so are the segments of a template. -/

namespace Welle

/-! ## Positions -/

/-- The position so many lines further down. -/
def Position.lowered (n : Nat) (p : Position) : Position := ⟨p.line + n, p.column⟩

namespace Position

variable (n : Nat) (p : Position)

@[simp] theorem lowered_zero : p.lowered 0 = p := rfl

@[simp] theorem shifted_lowered (bytes : Nat) :
    (p.lowered n).shifted bytes = (p.shifted bytes).lowered n := rfl

@[simp] theorem next_lowered (c : Char) : (p.lowered n).next c = (p.next c).lowered n := by
  unfold next
  split
  · simp [lowered, Nat.add_right_comm]
  · rfl

@[simp] theorem after_lowered (cs : List Char) :
    (p.lowered n).after cs = (p.after cs).lowered n := by
  induction cs generalizing p with
  | nil => rfl
  | cons c cs ih => simp [ih]

end Position

/-! ## Tokens and reports -/

/-- The token so many lines further down. -/
def Token.lowered (n : Nat) (t : Token) : Token := { t with pos := t.pos.lowered n }

/-- The error so many lines further down. -/
def SyntaxError.lowered (n : Nat) (e : SyntaxError) : SyntaxError :=
  { e with span := e.span.map fun span => ⟨span.first.lowered n, span.last.lowered n⟩ }

/-- The report so many lines further down. -/
def Diagnostic.lowered (n : Nat) (d : Diagnostic) : Diagnostic := { d with pos := d.pos.lowered n }

/-- The piece of a template so many lines further down. -/
def Template.Segment.lowered (n : Nat) : Template.Segment → Template.Segment
  | text value => text value
  | hole source origin opening => hole source (origin.lowered n) (opening.lowered n)

@[simp] theorem Token.kind_lowered (n : Nat) (t : Token) : (t.lowered n).kind = t.kind := rfl

@[simp] theorem Token.literal_lowered (n : Nat) (t : Token) :
    (t.lowered n).literal = t.literal := rfl

@[simp] theorem Token.pos_lowered (n : Nat) (t : Token) : (t.lowered n).pos = t.pos.lowered n := rfl

theorem Token.tokensFrom_lowered (n : Nat) (pos : Position) (cs : List Char) :
    tokensFrom (pos.lowered n) cs = (tokensFrom pos cs).map (Token.lowered n) := by
  refine tokensFrom_moved (R := fun p q => q = p.lowered n) ?_ (fun _ _ h => h) rfl cs
  rintro p q c rfl
  exact Position.next_lowered n p c

theorem Template.splitFrom_lowered (n : Nat) (pos : Position) (cs : List Char) :
    splitFrom (pos.lowered n) cs
      = ((splitFrom pos cs).1, (splitFrom pos cs).2.map (Segment.lowered n)) := by
  induction pos, cs using splitFrom.induct with
  | case1 => simp [splitFrom]
  | case2 => simp [splitFrom]
  | case3 pos e rest ih => simp [splitFrom, ih]
  | case4 pos c cs hc hopen source origin ih =>
    have hbehind : (((takeHole 1 (cs.drop 1)).rest.map
          (splitFrom (((origin.lowered n).after source).next '}'))).getD ([], []))
        = ((((takeHole 1 (cs.drop 1)).rest.map
            (splitFrom ((origin.after source).next '}'))).getD ([], [])).1,
          (((takeHole 1 (cs.drop 1)).rest.map
            (splitFrom ((origin.after source).next '}'))).getD ([], [])).2.map
              (Segment.lowered n)) := by
      cases hrest : (takeHole 1 (cs.drop 1)).rest with
      | none => rfl
      | some rest => simpa using ih rest hrest
    rw [splitFrom_hole _ hc hopen, splitFrom_hole _ hc hopen, Position.shifted_lowered, hbehind]
    rfl
  | case5 pos c cs hc hopen ih =>
    rw [splitFrom_char _ hc hopen, splitFrom_char _ hc hopen, Position.next_lowered, ih]

theorem Template.split_lowered (n : Nat) (body : String) (origin : Position) :
    split body (origin.lowered n) = (split body origin).map (Segment.lowered n) := by
  simp [split, splitFrom_lowered, Segment.lowered]

@[simp] theorem Template.texts_lowered (n : Nat) (segments : List Segment) :
    texts (segments.map (Segment.lowered n)) = texts segments := by
  induction segments with
  | nil => rfl
  | cons segment segments ih =>
    cases segment <;> simp_all [texts, Segment.lowered]

theorem Diagnostic.ofSyntaxError_lowered (n : Nat) {e : SyntaxError} (h : e.span.isSome = true) :
    ofSyntaxError (e.lowered n) = (ofSyntaxError e).lowered n := by
  obtain ⟨span, hspan⟩ := Option.isSome_iff_exists.1 h
  simp [ofSyntaxError, SyntaxError.lowered, SyntaxError.position?, hspan, error, Diagnostic.lowered]

@[simp] theorem SyntaxError.atToken_lowered (n : Nat) (message : String) (t : Token) :
    atToken message (t.lowered n) = (atToken message t).lowered n := rfl

/-! ## Trees -/

/-- The name so many lines further down. -/
def Ident.lowered (n : Nat) (id : Ident) : Ident := { id with pos := id.pos.lowered n }

/-- The target so many lines further down. -/
def Target.lowered (n : Nat) : Target → Target
  | name id => name (id.lowered n)
  | discard pos => discard (pos.lowered n)
  | starred id => starred (id.lowered n)

/-- The path of an import so many lines further down. -/
def ImportPath.lowered (n : Nat) (path : ImportPath) : ImportPath :=
  { path with pos := path.pos.lowered n }

/-- The name of an import list so many lines further down. -/
def ImportItem.lowered (n : Nat) (item : ImportItem) : ImportItem :=
  ⟨item.name.lowered n, item.asName.map (Ident.lowered n)⟩

mutual

/-- An expression so many lines further down. -/
def Expr.lowered (n : Nat) : Expr → Expr
  | .ident id => .ident (id.lowered n)
  | .int pos value => .int (pos.lowered n) value
  | .float pos value => .float (pos.lowered n) value
  | .str pos value => .str (pos.lowered n) value
  | .bool pos value => .bool (pos.lowered n) value
  | .nil pos => .nil (pos.lowered n)
  | .tuple pos items => .tuple (pos.lowered n) (Expr.listLowered n items)
  | .list pos items => .list (pos.lowered n) (Expr.listLowered n items)
  | .dict pos entries => .dict (pos.lowered n) (DictEntry.listLowered n entries)
  | .template pos tag parts exprs =>
    .template (pos.lowered n) (Expr.optionLowered n tag) parts (Expr.listLowered n exprs)
  | .func pos params body => .func (pos.lowered n) (params.map (Ident.lowered n)) (body.lowered n)
  | .unary pos op operand => .unary (pos.lowered n) op (operand.lowered n)
  | .binary pos op left right => .binary (pos.lowered n) op (left.lowered n) (right.lowered n)
  | .ternary pos cond thenE elseE =>
    .ternary (pos.lowered n) (cond.lowered n) (thenE.lowered n) (elseE.lowered n)
  | .conditional pos thenE cond elseE =>
    .conditional (pos.lowered n) (thenE.lowered n) (cond.lowered n) (elseE.lowered n)
  | .assign pos target op value => .assign (pos.lowered n) (target.lowered n) op (value.lowered n)
  | .spread pos value => .spread (pos.lowered n) (value.lowered n)
  | .call pos callee args => .call (pos.lowered n) (callee.lowered n) (Expr.listLowered n args)
  | .index pos object index => .index (pos.lowered n) (object.lowered n) (index.lowered n)
  | .slice pos object low high step =>
    .slice (pos.lowered n) (object.lowered n) (Expr.optionLowered n low) (Expr.optionLowered n high)
      (Expr.optionLowered n step)
  | .member pos object name => .member (pos.lowered n) (object.lowered n) (name.lowered n)
  | .comprehension pos elem var seq filter =>
    .comprehension (pos.lowered n) (elem.lowered n) (var.lowered n) (seq.lowered n)
      (Expr.optionLowered n filter)
  | .select pos value arms fallback =>
    .select (pos.lowered n) (value.lowered n) (MatchArm.listLowered n arms)
      (Expr.optionLowered n fallback)

/-- Expressions so many lines further down. -/
def Expr.listLowered (n : Nat) : List Expr → List Expr
  | [] => []
  | e :: es => e.lowered n :: Expr.listLowered n es

/-- An expression that may be missing, so many lines further down. -/
def Expr.optionLowered (n : Nat) : Option Expr → Option Expr
  | none => none
  | some e => some (e.lowered n)

/-- A dictionary entry so many lines further down. -/
def DictEntry.lowered (n : Nat) : DictEntry → DictEntry
  | .pair key value => .pair (key.lowered n) (value.lowered n)
  | .shorthand id => .shorthand (id.lowered n)

/-- Dictionary entries so many lines further down. -/
def DictEntry.listLowered (n : Nat) : List DictEntry → List DictEntry
  | [] => []
  | e :: es => e.lowered n :: DictEntry.listLowered n es

/-- A case of a `match` expression so many lines further down. -/
def MatchArm.lowered (n : Nat) : MatchArm → MatchArm
  | .mk pos values result => .mk (pos.lowered n) (Expr.listLowered n values) (result.lowered n)

/-- Cases of a `match` expression so many lines further down. -/
def MatchArm.listLowered (n : Nat) : List MatchArm → List MatchArm
  | [] => []
  | arm :: arms => arm.lowered n :: MatchArm.listLowered n arms

/-- A block so many lines further down. -/
def Block.lowered (n : Nat) : Block → Block
  | .mk pos stmts => .mk (pos.lowered n) (Stmt.listLowered n stmts)

/-- A block that may be missing, so many lines further down. -/
def Block.optionLowered (n : Nat) : Option Block → Option Block
  | none => none
  | some body => some (body.lowered n)

/-- A case of a `switch` statement so many lines further down. -/
def SwitchCase.lowered (n : Nat) : SwitchCase → SwitchCase
  | .mk pos values body => .mk (pos.lowered n) (Expr.listLowered n values) (body.lowered n)

/-- Cases of a `switch` statement so many lines further down. -/
def SwitchCase.listLowered (n : Nat) : List SwitchCase → List SwitchCase
  | [] => []
  | c :: cs => c.lowered n :: SwitchCase.listLowered n cs

/-- A handler so many lines further down. -/
def CatchClause.lowered (n : Nat) : CatchClause → CatchClause
  | .mk pos name body => .mk (pos.lowered n) (name.map (Ident.lowered n)) (body.lowered n)

/-- A handler that may be missing, so many lines further down. -/
def CatchClause.optionLowered (n : Nat) : Option CatchClause → Option CatchClause
  | none => none
  | some handler => some (handler.lowered n)

/-- A statement so many lines further down. -/
def Stmt.lowered (n : Nat) : Stmt → Stmt
  | .expr pos value => .expr (pos.lowered n) (value.lowered n)
  | .assign pos name op value => .assign (pos.lowered n) (name.lowered n) op (value.lowered n)
  | .indexAssign pos object index op value =>
    .indexAssign (pos.lowered n) (object.lowered n) (index.lowered n) op (value.lowered n)
  | .memberAssign pos object name op value =>
    .memberAssign (pos.lowered n) (object.lowered n) (name.lowered n) op (value.lowered n)
  | .destructure pos targets op value =>
    .destructure (pos.lowered n) (targets.map (Target.lowered n)) op (value.lowered n)
  | .cond pos test thenS elseS =>
    .cond (pos.lowered n) (test.lowered n) (thenS.lowered n) (Stmt.optionLowered n elseS)
  | .whileLoop pos test body => .whileLoop (pos.lowered n) (test.lowered n) (body.lowered n)
  | .forLoop pos init test post body =>
    .forLoop (pos.lowered n) (Stmt.optionLowered n init) (Expr.optionLowered n test)
      (Stmt.optionLowered n post) (body.lowered n)
  | .forIn pos key value seq body =>
    .forIn (pos.lowered n) (key.lowered n) (value.map (Ident.lowered n)) (seq.lowered n)
      (body.lowered n)
  | .switch pos value cases fallback =>
    .switch (pos.lowered n) (value.lowered n) (SwitchCase.listLowered n cases)
      (Block.optionLowered n fallback)
  | .tryCatch pos body handler finalizer =>
    .tryCatch (pos.lowered n) (body.lowered n) (CatchClause.optionLowered n handler)
      (Block.optionLowered n finalizer)
  | .func pos name params body =>
    .func (pos.lowered n) (name.lowered n) (params.map (Ident.lowered n)) (body.lowered n)
  | .importAs pos path asName =>
    .importAs (pos.lowered n) (path.lowered n) (asName.map (Ident.lowered n))
  | .importFrom pos path items =>
    .importFrom (pos.lowered n) (path.lowered n) (items.map (ImportItem.lowered n))
  | .exported pos stmt => .exported (pos.lowered n) (stmt.lowered n)
  | .ret pos values => .ret (pos.lowered n) (Expr.listLowered n values)
  | .brk pos => .brk (pos.lowered n)
  | .cont pos => .cont (pos.lowered n)
  | .pass pos => .pass (pos.lowered n)
  | .raise pos value => .raise (pos.lowered n) (value.lowered n)
  | .defer pos call => .defer (pos.lowered n) (call.lowered n)
  | .block body => .block (body.lowered n)

/-- Statements so many lines further down. -/
def Stmt.listLowered (n : Nat) : List Stmt → List Stmt
  | [] => []
  | s :: ss => s.lowered n :: Stmt.listLowered n ss

/-- A statement that may be missing, so many lines further down. -/
def Stmt.optionLowered (n : Nat) : Option Stmt → Option Stmt
  | none => none
  | some s => some (s.lowered n)

end

/-- A program so many lines further down. -/
def Program.lowered (n : Nat) (program : Program) : Program :=
  ⟨Stmt.listLowered n program.stmts⟩


/-! ## Lists -/

section Lists

variable (n : Nat)

@[simp] theorem Expr.listLowered_eq (es : List Expr) :
    Expr.listLowered n es = es.map (Expr.lowered n) := by
  induction es with
  | nil => rfl
  | cons e es ih => simp [Expr.listLowered, ih]

@[simp] theorem Expr.optionLowered_eq (e : Option Expr) :
    Expr.optionLowered n e = e.map (Expr.lowered n) := by
  cases e <;> rfl

@[simp] theorem DictEntry.listLowered_eq (entries : List DictEntry) :
    DictEntry.listLowered n entries = entries.map (DictEntry.lowered n) := by
  induction entries with
  | nil => rfl
  | cons e entries ih => simp [DictEntry.listLowered, ih]

@[simp] theorem MatchArm.listLowered_eq (arms : List MatchArm) :
    MatchArm.listLowered n arms = arms.map (MatchArm.lowered n) := by
  induction arms with
  | nil => rfl
  | cons arm arms ih => simp [MatchArm.listLowered, ih]

@[simp] theorem SwitchCase.listLowered_eq (cases : List SwitchCase) :
    SwitchCase.listLowered n cases = cases.map (SwitchCase.lowered n) := by
  induction cases with
  | nil => rfl
  | cons c cases ih => simp [SwitchCase.listLowered, ih]

@[simp] theorem Block.optionLowered_eq (body : Option Block) :
    Block.optionLowered n body = body.map (Block.lowered n) := by
  cases body <;> rfl

@[simp] theorem CatchClause.optionLowered_eq (handler : Option CatchClause) :
    CatchClause.optionLowered n handler = handler.map (CatchClause.lowered n) := by
  cases handler <;> rfl

@[simp] theorem Stmt.listLowered_eq (stmts : List Stmt) :
    Stmt.listLowered n stmts = stmts.map (Stmt.lowered n) := by
  induction stmts with
  | nil => rfl
  | cons s stmts ih => simp [Stmt.listLowered, ih]

@[simp] theorem Stmt.optionLowered_eq (s : Option Stmt) :
    Stmt.optionLowered n s = s.map (Stmt.lowered n) := by
  cases s <;> rfl

end Lists

/-! ## No lines further down -/

@[simp] theorem Ident.lowered_zero (id : Ident) : id.lowered 0 = id := rfl

theorem Ident.map_lowered_zero (ids : List Ident) : ids.map (Ident.lowered 0) = ids :=
  List.map_id ids

theorem Target.map_lowered_zero (targets : List Target) :
    targets.map (Target.lowered 0) = targets :=
  List.map_id'' (fun target => by cases target <;> rfl) targets

@[simp] theorem ImportPath.lowered_zero (path : ImportPath) : path.lowered 0 = path := rfl

theorem ImportItem.map_lowered_zero (items : List ImportItem) :
    items.map (ImportItem.lowered 0) = items :=
  List.map_id'' (fun item => by rcases item with ⟨name, _ | asName⟩ <;> rfl) items

mutual

theorem Expr.lowered_zero : ∀ e : Expr, e.lowered 0 = e
  | .ident _ | .int .. | .float .. | .str .. | .bool .. | .nil .. => rfl
  | .tuple _ items | .list _ items => by simp [Expr.lowered, Expr.map_lowered_zero items]
  | .dict _ entries => by simp [Expr.lowered, DictEntry.map_lowered_zero entries]
  | .template _ tag _ exprs => by
    simp [Expr.lowered, Expr.optionMap_lowered_zero tag, Expr.map_lowered_zero exprs]
  | .func _ params body => by simp [Expr.lowered, Ident.map_lowered_zero params, body.lowered_zero]
  | .unary _ _ operand => by simp [Expr.lowered, operand.lowered_zero]
  | .binary _ _ left right => by simp [Expr.lowered, left.lowered_zero, right.lowered_zero]
  | .ternary _ cond thenE elseE | .conditional _ thenE cond elseE => by
    simp [Expr.lowered, cond.lowered_zero, thenE.lowered_zero, elseE.lowered_zero]
  | .assign _ target _ value => by simp [Expr.lowered, target.lowered_zero, value.lowered_zero]
  | .spread _ value => by simp [Expr.lowered, value.lowered_zero]
  | .call _ callee args => by
    simp [Expr.lowered, callee.lowered_zero, Expr.map_lowered_zero args]
  | .index _ object index => by simp [Expr.lowered, object.lowered_zero, index.lowered_zero]
  | .slice _ object low high step => by
    simp [Expr.lowered, object.lowered_zero, Expr.optionMap_lowered_zero low,
      Expr.optionMap_lowered_zero high, Expr.optionMap_lowered_zero step]
  | .member _ object _ => by simp [Expr.lowered, object.lowered_zero]
  | .comprehension _ elem _ seq filter => by
    simp [Expr.lowered, elem.lowered_zero, seq.lowered_zero, Expr.optionMap_lowered_zero filter]
  | .select _ value arms fallback => by
    simp [Expr.lowered, value.lowered_zero, MatchArm.map_lowered_zero arms,
      Expr.optionMap_lowered_zero fallback]

theorem Expr.map_lowered_zero : ∀ es : List Expr, es.map (Expr.lowered 0) = es
  | [] => rfl
  | e :: es => by simp [e.lowered_zero, Expr.map_lowered_zero es]

theorem Expr.optionMap_lowered_zero : ∀ e : Option Expr, e.map (Expr.lowered 0) = e
  | none => rfl
  | some e => by simp [e.lowered_zero]

theorem DictEntry.lowered_zero : ∀ e : DictEntry, e.lowered 0 = e
  | .pair key value => by simp [DictEntry.lowered, key.lowered_zero, value.lowered_zero]
  | .shorthand _ => rfl

theorem DictEntry.map_lowered_zero : ∀ es : List DictEntry, es.map (DictEntry.lowered 0) = es
  | [] => rfl
  | e :: es => by simp [e.lowered_zero, DictEntry.map_lowered_zero es]

theorem MatchArm.lowered_zero : ∀ arm : MatchArm, arm.lowered 0 = arm
  | .mk _ values result => by
    simp [MatchArm.lowered, Expr.map_lowered_zero values, result.lowered_zero]

theorem MatchArm.map_lowered_zero : ∀ arms : List MatchArm, arms.map (MatchArm.lowered 0) = arms
  | [] => rfl
  | arm :: arms => by simp [arm.lowered_zero, MatchArm.map_lowered_zero arms]

theorem Block.lowered_zero : ∀ body : Block, body.lowered 0 = body
  | .mk _ stmts => by simp [Block.lowered, Stmt.map_lowered_zero stmts]

theorem Block.optionMap_lowered_zero : ∀ body : Option Block, body.map (Block.lowered 0) = body
  | none => rfl
  | some body => by simp [body.lowered_zero]

theorem SwitchCase.lowered_zero : ∀ c : SwitchCase, c.lowered 0 = c
  | .mk _ values body => by
    simp [SwitchCase.lowered, Expr.map_lowered_zero values, body.lowered_zero]

theorem SwitchCase.map_lowered_zero : ∀ cs : List SwitchCase, cs.map (SwitchCase.lowered 0) = cs
  | [] => rfl
  | c :: cs => by simp [c.lowered_zero, SwitchCase.map_lowered_zero cs]

theorem CatchClause.optionMap_lowered_zero :
    ∀ handler : Option CatchClause, handler.map (CatchClause.lowered 0) = handler
  | none => rfl
  | some (.mk _ none body) => by simp [CatchClause.lowered, body.lowered_zero]
  | some (.mk _ (some _) body) => by simp [CatchClause.lowered, body.lowered_zero]

theorem Stmt.lowered_zero : ∀ s : Stmt, s.lowered 0 = s
  | .expr _ value | .assign _ _ _ value | .raise _ value | .defer _ value => by
    simp [Stmt.lowered, value.lowered_zero]
  | .indexAssign _ object index _ value => by
    simp [Stmt.lowered, object.lowered_zero, index.lowered_zero, value.lowered_zero]
  | .memberAssign _ object _ _ value => by
    simp [Stmt.lowered, object.lowered_zero, value.lowered_zero]
  | .destructure _ targets _ value => by
    simp [Stmt.lowered, value.lowered_zero, Target.map_lowered_zero targets]
  | .cond _ test thenS elseS => by
    simp [Stmt.lowered, test.lowered_zero, thenS.lowered_zero, Stmt.optionMap_lowered_zero elseS]
  | .whileLoop _ test body => by simp [Stmt.lowered, test.lowered_zero, body.lowered_zero]
  | .forLoop _ init test post body => by
    simp [Stmt.lowered, Stmt.optionMap_lowered_zero init, Expr.optionMap_lowered_zero test,
      Stmt.optionMap_lowered_zero post, body.lowered_zero]
  | .forIn _ _ value seq body => by
    cases value <;> simp [Stmt.lowered, seq.lowered_zero, body.lowered_zero]
  | .switch _ value cases fallback => by
    simp [Stmt.lowered, value.lowered_zero, SwitchCase.map_lowered_zero cases,
      Block.optionMap_lowered_zero fallback]
  | .tryCatch _ body handler finalizer => by
    simp [Stmt.lowered, body.lowered_zero, CatchClause.optionMap_lowered_zero handler,
      Block.optionMap_lowered_zero finalizer]
  | .func _ _ params body => by
    simp [Stmt.lowered, Ident.map_lowered_zero params, body.lowered_zero]
  | .importAs _ _ asName => by cases asName <;> rfl
  | .importFrom _ _ items => by
    simp [Stmt.lowered, ImportItem.map_lowered_zero items]
  | .exported _ stmt => by simp [Stmt.lowered, stmt.lowered_zero]
  | .ret _ values => by simp [Stmt.lowered, Expr.map_lowered_zero values]
  | .brk _ | .cont _ | .pass _ => rfl
  | .block body => by simp [Stmt.lowered, body.lowered_zero]

theorem Stmt.map_lowered_zero : ∀ ss : List Stmt, ss.map (Stmt.lowered 0) = ss
  | [] => rfl
  | s :: ss => by simp [s.lowered_zero, Stmt.map_lowered_zero ss]

theorem Stmt.optionMap_lowered_zero : ∀ s : Option Stmt, s.map (Stmt.lowered 0) = s
  | none => rfl
  | some s => by simp [s.lowered_zero]

end

end Welle
