import Welle.Proofs.Append.Lowered
import Welle.Tree.Printer

set_option autoImplicit false

/-! # Trees without their positions

Two trees are equal up to positions if they are equal once all positions are forgotten. Such trees are
printed alike, and a tree that is read further down in a file is the same one up to positions.
`subexprs` lists what an expression is made of, the bodies of functions apart. -/

namespace Welle

/-- The name alone. -/
def Ident.unplaced (id : Ident) : Ident := ⟨id.name, .start⟩

/-- The target alone. -/
def Target.unplaced : Target → Target
  | name id => name id.unplaced
  | discard _ => discard .start
  | starred id => starred id.unplaced

/-- The path of an import alone. -/
def ImportPath.unplaced (path : ImportPath) : ImportPath := ⟨path.value, .start⟩

/-- The name of an import list alone. -/
def ImportItem.unplaced (item : ImportItem) : ImportItem :=
  ⟨item.name.unplaced, item.asName.map Ident.unplaced⟩

mutual

/-- An expression without its positions. -/
def Expr.unplaced : Expr → Expr
  | .ident id => .ident id.unplaced
  | .int _ value => .int .start value
  | .float _ value => .float .start value
  | .str _ value => .str .start value
  | .bool _ value => .bool .start value
  | .nil _ => .nil .start
  | .tuple _ items => .tuple .start (Expr.listUnplaced items)
  | .list _ items => .list .start (Expr.listUnplaced items)
  | .dict _ entries => .dict .start (DictEntry.listUnplaced entries)
  | .template _ tag parts exprs =>
    .template .start (Expr.optionUnplaced tag) parts (Expr.listUnplaced exprs)
  | .func _ params body => .func .start (params.map Ident.unplaced) body.unplaced
  | .unary _ op operand => .unary .start op operand.unplaced
  | .binary _ op left right => .binary .start op left.unplaced right.unplaced
  | .ternary _ cond thenE elseE => .ternary .start cond.unplaced thenE.unplaced elseE.unplaced
  | .conditional _ thenE cond elseE =>
    .conditional .start thenE.unplaced cond.unplaced elseE.unplaced
  | .assign _ target op value => .assign .start target.unplaced op value.unplaced
  | .spread _ value => .spread .start value.unplaced
  | .call _ callee args => .call .start callee.unplaced (Expr.listUnplaced args)
  | .index _ object index => .index .start object.unplaced index.unplaced
  | .slice _ object low high step =>
    .slice .start object.unplaced (Expr.optionUnplaced low) (Expr.optionUnplaced high)
      (Expr.optionUnplaced step)
  | .member _ object name => .member .start object.unplaced name.unplaced
  | .comprehension _ elem var seq filter =>
    .comprehension .start elem.unplaced var.unplaced seq.unplaced (Expr.optionUnplaced filter)
  | .select _ value arms fallback =>
    .select .start value.unplaced (MatchArm.listUnplaced arms) (Expr.optionUnplaced fallback)

/-- Expressions without their positions. -/
def Expr.listUnplaced : List Expr → List Expr
  | [] => []
  | e :: es => e.unplaced :: Expr.listUnplaced es

/-- An expression that may be missing, without its positions. -/
def Expr.optionUnplaced : Option Expr → Option Expr
  | none => none
  | some e => some e.unplaced

/-- A dictionary entry without its positions. -/
def DictEntry.unplaced : DictEntry → DictEntry
  | .pair key value => .pair key.unplaced value.unplaced
  | .shorthand id => .shorthand id.unplaced

/-- Dictionary entries without their positions. -/
def DictEntry.listUnplaced : List DictEntry → List DictEntry
  | [] => []
  | e :: es => e.unplaced :: DictEntry.listUnplaced es

/-- A case of a `match` expression without its positions. -/
def MatchArm.unplaced : MatchArm → MatchArm
  | .mk _ values result => .mk .start (Expr.listUnplaced values) result.unplaced

/-- The cases of a `match` expression without their positions. -/
def MatchArm.listUnplaced : List MatchArm → List MatchArm
  | [] => []
  | arm :: arms => arm.unplaced :: MatchArm.listUnplaced arms

/-- A block without its positions. -/
def Block.unplaced : Block → Block
  | .mk _ stmts => .mk .start (Stmt.listUnplaced stmts)

/-- A block that may be missing, without its positions. -/
def Block.optionUnplaced : Option Block → Option Block
  | none => none
  | some body => some body.unplaced

/-- A case of a `switch` statement without its positions. -/
def SwitchCase.unplaced : SwitchCase → SwitchCase
  | .mk _ values body => .mk .start (Expr.listUnplaced values) body.unplaced

/-- The cases of a `switch` statement without their positions. -/
def SwitchCase.listUnplaced : List SwitchCase → List SwitchCase
  | [] => []
  | c :: cs => c.unplaced :: SwitchCase.listUnplaced cs

/-- A handler without its positions. -/
def CatchClause.unplaced : CatchClause → CatchClause
  | .mk _ name body => .mk .start (name.map Ident.unplaced) body.unplaced

/-- A handler that may be missing, without its positions. -/
def CatchClause.optionUnplaced : Option CatchClause → Option CatchClause
  | none => none
  | some handler => some handler.unplaced

/-- A statement without its positions. -/
def Stmt.unplaced : Stmt → Stmt
  | .expr _ value => .expr .start value.unplaced
  | .assign _ name op value => .assign .start name.unplaced op value.unplaced
  | .indexAssign _ object index op value =>
    .indexAssign .start object.unplaced index.unplaced op value.unplaced
  | .memberAssign _ object name op value =>
    .memberAssign .start object.unplaced name.unplaced op value.unplaced
  | .destructure _ targets op value =>
    .destructure .start (targets.map Target.unplaced) op value.unplaced
  | .cond _ test thenS elseS =>
    .cond .start test.unplaced thenS.unplaced (Stmt.optionUnplaced elseS)
  | .whileLoop _ test body => .whileLoop .start test.unplaced body.unplaced
  | .forLoop _ init test post body =>
    .forLoop .start (Stmt.optionUnplaced init) (Expr.optionUnplaced test)
      (Stmt.optionUnplaced post) body.unplaced
  | .forIn _ key value seq body =>
    .forIn .start key.unplaced (value.map Ident.unplaced) seq.unplaced body.unplaced
  | .switch _ value cases fallback =>
    .switch .start value.unplaced (SwitchCase.listUnplaced cases) (Block.optionUnplaced fallback)
  | .tryCatch _ body handler finalizer =>
    .tryCatch .start body.unplaced (CatchClause.optionUnplaced handler)
      (Block.optionUnplaced finalizer)
  | .func _ name params body =>
    .func .start name.unplaced (params.map Ident.unplaced) body.unplaced
  | .importAs _ path asName => .importAs .start path.unplaced (asName.map Ident.unplaced)
  | .importFrom _ path items => .importFrom .start path.unplaced (items.map ImportItem.unplaced)
  | .exported _ stmt => .exported .start stmt.unplaced
  | .ret _ values => .ret .start (Expr.listUnplaced values)
  | .brk _ => .brk .start
  | .cont _ => .cont .start
  | .pass _ => .pass .start
  | .raise _ value => .raise .start value.unplaced
  | .defer _ call => .defer .start call.unplaced
  | .block body => .block body.unplaced

/-- Statements without their positions. -/
def Stmt.listUnplaced : List Stmt → List Stmt
  | [] => []
  | s :: ss => s.unplaced :: Stmt.listUnplaced ss

/-- A statement that may be missing, without its positions. -/
def Stmt.optionUnplaced : Option Stmt → Option Stmt
  | none => none
  | some s => some s.unplaced

end

@[simp] theorem Expr.unplaced_ident (id : Ident) :
    (Expr.ident id).unplaced = .ident id.unplaced := by
  rw [Expr.unplaced]

@[simp] theorem Expr.listUnplaced_eq (es : List Expr) :
    Expr.listUnplaced es = es.map Expr.unplaced := by
  induction es with
  | nil => rfl
  | cons e es ih => rw [Expr.listUnplaced, ih, List.map_cons]

@[simp] theorem Expr.optionUnplaced_eq (e : Option Expr) :
    Expr.optionUnplaced e = e.map Expr.unplaced := by
  cases e <;> rfl

@[simp] theorem DictEntry.listUnplaced_eq (entries : List DictEntry) :
    DictEntry.listUnplaced entries = entries.map DictEntry.unplaced := by
  induction entries with
  | nil => rfl
  | cons e entries ih => rw [DictEntry.listUnplaced, ih, List.map_cons]

@[simp] theorem MatchArm.listUnplaced_eq (arms : List MatchArm) :
    MatchArm.listUnplaced arms = arms.map MatchArm.unplaced := by
  induction arms with
  | nil => rfl
  | cons arm arms ih => rw [MatchArm.listUnplaced, ih, List.map_cons]

@[simp] theorem Block.optionUnplaced_eq (body : Option Block) :
    Block.optionUnplaced body = body.map Block.unplaced := by
  cases body <;> rfl

@[simp] theorem SwitchCase.listUnplaced_eq (cases : List SwitchCase) :
    SwitchCase.listUnplaced cases = cases.map SwitchCase.unplaced := by
  induction cases with
  | nil => rfl
  | cons c cases ih => rw [SwitchCase.listUnplaced, ih, List.map_cons]

@[simp] theorem CatchClause.optionUnplaced_eq (handler : Option CatchClause) :
    CatchClause.optionUnplaced handler = handler.map CatchClause.unplaced := by
  cases handler <;> rfl

@[simp] theorem Stmt.listUnplaced_eq (ss : List Stmt) :
    Stmt.listUnplaced ss = ss.map Stmt.unplaced := by
  induction ss with
  | nil => rfl
  | cons s ss ih => rw [Stmt.listUnplaced, ih, List.map_cons]

@[simp] theorem Stmt.optionUnplaced_eq (s : Option Stmt) :
    Stmt.optionUnplaced s = s.map Stmt.unplaced := by
  cases s <;> rfl

/-! ## Their text -/

@[simp] theorem Ident.name_unplaced (id : Ident) : id.unplaced.name = id.name := rfl

@[simp] theorem Target.render_unplaced (target : Target) : target.unplaced.render = target.render := by
  cases target <;> rfl

@[simp] theorem ImportPath.value_unplaced (path : ImportPath) : path.unplaced.value = path.value := rfl

@[simp] theorem renderAs_unplaced (name : Option Ident) :
    renderAs (name.map Ident.unplaced) = renderAs name := by
  cases name <;> rfl

@[simp] theorem ImportItem.render_unplaced (item : ImportItem) : item.unplaced.render = item.render := by
  simp [ImportItem.render, ImportItem.unplaced]

@[simp] theorem renderParams_unplaced (params : List Ident) :
    renderParams (params.map Ident.unplaced) = renderParams params := by
  simp [renderParams, Function.comp_def]

@[simp] theorem renderLoopNames_unplaced (key : Ident) (value : Option Ident) :
    renderLoopNames key.unplaced (value.map Ident.unplaced) = renderLoopNames key value := by
  cases value <;> rfl

@[simp] theorem renderCaught_unplaced (name : Option Ident) :
    renderCaught (name.map Ident.unplaced) = renderCaught name := by
  cases name <;> rfl

mutual

theorem Expr.render_unplaced : ∀ e : Expr, e.unplaced.render = e.render
  | .ident _ | .int .. | .float .. | .str .. | .bool .. | .nil .. => by simp [Expr.unplaced, Expr.render]
  | .tuple _ items | .list _ items => by
    simp [Expr.unplaced, Expr.render, Expr.map_render_unplaced items]
  | .dict _ entries => by simp [Expr.unplaced, Expr.render, DictEntry.map_render_unplaced entries]
  | .template _ tag _ exprs => by
    simp [Expr.unplaced, Expr.render, Expr.renderBetween_unplaced _ _ tag,
      Expr.map_render_unplaced exprs]
  | .func _ _ body => by simp [Expr.unplaced, Expr.render, body.render_unplaced]
  | .unary _ _ operand => by simp [Expr.unplaced, Expr.render, operand.render_unplaced]
  | .binary _ _ left right => by
    simp [Expr.unplaced, Expr.render, left.render_unplaced, right.render_unplaced]
  | .ternary _ cond thenE elseE | .conditional _ thenE cond elseE => by
    simp [Expr.unplaced, Expr.render, cond.render_unplaced, thenE.render_unplaced,
      elseE.render_unplaced]
  | .assign _ target _ value => by
    simp [Expr.unplaced, Expr.render, target.render_unplaced, value.render_unplaced]
  | .spread _ value => by simp [Expr.unplaced, Expr.render, value.render_unplaced]
  | .call _ callee args => by
    simp [Expr.unplaced, Expr.render, callee.render_unplaced, Expr.map_render_unplaced args]
  | .index _ object index => by
    simp [Expr.unplaced, Expr.render, object.render_unplaced, index.render_unplaced]
  | .slice _ object low high step => by
    simp [Expr.unplaced, Expr.render, object.render_unplaced, Expr.renderBetween_unplaced _ _ low,
      Expr.renderBetween_unplaced _ _ high, Expr.renderBetween_unplaced _ _ step]
  | .member _ object _ => by simp [Expr.unplaced, Expr.render, object.render_unplaced]
  | .comprehension _ elem _ seq filter => by
    simp [Expr.unplaced, Expr.render, elem.render_unplaced, seq.render_unplaced,
      Expr.renderBetween_unplaced _ _ filter]
  | .select _ value arms fallback => by
    simp [Expr.unplaced, Expr.render, value.render_unplaced, MatchArm.map_render_unplaced arms,
      Expr.renderBetween_unplaced _ _ fallback]

theorem Expr.map_render_unplaced :
    ∀ es : List Expr, es.map (Expr.render ∘ Expr.unplaced) = es.map Expr.render
  | [] => rfl
  | e :: es => by simp [e.render_unplaced, Expr.map_render_unplaced es]

theorem Expr.renderBetween_unplaced (before behind : String) : ∀ e : Option Expr,
    Expr.renderBetween before behind (e.map Expr.unplaced) = Expr.renderBetween before behind e
  | none => rfl
  | some e => by simp [Expr.renderBetween, e.render_unplaced]

theorem DictEntry.render_unplaced : ∀ entry : DictEntry, entry.unplaced.render = entry.render
  | .pair key value => by
    simp [DictEntry.unplaced, DictEntry.render, key.render_unplaced, value.render_unplaced]
  | .shorthand _ => rfl

theorem DictEntry.map_render_unplaced :
    ∀ es : List DictEntry, es.map (DictEntry.render ∘ DictEntry.unplaced) = es.map DictEntry.render
  | [] => rfl
  | e :: es => by simp [e.render_unplaced, DictEntry.map_render_unplaced es]

theorem MatchArm.render_unplaced : ∀ arm : MatchArm, arm.unplaced.render = arm.render
  | .mk _ values result => by
    simp [MatchArm.unplaced, MatchArm.render, Expr.map_render_unplaced values,
      result.render_unplaced]

theorem MatchArm.map_render_unplaced :
    ∀ arms : List MatchArm, arms.map (MatchArm.render ∘ MatchArm.unplaced) = arms.map MatchArm.render
  | [] => rfl
  | arm :: arms => by simp [arm.render_unplaced, MatchArm.map_render_unplaced arms]

theorem Block.render_unplaced : ∀ body : Block, body.unplaced.render = body.render
  | .mk _ stmts => by simp [Block.unplaced, Block.render, Stmt.map_render_unplaced stmts]

theorem Block.renderBehind_unplaced (before : String) : ∀ body : Option Block,
    Block.renderBehind before (body.map Block.unplaced) = Block.renderBehind before body
  | none => rfl
  | some body => by simp [Block.renderBehind, body.render_unplaced]

theorem SwitchCase.render_unplaced : ∀ c : SwitchCase, c.unplaced.render = c.render
  | .mk _ values body => by
    simp [SwitchCase.unplaced, SwitchCase.render, Expr.map_render_unplaced values,
      body.render_unplaced]

theorem SwitchCase.map_render_unplaced : ∀ cs : List SwitchCase,
    cs.map (SwitchCase.render ∘ SwitchCase.unplaced) = cs.map SwitchCase.render
  | [] => rfl
  | c :: cs => by simp [c.render_unplaced, SwitchCase.map_render_unplaced cs]

theorem CatchClause.renderOption_unplaced : ∀ handler : Option CatchClause,
    CatchClause.renderOption (handler.map CatchClause.unplaced) = CatchClause.renderOption handler
  | none => rfl
  | some (.mk _ _ body) => by
    simp [CatchClause.renderOption, CatchClause.unplaced, CatchClause.render, body.render_unplaced]

theorem Stmt.render_unplaced : ∀ s : Stmt, s.unplaced.render = s.render
  | .expr _ value | .assign _ _ _ value | .destructure _ _ _ value | .raise _ value
  | .defer _ value => by
    simp [Stmt.unplaced, Stmt.render, value.render_unplaced, Function.comp_def]
  | .indexAssign _ object index _ value => by
    simp [Stmt.unplaced, Stmt.render, object.render_unplaced, index.render_unplaced,
      value.render_unplaced]
  | .memberAssign _ object _ _ value => by
    simp [Stmt.unplaced, Stmt.render, object.render_unplaced, value.render_unplaced]
  | .cond _ test thenS elseS => by
    simp [Stmt.unplaced, Stmt.render, test.render_unplaced, thenS.render_unplaced,
      Stmt.renderBehind_unplaced _ elseS]
  | .whileLoop _ test body => by
    simp [Stmt.unplaced, Stmt.render, test.render_unplaced, body.render_unplaced]
  | .forLoop _ init test post body => by
    simp [Stmt.unplaced, Stmt.render, Stmt.renderBehind_unplaced _ init,
      Expr.renderBetween_unplaced _ _ test, Stmt.renderBehind_unplaced _ post, body.render_unplaced]
  | .forIn _ _ _ seq body => by
    simp [Stmt.unplaced, Stmt.render, seq.render_unplaced, body.render_unplaced]
  | .switch _ value cases fallback => by
    simp [Stmt.unplaced, Stmt.render, value.render_unplaced, SwitchCase.map_render_unplaced cases,
      Block.renderBehind_unplaced _ fallback]
  | .tryCatch _ body handler finalizer => by
    simp [Stmt.unplaced, Stmt.render, body.render_unplaced,
      CatchClause.renderOption_unplaced handler, Block.renderBehind_unplaced _ finalizer]
  | .func _ _ _ body => by simp [Stmt.unplaced, Stmt.render, body.render_unplaced]
  | .importAs .. => by simp [Stmt.unplaced, Stmt.render]
  | .importFrom .. => by simp [Stmt.unplaced, Stmt.render, Function.comp_def]
  | .exported _ stmt => by simp [Stmt.unplaced, Stmt.render, stmt.render_unplaced]
  | .ret _ values => by simp [Stmt.unplaced, Stmt.render, Expr.map_render_unplaced values]
  | .brk _ | .cont _ | .pass _ => rfl
  | .block body => by simp [Stmt.unplaced, Stmt.render, body.render_unplaced]

theorem Stmt.map_render_unplaced :
    ∀ ss : List Stmt, ss.map (Stmt.render ∘ Stmt.unplaced) = ss.map Stmt.render
  | [] => rfl
  | s :: ss => by simp [s.render_unplaced, Stmt.map_render_unplaced ss]

theorem Stmt.renderBehind_unplaced (before : String) : ∀ s : Option Stmt,
    Stmt.renderBehind before (s.map Stmt.unplaced) = Stmt.renderBehind before s
  | none => rfl
  | some s => by simp [Stmt.renderBehind, s.render_unplaced]

end

/-! ## Further down in a file -/

section Lowered

variable (n : Nat)

@[simp] theorem Ident.unplaced_lowered (id : Ident) : (id.lowered n).unplaced = id.unplaced := rfl

@[simp] theorem Ident.optionUnplaced_lowered (id : Option Ident) :
    Option.map (Ident.unplaced ∘ Ident.lowered n) id = id.map Ident.unplaced := by
  cases id <;> rfl

@[simp] theorem Ident.mapUnplaced_lowered (ids : List Ident) :
    ids.map (Ident.unplaced ∘ Ident.lowered n) = ids.map Ident.unplaced := rfl

@[simp] theorem Target.mapUnplaced_lowered (targets : List Target) :
    targets.map (Target.unplaced ∘ Target.lowered n) = targets.map Target.unplaced :=
  List.map_congr_left fun target _ => by cases target <;> rfl

@[simp] theorem ImportPath.unplaced_lowered (path : ImportPath) :
    (path.lowered n).unplaced = path.unplaced := rfl

@[simp] theorem ImportItem.mapUnplaced_lowered (items : List ImportItem) :
    items.map (ImportItem.unplaced ∘ ImportItem.lowered n) = items.map ImportItem.unplaced :=
  List.map_congr_left fun item _ => by rcases item with ⟨name, _ | asName⟩ <;> rfl

mutual

theorem Expr.unplaced_lowered : ∀ e : Expr, (e.lowered n).unplaced = e.unplaced
  | .ident _ | .int .. | .float .. | .str .. | .bool .. | .nil .. => by simp [Expr.unplaced, Expr.lowered]
  | .tuple _ items | .list _ items => by
    simp [Expr.unplaced, Expr.lowered, Expr.mapUnplaced_lowered items]
  | .dict _ entries => by simp [Expr.unplaced, Expr.lowered, DictEntry.mapUnplaced_lowered entries]
  | .template _ tag _ exprs => by
    simp [Expr.unplaced, Expr.lowered, Expr.optionUnplaced_lowered tag, Expr.mapUnplaced_lowered exprs]
  | .func _ _ body => by simp [Expr.unplaced, Expr.lowered, body.unplaced_lowered]
  | .unary _ _ operand => by simp [Expr.unplaced, Expr.lowered, operand.unplaced_lowered]
  | .binary _ _ left right => by
    simp [Expr.unplaced, Expr.lowered, left.unplaced_lowered, right.unplaced_lowered]
  | .ternary _ cond thenE elseE | .conditional _ thenE cond elseE => by
    simp [Expr.unplaced, Expr.lowered, cond.unplaced_lowered, thenE.unplaced_lowered,
      elseE.unplaced_lowered]
  | .assign _ target _ value => by
    simp [Expr.unplaced, Expr.lowered, target.unplaced_lowered, value.unplaced_lowered]
  | .spread _ value => by simp [Expr.unplaced, Expr.lowered, value.unplaced_lowered]
  | .call _ callee args => by
    simp [Expr.unplaced, Expr.lowered, callee.unplaced_lowered, Expr.mapUnplaced_lowered args]
  | .index _ object index => by
    simp [Expr.unplaced, Expr.lowered, object.unplaced_lowered, index.unplaced_lowered]
  | .slice _ object low high step => by
    simp [Expr.unplaced, Expr.lowered, object.unplaced_lowered, Expr.optionUnplaced_lowered low,
      Expr.optionUnplaced_lowered high, Expr.optionUnplaced_lowered step]
  | .member _ object _ => by simp [Expr.unplaced, Expr.lowered, object.unplaced_lowered]
  | .comprehension _ elem _ seq filter => by
    simp [Expr.unplaced, Expr.lowered, elem.unplaced_lowered, seq.unplaced_lowered,
      Expr.optionUnplaced_lowered filter]
  | .select _ value arms fallback => by
    simp [Expr.unplaced, Expr.lowered, value.unplaced_lowered, MatchArm.mapUnplaced_lowered arms,
      Expr.optionUnplaced_lowered fallback]

theorem Expr.mapUnplaced_lowered :
    ∀ es : List Expr, es.map (Expr.unplaced ∘ Expr.lowered n) = es.map Expr.unplaced
  | [] => rfl
  | e :: es => by simp [e.unplaced_lowered, Expr.mapUnplaced_lowered es]

theorem Expr.optionUnplaced_lowered :
    ∀ e : Option Expr, Option.map (Expr.unplaced ∘ Expr.lowered n) e = e.map Expr.unplaced
  | none => rfl
  | some e => by simp [e.unplaced_lowered]

theorem DictEntry.unplaced_lowered :
    ∀ entry : DictEntry, (entry.lowered n).unplaced = entry.unplaced
  | .pair key value => by
    simp [DictEntry.unplaced, DictEntry.lowered, key.unplaced_lowered, value.unplaced_lowered]
  | .shorthand _ => rfl

theorem DictEntry.mapUnplaced_lowered : ∀ entries : List DictEntry,
    entries.map (DictEntry.unplaced ∘ DictEntry.lowered n) = entries.map DictEntry.unplaced
  | [] => rfl
  | e :: entries => by simp [e.unplaced_lowered, DictEntry.mapUnplaced_lowered entries]

theorem MatchArm.unplaced_lowered : ∀ arm : MatchArm, (arm.lowered n).unplaced = arm.unplaced
  | .mk _ values result => by
    simp [MatchArm.unplaced, MatchArm.lowered, Expr.mapUnplaced_lowered values,
      result.unplaced_lowered]

theorem MatchArm.mapUnplaced_lowered : ∀ arms : List MatchArm,
    arms.map (MatchArm.unplaced ∘ MatchArm.lowered n) = arms.map MatchArm.unplaced
  | [] => rfl
  | arm :: arms => by simp [arm.unplaced_lowered, MatchArm.mapUnplaced_lowered arms]

theorem Block.unplaced_lowered : ∀ body : Block, (body.lowered n).unplaced = body.unplaced
  | .mk _ stmts => by simp [Block.unplaced, Block.lowered, Stmt.mapUnplaced_lowered stmts]

theorem Block.optionUnplaced_lowered :
    ∀ body : Option Block, Option.map (Block.unplaced ∘ Block.lowered n) body = body.map Block.unplaced
  | none => rfl
  | some body => by simp [body.unplaced_lowered]

theorem SwitchCase.unplaced_lowered : ∀ c : SwitchCase, (c.lowered n).unplaced = c.unplaced
  | .mk _ values body => by
    simp [SwitchCase.unplaced, SwitchCase.lowered, Expr.mapUnplaced_lowered values,
      body.unplaced_lowered]

theorem SwitchCase.mapUnplaced_lowered : ∀ cs : List SwitchCase,
    cs.map (SwitchCase.unplaced ∘ SwitchCase.lowered n) = cs.map SwitchCase.unplaced
  | [] => rfl
  | c :: cs => by simp [c.unplaced_lowered, SwitchCase.mapUnplaced_lowered cs]

theorem CatchClause.optionUnplaced_lowered : ∀ handler : Option CatchClause,
    Option.map (CatchClause.unplaced ∘ CatchClause.lowered n) handler
      = handler.map CatchClause.unplaced
  | none => rfl
  | some (.mk _ _ body) => by simp [CatchClause.unplaced, CatchClause.lowered, body.unplaced_lowered]

theorem Stmt.unplaced_lowered : ∀ s : Stmt, (s.lowered n).unplaced = s.unplaced
  | .expr _ value | .assign _ _ _ value | .destructure _ _ _ value | .raise _ value
  | .defer _ value => by simp [Stmt.unplaced, Stmt.lowered, value.unplaced_lowered]
  | .indexAssign _ object index _ value => by
    simp [Stmt.unplaced, Stmt.lowered, object.unplaced_lowered, index.unplaced_lowered,
      value.unplaced_lowered]
  | .memberAssign _ object _ _ value => by
    simp [Stmt.unplaced, Stmt.lowered, object.unplaced_lowered, value.unplaced_lowered]
  | .cond _ test thenS elseS => by
    simp [Stmt.unplaced, Stmt.lowered, test.unplaced_lowered, thenS.unplaced_lowered,
      Stmt.optionUnplaced_lowered elseS]
  | .whileLoop _ test body => by
    simp [Stmt.unplaced, Stmt.lowered, test.unplaced_lowered, body.unplaced_lowered]
  | .forLoop _ init test post body => by
    simp [Stmt.unplaced, Stmt.lowered, Stmt.optionUnplaced_lowered init,
      Expr.optionUnplaced_lowered test, Stmt.optionUnplaced_lowered post, body.unplaced_lowered]
  | .forIn _ _ _ seq body => by
    simp [Stmt.unplaced, Stmt.lowered, seq.unplaced_lowered, body.unplaced_lowered]
  | .switch _ value cases fallback => by
    simp [Stmt.unplaced, Stmt.lowered, value.unplaced_lowered, SwitchCase.mapUnplaced_lowered cases,
      Block.optionUnplaced_lowered fallback]
  | .tryCatch _ body handler finalizer => by
    simp [Stmt.unplaced, Stmt.lowered, body.unplaced_lowered,
      CatchClause.optionUnplaced_lowered handler, Block.optionUnplaced_lowered finalizer]
  | .func _ _ _ body => by simp [Stmt.unplaced, Stmt.lowered, body.unplaced_lowered]
  | .importAs .. | .importFrom .. => by simp [Stmt.unplaced, Stmt.lowered]
  | .exported _ stmt => by simp [Stmt.unplaced, Stmt.lowered, stmt.unplaced_lowered]
  | .ret _ values => by simp [Stmt.unplaced, Stmt.lowered, Expr.mapUnplaced_lowered values]
  | .brk _ | .cont _ | .pass _ => rfl
  | .block body => by simp [Stmt.unplaced, Stmt.lowered, body.unplaced_lowered]

theorem Stmt.mapUnplaced_lowered :
    ∀ ss : List Stmt, ss.map (Stmt.unplaced ∘ Stmt.lowered n) = ss.map Stmt.unplaced
  | [] => rfl
  | s :: ss => by simp [s.unplaced_lowered, Stmt.mapUnplaced_lowered ss]

theorem Stmt.optionUnplaced_lowered :
    ∀ s : Option Stmt, Option.map (Stmt.unplaced ∘ Stmt.lowered n) s = s.map Stmt.unplaced
  | none => rfl
  | some s => by simp [s.unplaced_lowered]

end

end Lowered

/-! ## Parts -/

mutual

/-- An expression and all expressions in it, those in the bodies of functions apart. -/
def Expr.subexprs : Expr → List Expr
  | e@(.ident _) | e@(.int ..) | e@(.float ..) | e@(.str ..) | e@(.bool ..) | e@(.nil _)
  | e@(.func ..) => [e]
  | e@(.tuple _ items) | e@(.list _ items) => e :: Expr.listSubexprs items
  | e@(.dict _ entries) => e :: DictEntry.listSubexprs entries
  | e@(.template _ tag _ exprs) => e :: (Expr.optionSubexprs tag ++ Expr.listSubexprs exprs)
  | e@(.unary _ _ operand) => e :: operand.subexprs
  | e@(.binary _ _ left right) => e :: (left.subexprs ++ right.subexprs)
  | e@(.ternary _ cond thenE elseE) =>
    e :: (cond.subexprs ++ thenE.subexprs ++ elseE.subexprs)
  | e@(.conditional _ thenE cond elseE) =>
    e :: (thenE.subexprs ++ cond.subexprs ++ elseE.subexprs)
  | e@(.assign _ target _ value) => e :: (target.subexprs ++ value.subexprs)
  | e@(.spread _ value) => e :: value.subexprs
  | e@(.call _ callee args) => e :: (callee.subexprs ++ Expr.listSubexprs args)
  | e@(.index _ object index) => e :: (object.subexprs ++ index.subexprs)
  | e@(.slice _ object low high step) =>
    e :: (object.subexprs ++ Expr.optionSubexprs low ++ Expr.optionSubexprs high
      ++ Expr.optionSubexprs step)
  | e@(.member _ object _) => e :: object.subexprs
  | e@(.comprehension _ elem _ seq filter) =>
    e :: (elem.subexprs ++ seq.subexprs ++ Expr.optionSubexprs filter)
  | e@(.select _ value arms fallback) =>
    e :: (value.subexprs ++ MatchArm.listSubexprs arms ++ Expr.optionSubexprs fallback)

/-- The expressions in a list, at any depth. -/
def Expr.listSubexprs : List Expr → List Expr
  | [] => []
  | e :: es => e.subexprs ++ Expr.listSubexprs es

/-- The expressions in an expression that may be missing, at any depth. -/
def Expr.optionSubexprs : Option Expr → List Expr
  | none => []
  | some e => e.subexprs

/-- The expressions in a dictionary entry, at any depth. -/
def DictEntry.subexprs : DictEntry → List Expr
  | .pair key value => key.subexprs ++ value.subexprs
  | .shorthand _ => []

/-- The expressions in dictionary entries, at any depth. -/
def DictEntry.listSubexprs : List DictEntry → List Expr
  | [] => []
  | e :: es => e.subexprs ++ DictEntry.listSubexprs es

/-- The expressions in a case of a `match` expression, at any depth. -/
def MatchArm.subexprs : MatchArm → List Expr
  | .mk _ values result => Expr.listSubexprs values ++ result.subexprs

/-- The expressions in the cases of a `match` expression, at any depth. -/
def MatchArm.listSubexprs : List MatchArm → List Expr
  | [] => []
  | arm :: arms => arm.subexprs ++ MatchArm.listSubexprs arms

end

end Welle
