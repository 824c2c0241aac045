import Welle.Proofs.Parser.Bounds

set_option autoImplicit false

/-! # Every parser stays in bounds

The parsers of the grammar are made of parts that stay in bounds, if those for the constructs inside
them do. So each of them does, at every number of levels, and so does a parser that is called again
and again. -/

namespace Welle.Parser

/-- The parsers for the constructs inside another one stay in bounds. -/
structure Grammar.Contained (g : Grammar) : Prop where
  expression (level : Precedence) : Parser.Contained (g.expression level)
  statement : Parser.Contained g.statement

namespace Contained

variable {g : Grammar} (hg : g.Contained)

include hg

/-! ## Blocks -/

theorem listedStatement (stop : Token.Kind) : Contained (listedStatement g stop) := by
  refine skipSeparators.bind fun _ => (atKind stop).bind fun stopped => ?_
  refine ite (pure none) ((atKind .eof).bind fun ended => ite (pure none) ?_)
  refine get.bind fun st => hg.statement.observing.bind fun result => ?_
  cases result with
  | ok stmt => exact pure (some (some stmt))
  | error e =>
    refine (record e).bind fun _ => get.bind fun st' => ite ?_ ?_
    · exact advance.bind fun _ => pure (some none)
    · refine (atKind stop).bind fun stopped => ite ?_ (pure (some none))
      exact advance.bind fun _ => pure (some none)

theorem statementsUntil (stop : Token.Kind) : Contained (statementsUntil g stop) :=
  (many (listedStatement hg stop)).bind fun _ => pure _

theorem block : Contained (block g) := by
  refine (expect .lbrace _).bind fun opening => asStatements ?_
  refine (statementsUntil hg .rbrace).bind fun stmts => ?_
  refine (expect .rbrace _).observing.bind fun result => ?_
  cases result with
  | ok close => exact pure _
  | error e => exact (record e).bind fun _ => pure _

theorem body : Contained (body g) :=
  get.bind fun _ => ite (skipNewlines.bind fun _ => block hg) (block hg)

omit hg in
theorem params : Contained params := by
  refine (expect .lparen _).bind fun opening => nested ?_
  exact (itemsUntil .rparen (expectIdent _)).bind fun names => (expect .rparen _).bind fun _ => pure _

theorem caseValues : Contained (caseValues g) := commaSeparated (hg.expression .lowest)

omit hg in
theorem arms {α β : Type} (construct : String) {caseArm : Token → Parse α} {defaultArm : Parse β}
    (hcase : ∀ word, Contained (caseArm word)) (hdefault : Contained defaultArm) :
    Contained (arms construct caseArm defaultArm) := by
  refine (many ?_).bind fun found => (expect .rbrace _).bind fun _ => pure _
  refine skipSeparators.bind fun _ => currentKind.bind fun kind => ?_
  split
  · exact pure none
  · exact advance.bind fun word => (hcase word).bind fun a => pure _
  · exact advance.bind fun _ => hdefault.bind fun b => pure _
  · exact current.bind fun token => fail _ token

/-! ## Templates -/

theorem holeExpression (opening : Position) : Contained (holeExpression g opening) := by
  refine (atKind .eof).bind fun empty => ite (throw _) ?_
  refine (hg.expression .lowest).bind fun value => (atKind .eof).bind fun ended => ?_
  exact ite (pure value) (current.bind fun token => fail _ token)

/-- An interpolation is read within its own tokens. -/
theorem hole (source : String) (origin opening : Position) :
    Contained (hole g source origin opening) :=
  fun _ _ hst => .hole hst (holeExpression hg opening _ _ (within_holeStart source origin))

theorem template (token : Token) (tag : Option Expr) : Contained (template g token tag) := by
  refine bind ?_ fun results => (liftExcept _).bind fun parts => pure _
  induction Template.split token.literal (token.pos.shifted 2) with
  | nil => exact pure []
  | cons segment segments ih =>
    rw [List.filterMapM_cons]
    refine bind ?_ fun result => ?_
    · cases segment with
      | text value => exact pure none
      | hole source origin opening => exact (hole hg source origin opening).observing.map some
    · cases result with
      | none => exact ih
      | some result => exact ih.bind fun results => pure _

/-! ## Operands -/

omit hg in
theorem number (token : Token) : Contained (number token) := by
  unfold Parser.number
  split
  · exact pure _
  · exact pure _
  · exact fail _ token

theorem grouped : Contained (grouped g) := by
  refine advance.bind fun opening => nested ((eat .rparen).bind fun empty => ite (pure _) ?_)
  refine (hg.expression .lowest).bind fun first => (atKind .comma).bind fun more => ite ?_ ?_
  · refine (furtherItemsUntil .rparen (hg.expression .lowest)).bind fun items => ?_
    exact (expect .rparen _).bind fun _ => pure _
  · exact (expect .rparen _).bind fun _ => pure first

theorem list : Contained (list g) := by
  refine advance.bind fun opening => nested ((eat .rbracket).bind fun empty => ite (pure _) ?_)
  refine (hg.expression .lowest).bind fun first => (eat .kwFor).bind fun isFor => ite ?_ ?_
  · refine (expectIdent _).bind fun var => (expect .kwIn _).bind fun _ => ?_
    refine (hg.expression .ternary).bind fun seq => (eat .kwIf).bind fun isIf => ?_
    refine ite ?_ ?_
    · refine ((hg.expression .lowest).map some).bind fun filter => ?_
      exact (expect .rbracket _).bind fun _ => pure _
    · exact (pure none).bind fun filter => (expect .rbracket _).bind fun _ => pure _
  · refine (furtherItemsUntil .rbracket (hg.expression .lowest)).bind fun items => ?_
    exact (expect .rbracket _).bind fun _ => pure _

theorem dictEntry : Contained (dictEntry g) := by
  refine (atKind .ident).bind fun isName => nextKind.bind fun kind => ite ?_ ?_
  · exact (expectIdent _).bind fun name => pure _
  · refine (hg.expression .lowest).bind fun key => (expect .colon _).bind fun _ => ?_
    exact (hg.expression .lowest).bind fun value => pure _

theorem dict : Contained (dict g) := by
  refine advance.bind fun hash => (expect .lbrace _).bind fun _ => nested ?_
  exact (itemsUntil .rbrace (dictEntry hg)).bind fun entries =>
    (expect .rbrace _).bind fun _ => pure _

theorem funcLiteral : Contained (funcLiteral g) :=
  advance.bind fun _ => params.bind fun _ => (block hg).bind fun _ => pure _

theorem matchResult : Contained (matchResult g) := by
  refine (expect .lbrace _).bind fun _ => skipSeparators.bind fun _ => ?_
  refine (hg.expression .lowest).bind fun result => skipSeparators.bind fun _ => ?_
  exact (expect .rbrace _).bind fun _ => pure result

theorem select : Contained (select g) := by
  refine advance.bind fun word => (expect .lparen _).bind fun _ => bind ?_ fun value => ?_
  · refine nested ((hg.expression .lowest).bind fun value => ?_)
    exact (expect .rparen _).bind fun _ => pure value
  · refine (expect .lbrace _).bind fun _ => asStatements ?_
    refine (arms _ (fun word => ?_) (matchResult hg)).bind fun found => pure _
    exact (caseValues hg).bind fun values => (matchResult hg).bind fun result => pure _

theorem operand : Contained (operand g) := by
  refine current.bind fun token => ?_
  split
  · exact advance.bind fun _ => pure _
  · exact advance.bind fun _ => number token
  · exact advance.bind fun _ => number token
  · exact advance.bind fun _ => pure _
  · exact advance.bind fun _ => template hg token none
  · exact advance.bind fun _ => pure _
  · exact advance.bind fun _ => pure _
  · exact advance.bind fun _ => pure _
  iterate 4
    refine advance.bind fun _ => (hg.expression .prefixOp).bind fun value => ?_
    split
    · exact pure _
    · exact fail _ token
  · exact grouped hg
  · exact list hg
  · exact dict hg
  · exact funcLiteral hg
  · exact select hg
  · exact fail _ token
  · exact fail _ token
  · exact fail _ token

/-! ## Operators -/

theorem argument : Contained (argument g) := by
  refine (atKind .ellipsis).bind fun isSpread => ite ?_ (hg.expression .lowest)
  exact advance.bind fun dots => (hg.expression .lowest).bind fun value => pure _

theorem call (callee : Expr) : Contained (call g callee) := by
  refine advance.bind fun opening => nested ?_
  exact (itemsUntil .rparen (argument hg)).bind fun args => (expect .rparen _).bind fun _ => pure _

theorem sliceTail (opening : Position) (object : Expr) (low : Option Expr) :
    Contained (sliceTail g opening object low) := by
  have hstep (high : Option Expr) : Contained (do
      let step ← if ← Parser.eat .colon then
          if ← Parser.atKind .rbracket then Pure.pure none else some <$> g.expression .lowest
        else Pure.pure none
      let _ ← Parser.expect .rbracket "to close slice"
      return Expr.slice opening object low high step) := by
    refine (eat .colon).bind fun more => ite ((atKind .rbracket).bind fun closed => ite ?_ ?_) ?_
    · exact (pure none).bind fun step => (expect .rbracket _).bind fun _ => pure _
    · exact ((hg.expression .lowest).map some).bind fun step =>
        (expect .rbracket _).bind fun _ => pure _
    · exact (pure none).bind fun step => (expect .rbracket _).bind fun _ => pure _
  refine currentKind.bind fun kind => ?_
  split
  · exact (pure none).bind hstep
  · exact (pure none).bind hstep
  · exact ((hg.expression .lowest).map some).bind hstep

theorem index (object : Expr) : Contained (index g object) := by
  refine advance.bind fun opening => nested ((eat .colon).bind fun isSlice => ite ?_ ?_)
  · exact sliceTail hg _ object none
  · refine (hg.expression .lowest).bind fun low => (eat .colon).bind fun isSlice => ite ?_ ?_
    · exact sliceTail hg _ object (some low)
    · exact (expect .rbracket _).bind fun _ => pure _

omit hg in
theorem member (object : Expr) : Contained (member object) := by
  refine advance.bind fun dot => current.bind fun name => ite ?_ (fail _ name)
  exact advance.bind fun _ => pure _

theorem operation (left : Expr) (strength : Precedence) :
    Contained (operation g left strength) := by
  refine current.bind fun token => ?_
  split
  · refine ite (fail _ token) ?_
    exact advance.bind fun _ => (hg.expression strength.weaker).bind fun value => pure _
  split
  · refine advance.bind fun _ => (hg.expression .lowest).bind fun thenE => ?_
    exact (expect .colon _).bind fun _ => (hg.expression strength.weaker).bind fun elseE => pure _
  · refine advance.bind fun _ => (hg.expression .ternary).bind fun cond => ?_
    exact (expect .kwElse _).bind fun _ => (hg.expression strength.weaker).bind fun elseE => pure _
  · exact call hg left
  · exact index hg left
  · exact member left
  · exact advance.bind fun _ => template hg token (some left)
  · split
    · exact advance.bind fun _ => (hg.expression strength).bind fun right => pure _
    · exact fail _ token

omit hg in
theorem continuation? (level : Precedence) (left : Expr) : Contained (continuation? level left) := by
  refine currentKind.bind fun kind => ?_
  split
  · exact pure none
  · exact ite (pure none) (ite (pure none) (pure _))

theorem operations (level : Precedence) (limit : Nat) (left : Expr) :
    Contained (operations g level limit left) := by
  induction limit generalizing left with
  | zero => exact pure left
  | succ limit ih =>
    refine (continuation? level left).bind fun strength => ?_
    cases strength with
    | none => exact pure left
    | some strength => exact (operation hg left strength).bind fun left => ih left

theorem expression (level : Precedence) : Contained (expression g level) :=
  (operand hg).bind fun left => get.bind fun st => operations hg level st.tokens.length left

/-! ## Simple statements and destructuring -/

theorem simpleStatement : Contained (simpleStatement g) :=
  current.bind fun _ => (expression hg .lowest).bind fun _ => pure _

omit hg in
theorem scanTarget : Contained scanTarget := by
  refine advance.bind fun token => ?_
  split
  · exact advance.bind fun name => ite (pure _) (pure none)
  · exact ite (pure _) (pure _)
  · exact pure none

omit hg in
theorem scanTargets (limit : Nat) : Contained (scanTargets limit) := by
  induction limit with
  | zero => exact pure none
  | succ limit ih =>
    refine scanTarget.bind fun found => ?_
    split
    · refine advance.bind fun token => ?_
      split
      · exact pure _
      · refine (eat .rparen).bind fun closed => ite (pure _) (ih.bind fun rest => ?_)
        split
        · exact pure _
        · exact pure none
      · exact pure none
    · exact pure none

/-- Where the cursor goes back, it goes back to where it was. -/
theorem destructuring : Contained (destructuring g) := by
  intro tokens st hst
  have hback {st' : State} (hst' : st'.Within tokens) : InBounds tokens (do
      modify fun st' => { st' with tokens := st.tokens }
      return (none : Option Stmt) : Parse (Option Stmt)) st' := by
    refine .bind (.modify _ hst' (hst.congr rfl) rfl) fun _ st'' hrun => ?_
    cases hrun
    exact .pure none (hst.congr rfl)
  refine .bind (.get hst) fun start st' hrun => ?_
  cases hrun
  refine advance.bind_within hst fun opening st₁ hst₁ => ?_
  refine (nested (get.bind fun st => scanTargets st.tokens.length)).bind_within hst₁ ?_
  intro list st₂ hst₂
  refine currentKind.bind_within hst₂ fun kind st₃ hst₃ => ?_
  split
  · split
    · split
      · exact fail _ _ tokens st₃ hst₃
      · refine advance.bind_within hst₃ fun _ st₄ hst₄ => ?_
        exact (hg.expression .lowest).bind_within hst₄ fun value st₅ hst₅ => .pure _ hst₅
    · exact hback hst₃
  · exact hback hst₃

/-! ## Conditions and loops -/

theorem condition (word : String) : Contained (condition g word) := by
  refine (expect .lparen _).bind fun _ => nested ?_
  exact (hg.expression .lowest).bind fun test => (expect .rparen _).bind fun _ => pure test

theorem branch (after : String) : Contained (branch g after) := by
  refine skipNewlines.bind fun _ => current.bind fun token => ?_
  split
  iterate 4
    exact fail _ token
  exact hg.statement

theorem cond : Contained (cond g) := by
  refine advance.bind fun word => (condition hg _).bind fun test => ?_
  refine (branch hg _).bind fun thenS => get.bind fun st => ite ?_ (pure _)
  refine skipNewlines.bind fun _ => advance.bind fun _ => ?_
  exact (branch hg _).bind fun elseS => pure _

theorem whileLoop : Contained (whileLoop g) :=
  advance.bind fun _ => (condition hg _).bind fun _ => (body hg).bind fun _ => pure _

omit hg in
theorem checkTargets (pos : Position) (targets : List Ident) :
    Contained (checkTargets pos targets) :=
  ite (record _) (pure ())

theorem finishForIn (pos : Position) (targets : List Ident) (seq : Expr) :
    Contained (finishForIn g pos targets seq) := (body hg).bind fun _ => pure _

omit hg in
/-- A part that is left out in front of a token of a given kind. -/
theorem unless_bind {α β : Type} {p : Parse α} {f : Option α → Parse β} (kind : Token.Kind)
    (hp : Contained p) (hf : ∀ part, Contained (f part)) :
    Contained (do
      if ← Parser.atKind kind then
        let part ← Pure.pure none
        f part
      else
        let part ← some <$> p
        f part) := by
  refine (atKind kind).bind fun found => ite ?_ ?_
  · exact (pure none).bind hf
  · exact (hp.map some).bind hf

theorem clauses (pos : Position) : Contained (clauses g pos) := by
  refine (expect .lparen _).bind fun _ => bind (nested ?_) fun header => ?_
  · refine unless_bind .semicolon (simpleStatement hg) fun init => ?_
    refine (expect .semicolon _).bind fun _ => ?_
    refine unless_bind .semicolon (hg.expression .lowest) fun test => ?_
    refine (expect .semicolon _).bind fun _ => ?_
    refine unless_bind .rparen (simpleStatement hg) fun post => ?_
    exact (expect .rparen _).bind fun _ => pure _
  · exact (body hg).bind fun _ => pure _

omit hg in
theorem forTargets : Contained forTargets :=
  (commaSeparated (expectIdent _)).bind fun targets => (expect .rparen _).bind fun _ => pure targets

theorem forSequence : Contained (forSequence g) :=
  (expect .kwIn _).bind fun _ => hg.expression .lowest

theorem forLoop : Contained (forLoop g) := by
  refine advance.bind fun word => get.bind fun st => ?_
  split
  · exact clauses hg _
  · refine (expectIdent _).bind fun key => (forSequence hg).bind fun seq => ?_
    exact finishForIn hg _ [key] seq
  · refine (expect .lparen _).bind fun _ => bind (nested ?_) fun header => finishForIn hg _ _ _
    refine (expectIdent _).bind fun key => (forSequence hg).bind fun seq => ?_
    exact (expect .rparen _).bind fun _ => pure (key, seq)
  · refine (expect .lparen _).bind fun _ => bind (nested ?_) fun header => ?_
    · refine (expect .lparen _).bind fun _ => forTargets.bind fun targets => ?_
      refine (forSequence hg).bind fun seq => (expect .rparen _).bind fun _ => pure (targets, seq)
    · exact (checkTargets _ _).bind fun _ => finishForIn hg _ _ _
  · refine (expect .lparen _).bind fun _ => (nested forTargets).bind fun targets => ?_
    refine (checkTargets _ _).bind fun _ => (forSequence hg).bind fun seq => ?_
    exact finishForIn hg _ targets seq

/-! ## Switch and try -/

theorem switch : Contained (switch g) := by
  refine advance.bind fun word => (condition hg _).bind fun value => skipNewlines.bind fun _ => ?_
  refine (expect .lbrace _).bind fun _ => asStatements ?_
  refine (arms _ (fun word => ?_) (body hg)).bind fun found => pure _
  exact (caseValues hg).bind fun values => (body hg).bind fun body => pure _

theorem handler : Contained (handler g) := by
  have hrest (word : Token) (name : Option Ident) : Contained (do
      return some (CatchClause.mk word.pos name (← Parser.body g))) := (body hg).bind fun _ => pure _
  refine get.bind fun st => ite (pure none) (skipNewlines.bind fun _ => advance.bind fun word => ?_)
  refine (eat .lparen).bind fun named => ite (bind (nested ?_) (hrest word)) ?_
  · exact (expectIdent _).bind fun name => (expect .rparen _).bind fun _ => pure (some name)
  · exact (pure none).bind (hrest word)

theorem finalizer : Contained (finalizer g) := by
  refine get.bind fun st => ite (pure none) (skipNewlines.bind fun _ => advance.bind fun _ => ?_)
  exact (body hg).bind fun _ => pure _

theorem tryCatch : Contained (tryCatch g) := by
  refine advance.bind fun word => (body hg).bind fun body => (handler hg).bind fun handler => ?_
  refine (finalizer hg).bind fun finalizer => ite ?_ (pure _)
  exact current.bind fun token => fail _ token

/-! ## Declarations and jumps -/

theorem funcStatement : Contained (funcStatement g) := by
  refine advance.bind fun word => (expectIdent _).bind fun name => params.bind fun names => ?_
  exact (body hg).bind fun _ => pure _

theorem ret : Contained (ret g) := by
  refine advance.bind fun word => currentKind.bind fun kind => ?_
  split
  iterate 5
    exact pure _
  exact (commaSeparated (hg.expression .lowest)).bind fun values => pure _

theorem raise : Contained (raise g) :=
  advance.bind fun _ => (hg.expression .lowest).bind fun _ => pure _

theorem defer : Contained (defer g) :=
  advance.bind fun word => (hg.expression .lowest).bind fun _ => ite (pure _) (fail _ word)

omit hg in
theorem asName : Contained asName :=
  (eat .kwAs).bind fun _ => ite ((expectIdent _).map some) (pure none)

omit hg in
theorem importPath (context : String) : Contained (importPath context) :=
  (expect .str context).bind fun _ => pure _

omit hg in
theorem importAs : Contained importAs :=
  advance.bind fun _ => (importPath _).bind fun _ => asName.bind fun _ => pure _

omit hg in
theorem importFrom : Contained importFrom := by
  refine advance.bind fun word => (importPath _).bind fun path => (expect .kwImport _).bind fun _ => ?_
  refine (commaSeparated ?_).bind fun items => pure _
  exact (expectIdent _).bind fun name => asName.bind fun rename => pure _

theorem exported : Contained (exported g) := by
  refine advance.bind fun word => current.bind fun next => ?_
  split
  iterate 3
    exact fail _ next
  exact hg.statement.bind fun stmt => ite (pure _) (fail _ word)

/-! ## Statements -/

theorem statement : Contained (statement g) := by
  refine currentKind.bind fun kind => ?_
  split
  · exact nextKind.bind fun next => ite (funcStatement hg) (simpleStatement hg)
  · exact ret hg
  iterate 3
    exact advance.bind fun _ => pure _
  · exact cond hg
  · exact whileLoop hg
  · exact forLoop hg
  · exact switch hg
  · exact tryCatch hg
  · exact raise hg
  · exact defer hg
  · exact importAs
  · exact importFrom
  · exact exported hg
  · exact (block hg).bind fun _ => pure _
  · refine (destructuring hg).bind fun found => ?_
    cases found with
    | some stmt => exact pure stmt
    | none => exact simpleStatement hg
  · exact simpleStatement hg

end Contained

/-! ## All levels -/

/-- At the last level there is only the error that the text is nested too deeply. -/
theorem Grammar.contained_ofDepth (depth : Nat) : (Grammar.ofDepth depth).Contained := by
  induction depth with
  | zero =>
    constructor
    · exact fun level => Contained.current.bind fun token => .fail _ token
    · exact Contained.current.bind fun token => .fail _ token
  | succ depth ih =>
    constructor
    · exact fun level => .expression ih level
    · exact .statement ih

/-- The parsers for the constructs of the language, and those for single tokens. -/
inductive Rule (g : Grammar) : {α : Type} → Parse α → Prop where
  | current : Rule g current
  | currentKind : Rule g currentKind
  | atKind (kind : Token.Kind) : Rule g (atKind kind)
  | nextKind : Rule g nextKind
  | advance : Rule g advance
  | eat (kind : Token.Kind) : Rule g (eat kind)
  | expect (kind : Token.Kind) (context : String) : Rule g (expect kind context)
  | expectIdent (context : String) : Rule g (expectIdent context)
  | skipNewlines : Rule g skipNewlines
  | skipSeparators : Rule g skipSeparators
  | record (error : SyntaxError) : Rule g (record error)
  | listedStatement (stop : Token.Kind) : Rule g (listedStatement g stop)
  | statementsUntil (stop : Token.Kind) : Rule g (statementsUntil g stop)
  | block : Rule g (block g)
  | body : Rule g (body g)
  | params : Rule g params
  | caseValues : Rule g (caseValues g)
  | holeExpression (opening : Position) : Rule g (holeExpression g opening)
  | hole (source : String) (origin opening : Position) : Rule g (hole g source origin opening)
  | template (token : Token) (tag : Option Expr) : Rule g (template g token tag)
  | number (token : Token) : Rule g (number token)
  | grouped : Rule g (grouped g)
  | list : Rule g (list g)
  | dictEntry : Rule g (dictEntry g)
  | dict : Rule g (dict g)
  | funcLiteral : Rule g (funcLiteral g)
  | matchResult : Rule g (matchResult g)
  | select : Rule g (select g)
  | operand : Rule g (operand g)
  | argument : Rule g (argument g)
  | call (callee : Expr) : Rule g (call g callee)
  | sliceTail (opening : Position) (object : Expr) (low : Option Expr) :
      Rule g (sliceTail g opening object low)
  | index (object : Expr) : Rule g (index g object)
  | member (object : Expr) : Rule g (member object)
  | operation (left : Expr) (strength : Precedence) : Rule g (operation g left strength)
  | continuation? (level : Precedence) (left : Expr) : Rule g (continuation? level left)
  | operations (level : Precedence) (limit : Nat) (left : Expr) :
      Rule g (operations g level limit left)
  | expression (level : Precedence) : Rule g (expression g level)
  | simpleStatement : Rule g (simpleStatement g)
  | scanTarget : Rule g scanTarget
  | scanTargets (limit : Nat) : Rule g (scanTargets limit)
  | destructuring : Rule g (destructuring g)
  | condition (word : String) : Rule g (condition g word)
  | branch (after : String) : Rule g (branch g after)
  | cond : Rule g (cond g)
  | whileLoop : Rule g (whileLoop g)
  | checkTargets (pos : Position) (targets : List Ident) : Rule g (checkTargets pos targets)
  | finishForIn (pos : Position) (targets : List Ident) (seq : Expr) :
      Rule g (finishForIn g pos targets seq)
  | clauses (pos : Position) : Rule g (clauses g pos)
  | forTargets : Rule g forTargets
  | forSequence : Rule g (forSequence g)
  | forLoop : Rule g (forLoop g)
  | switch : Rule g (switch g)
  | handler : Rule g (handler g)
  | finalizer : Rule g (finalizer g)
  | tryCatch : Rule g (tryCatch g)
  | funcStatement : Rule g (funcStatement g)
  | ret : Rule g (ret g)
  | raise : Rule g (raise g)
  | defer : Rule g (defer g)
  | asName : Rule g asName
  | importPath (context : String) : Rule g (importPath context)
  | importAs : Rule g importAs
  | importFrom : Rule g importFrom
  | exported : Rule g (exported g)
  | statement : Rule g (statement g)

theorem Rule.contained {g : Grammar} (hg : g.Contained) {α : Type} {p : Parse α} (h : Rule g p) :
    Contained p := by
  cases h with
  | current => exact .current
  | currentKind => exact .currentKind
  | atKind kind => exact .atKind kind
  | nextKind => exact .nextKind
  | advance => exact .advance
  | eat kind => exact .eat kind
  | expect kind context => exact .expect kind context
  | expectIdent context => exact .expectIdent context
  | skipNewlines => exact .skipNewlines
  | skipSeparators => exact .skipSeparators
  | record error => exact .record error
  | listedStatement stop => exact .listedStatement hg stop
  | statementsUntil stop => exact .statementsUntil hg stop
  | block => exact .block hg
  | body => exact .body hg
  | params => exact .params
  | caseValues => exact .caseValues hg
  | holeExpression opening => exact .holeExpression hg opening
  | hole source origin opening => exact .hole hg source origin opening
  | template token tag => exact .template hg token tag
  | number token => exact .number token
  | grouped => exact .grouped hg
  | list => exact .list hg
  | dictEntry => exact .dictEntry hg
  | dict => exact .dict hg
  | funcLiteral => exact .funcLiteral hg
  | matchResult => exact .matchResult hg
  | select => exact .select hg
  | operand => exact .operand hg
  | argument => exact .argument hg
  | call callee => exact .call hg callee
  | sliceTail opening object low => exact .sliceTail hg opening object low
  | index object => exact .index hg object
  | member object => exact .member object
  | operation left strength => exact .operation hg left strength
  | continuation? level left => exact .continuation? level left
  | operations level limit left => exact .operations hg level limit left
  | expression level => exact .expression hg level
  | simpleStatement => exact .simpleStatement hg
  | scanTarget => exact .scanTarget
  | scanTargets limit => exact .scanTargets limit
  | destructuring => exact .destructuring hg
  | condition word => exact .condition hg word
  | branch after => exact .branch hg after
  | cond => exact .cond hg
  | whileLoop => exact .whileLoop hg
  | checkTargets pos targets => exact .checkTargets pos targets
  | finishForIn pos targets seq => exact .finishForIn hg pos targets seq
  | clauses pos => exact .clauses hg pos
  | forTargets => exact .forTargets
  | forSequence => exact .forSequence hg
  | forLoop => exact .forLoop hg
  | switch => exact .switch hg
  | handler => exact .handler hg
  | finalizer => exact .finalizer hg
  | tryCatch => exact .tryCatch hg
  | funcStatement => exact .funcStatement hg
  | ret => exact .ret hg
  | raise => exact .raise hg
  | defer => exact .defer hg
  | asName => exact .asName
  | importPath context => exact .importPath context
  | importAs => exact .importAs
  | importFrom => exact .importFrom
  | exported => exact .exported hg
  | statement => exact .statement hg

/-! ## Calls in a row -/

/-- A call of a parser from outside. -/
inductive Call where
  | expression (level : Precedence)
  | program

/-- What a call runs. -/
def Call.parse : Call → Parse Unit
  | expression level => do let _ ← parseExpression level
  | program => do let _ ← parseProgram

/-- The state behind a call, which may have failed. -/
def Call.next (st : State) (call : Call) : State := (run call.parse st).2

theorem Call.contained (call : Call) : Contained call.parse := by
  cases call with
  | expression level =>
    refine Contained.bind ?_ fun _ => .pure ()
    exact Contained.get.bind fun st => (Grammar.contained_ofDepth st.weight).expression level
  | program =>
    refine Contained.bind ?_ fun _ => .pure ()
    exact Contained.get.bind fun st =>
      (Contained.statementsUntil (Grammar.contained_ofDepth st.weight) .eof).bind fun _ => .pure _

/-- Every call starts within the tokens and outside of all brackets, whatever was called before. -/
theorem Call.run_within {tokens : List Token} {st : State} (calls : List Call)
    (hst : st.Within tokens) : (calls.foldl next st).Within tokens
      ∧ (calls.foldl next st).nesting = st.nesting := by
  induction calls generalizing st with
  | nil => exact ⟨hst, rfl⟩
  | cons call calls ih =>
    obtain ⟨hwithin, hnesting⟩ := (call.contained tokens st hst).outcome
    obtain ⟨hend, hsame⟩ := ih hwithin
    exact ⟨hend, hsame.trans hnesting⟩

/-- Whatever tokens a parser is given and whatever is called in a row, the cursor is on a token, at
    most on the first one that ends the text, no bracket is left open, and the next call stays in
    bounds. At every number of levels each parser of the grammar stays in bounds from wherever it
    starts, and it leaves as many brackets open as it found. -/
theorem cursor_in_bounds (tokens : List Token) (calls : List Call) :
    let start := State.ofTokens tokens
    let st := calls.foldl Call.next start
    (∃ index, start.tokens[index]? = some st.current ∧ st.tokens = start.tokens.drop index
        ∧ index ≤ start.tokens.findIdx (·.kind = .eof))
      ∧ st.nesting = 0
      ∧ (∀ call : Call, InBounds start.tokens call.parse st)
      ∧ ∀ depth {α : Type} (p : Parse α), Rule (Grammar.ofDepth depth) p →
          ∀ st', st'.Within start.tokens →
            InBounds start.tokens p st' ∧ (run p st').2.nesting = st'.nesting := by
  intro start st
  obtain ⟨hwithin, hnesting⟩ := Call.run_within calls (within_ofTokens tokens)
  refine ⟨hwithin.exists_index, hnesting, fun call => call.contained _ st hwithin, ?_⟩
  intro depth α p hrule st' hst'
  have hbounds := hrule.contained (Grammar.contained_ofDepth depth) start.tokens st' hst'
  exact ⟨hbounds, hbounds.outcome.2⟩

/-- A parenthesis that nothing closes: the parameter list fails between its brackets, and the brackets
    are left all the same. -/
theorem params_unclosed :
    (run params (State.ofTokens [⟨.lparen, "(", none, .start⟩])).1.isOk = false
      ∧ (run params (State.ofTokens [⟨.lparen, "(", none, .start⟩])).2.nesting = 0 := by
  constructor
  · decide
  · exact ((cursor_in_bounds [⟨.lparen, "(", none, .start⟩] [.program]).2.2.2 0 params .params
      (State.ofTokens [⟨.lparen, "(", none, .start⟩]) (within_ofTokens _)).2

end Welle.Parser
