import Welle.Parser

set_option autoImplicit false

/-! # The grammar as a relation

`Derives S tokens phrase` says that the significant tokens `tokens` can be read as `phrase`: a part
of a syntax tree, or a list of such parts. It is the grammar without the order in which a parser
tries things. The switch `S` says that nothing is reported. Without it, tokens may also be left out
where a statement cannot be read, a block may stay open, and a loop may have too many names. -/

namespace Welle

/-- Whether a statement ends in an `if` to which an `else` could still be added. -/
def Stmt.endsOpen : Stmt → Bool
  | .cond _ _ _ none => true
  | .cond _ _ _ (some elseS) => elseS.endsOpen
  | _ => false

/-- Whether a target is starred. -/
def Target.isStarred : Target → Bool
  | starred _ => true
  | name _ | discard _ => false

/-- The texts of a template body. -/
def Template.texts (segments : List Segment) : List String :=
  segments.filterMap fun
    | .text value => some value
    | .hole .. => none

namespace Grammar

/-- An item of a list with commas: an expression, an argument, an entry of a dictionary, a name, an
    imported name, or a target. -/
inductive Item where
  | expr (e : Expr)
  | arg (e : Expr)
  | entry (entry : DictEntry)
  | name (id : Ident)
  | imported (item : ImportItem)
  | target (target : Target)

/-- What tokens can stand for. The phrases in front of `block` are parts of expressions. -/
inductive Phrase where
  | item (i : Item)
  | items (is : List Item)
  | more (is : List Item)
  | holes (segments : List Template.Segment) (es : List Expr)
  | part (e : Option Expr)
  | step (e : Option Expr)
  | filter (e : Option Expr)
  | params (ids : List Ident)
  | condition (e : Expr)
  | result (e : Expr)
  | matchArms (found : List (MatchArm ⊕ Expr))
  | block (body : Block)
  | switchArms (found : List (SwitchCase ⊕ Block))
  | asName (id : Option Ident)
  | clause (s : Option Stmt)
  | handler (handler : Option CatchClause)
  | finalizer (body : Option Block)
  | stmt (s : Stmt)
  | stmts (ss : List Stmt)

/-- An expression. -/
abbrev Phrase.expr (e : Expr) : Phrase := .item (.expr e)

/-- The name that a token writes. -/
abbrev identOf (t : Token) : Ident := ⟨t.literal, t.pos⟩

/-- The significant tokens in front of the end of a text. -/
def content (tokens : List Token) : List Token :=
  (Token.beforeEnd tokens).filter (·.kind ≠ .newline)

/-- The tokens that can be read as a phrase. -/
inductive Derives (S : Prop) : List Token → Phrase → Prop where
  -- Lists
  | itemsNil : Derives S [] (.items [])
  | itemsCons {ts us : List Token} {i : Item} {is : List Item} :
      Derives S ts (.item i) → Derives S us (.more is) → Derives S (ts ++ us) (.items (i :: is))
  | moreNil : Derives S [] (.more [])
  | moreTrailing {comma : Token} : comma.kind = .comma → Derives S [comma] (.more [])
  | moreCons {comma : Token} {ts us : List Token} {i : Item} {is : List Item} :
      comma.kind = .comma → Derives S ts (.item i) → Derives S us (.more is) →
      Derives S (comma :: (ts ++ us)) (.more (i :: is))
  -- Items
  | arg {ts : List Token} {e : Expr} : Derives S ts (.expr e) → Derives S ts (.item (.arg e))
  | spread {dots : Token} {ts : List Token} {e : Expr} :
      dots.kind = .ellipsis → Derives S ts (.expr e) →
      Derives S (dots :: ts) (.item (.arg (.spread dots.pos e)))
  | pair {colon : Token} {ts us : List Token} {key value : Expr} :
      colon.kind = .colon → Derives S ts (.expr key) → Derives S us (.expr value) →
      Derives S (ts ++ colon :: us) (.item (.entry (.pair key value)))
  | shorthand {t : Token} :
      t.kind = .ident → Derives S [t] (.item (.entry (.shorthand (identOf t))))
  | name {t : Token} : t.kind = .ident → Derives S [t] (.item (.name (identOf t)))
  | asNone : Derives S [] (.asName none)
  | asSome {word t : Token} :
      word.kind = .kwAs → t.kind = .ident → Derives S [word, t] (.asName (some (identOf t)))
  | imported {t : Token} {ts : List Token} {asName : Option Ident} :
      t.kind = .ident → Derives S ts (.asName asName) →
      Derives S (t :: ts) (.item (.imported ⟨identOf t, asName⟩))
  | targetName {t : Token} :
      t.kind = .ident → t.literal ≠ "_" → Derives S [t] (.item (.target (.name (identOf t))))
  | targetDiscard {t : Token} :
      t.kind = .ident → t.literal = "_" → Derives S [t] (.item (.target (.discard t.pos)))
  | targetStarred {star t : Token} :
      star.kind = .star → t.kind = .ident →
      Derives S [star, t] (.item (.target (.starred (identOf t))))
  -- Operands
  | ident {t : Token} : t.kind = .ident → Derives S [t] (.expr (.ident (identOf t)))
  | int {t : Token} {value : Int} :
      t.kind = .int ∨ t.kind = .float → Numeral.parse t.literal = .ok (.int value) →
      Derives S [t] (.expr (.int t.pos value))
  | float {t : Token} {value : Double} :
      t.kind = .int ∨ t.kind = .float → Numeral.parse t.literal = .ok (.float value) →
      Derives S [t] (.expr (.float t.pos value))
  | str {t : Token} : t.kind = .str → Derives S [t] (.expr (.str t.pos t.literal))
  | bool {t : Token} {value : Bool} :
      t.kind = (if value then .kwTrue else .kwFalse) → Derives S [t] (.expr (.bool t.pos value))
  | nil {t : Token} : t.kind = .kwNil → Derives S [t] (.expr (.nil t.pos))
  | group {l r : Token} {ts : List Token} {e : Expr} :
      l.kind = .lparen → r.kind = .rparen → Derives S ts (.expr e) →
      Derives S (l :: (ts ++ [r])) (.expr e)
  | tuple {l r : Token} {ts : List Token} {es : List Expr} :
      l.kind = .lparen → r.kind = .rparen → Derives S ts (.items (es.map .expr)) →
      Derives S (l :: (ts ++ [r])) (.expr (.tuple l.pos es))
  | list {l r : Token} {ts : List Token} {es : List Expr} :
      l.kind = .lbracket → r.kind = .rbracket → Derives S ts (.items (es.map .expr)) →
      Derives S (l :: (ts ++ [r])) (.expr (.list l.pos es))
  | comprehension {l word t inWord r : Token} {ts us vs : List Token} {elem seq : Expr}
      {filter : Option Expr} :
      l.kind = .lbracket → word.kind = .kwFor → t.kind = .ident → inWord.kind = .kwIn →
      r.kind = .rbracket → Derives S ts (.expr elem) → Derives S us (.expr seq) →
      Derives S vs (.filter filter) →
      Derives S (l :: (ts ++ word :: t :: inWord :: (us ++ (vs ++ [r]))))
        (.expr (.comprehension l.pos elem (identOf t) seq filter))
  | filterNone : Derives S [] (.filter none)
  | filterSome {word : Token} {ts : List Token} {e : Expr} :
      word.kind = .kwIf → Derives S ts (.expr e) → Derives S (word :: ts) (.filter (some e))
  | dict {hash l r : Token} {ts : List Token} {entries : List DictEntry} :
      hash.kind = .hash → l.kind = .lbrace → r.kind = .rbrace →
      Derives S ts (.items (entries.map .entry)) →
      Derives S (hash :: l :: (ts ++ [r])) (.expr (.dict hash.pos entries))
  | func {word : Token} {ts us : List Token} {params : List Ident} {body : Block} :
      word.kind = .kwFunc → Derives S ts (.params params) → Derives S us (.block body) →
      Derives S (word :: (ts ++ us)) (.expr (.func word.pos params body))
  | params {l r : Token} {ts : List Token} {ids : List Ident} :
      l.kind = .lparen → r.kind = .rparen → Derives S ts (.items (ids.map .name)) →
      Derives S (l :: (ts ++ [r])) (.params ids)
  | condition {l r : Token} {ts : List Token} {e : Expr} :
      l.kind = .lparen → r.kind = .rparen → Derives S ts (.expr e) →
      Derives S (l :: (ts ++ [r])) (.condition e)
  | select {word lb rb : Token} {ts us : List Token} {value : Expr}
      {found : List (MatchArm ⊕ Expr)} :
      word.kind = .kwMatch → lb.kind = .lbrace → rb.kind = .rbrace →
      Derives S ts (.condition value) → Derives S us (.matchArms found) →
      Derives S (word :: (ts ++ lb :: (us ++ [rb])))
        (.expr (.select word.pos value (found.filterMap Sum.getLeft?)
          (found.filterMap Sum.getRight?).getLast?))
  | matchNil : Derives S [] (.matchArms [])
  | matchSeparator {sep : Token} {ts : List Token} {found : List (MatchArm ⊕ Expr)} :
      sep.kind = .semicolon → Derives S ts (.matchArms found) →
      Derives S (sep :: ts) (.matchArms found)
  | matchCase {word : Token} {ts us vs : List Token} {values : List Expr} {result : Expr}
      {found : List (MatchArm ⊕ Expr)} :
      word.kind = .kwCase → values ≠ [] → Derives S ts (.items (values.map .expr)) →
      Derives S us (.result result) → Derives S vs (.matchArms found) →
      Derives S (word :: (ts ++ (us ++ vs))) (.matchArms (.inl ⟨word.pos, values, result⟩ :: found))
  | matchDefault {word : Token} {ts us : List Token} {result : Expr}
      {found : List (MatchArm ⊕ Expr)} :
      word.kind = .kwDefault → Derives S ts (.result result) → Derives S us (.matchArms found) →
      Derives S (word :: (ts ++ us)) (.matchArms (.inr result :: found))
  | result {l r : Token} {before ts behind : List Token} {e : Expr} :
      l.kind = .lbrace → r.kind = .rbrace → (∀ t ∈ before ++ behind, t.kind = .semicolon) →
      Derives S ts (.expr e) →
      Derives S (l :: (before ++ (ts ++ (behind ++ [r])))) (.result e)
  | template {t : Token} {es : List Expr} :
      t.kind = .template → Derives S [] (.holes (Template.split t.literal (t.pos.shifted 2)) es) →
      Derives S [t] (.expr (.template t.pos none
        (Template.texts (Template.split t.literal (t.pos.shifted 2))) es))
  | holesNil : Derives S [] (.holes [] [])
  | holesText {value : String} {segments : List Template.Segment} {es : List Expr} :
      Derives S [] (.holes segments es) → Derives S [] (.holes (.text value :: segments) es)
  | holesHole {source : String} {origin opening : Position} {segments : List Template.Segment}
      {e : Expr} {es : List Expr} :
      Derives S (content (Token.tokenizeAt source origin)) (.expr e) →
      Derives S [] (.holes segments es) →
      Derives S [] (.holes (.hole source origin opening :: segments) (e :: es))
  -- Operators
  | unary {t : Token} {ts : List Token} {op : PrefixOp} {e : Expr} :
      PrefixOp.ofKind? t.kind = some op → Derives S ts (.expr e) →
      Derives S (t :: ts) (.expr (.unary t.pos op e))
  | binary {t : Token} {ts us : List Token} {op : InfixOp} {left right : Expr} :
      InfixOp.ofKind? t.kind = some op → Derives S ts (.expr left) → Derives S us (.expr right) →
      Derives S (ts ++ t :: us) (.expr (.binary t.pos op left right))
  | ternary {question colon : Token} {ts us vs : List Token} {cond thenE elseE : Expr} :
      question.kind = .question → colon.kind = .colon → Derives S ts (.expr cond) →
      Derives S us (.expr thenE) → Derives S vs (.expr elseE) →
      Derives S (ts ++ question :: (us ++ colon :: vs))
        (.expr (.ternary question.pos cond thenE elseE))
  | conditional {word elseWord : Token} {ts us vs : List Token} {thenE cond elseE : Expr} :
      word.kind = .kwIf → elseWord.kind = .kwElse → Derives S ts (.expr thenE) →
      Derives S us (.expr cond) → Derives S vs (.expr elseE) →
      Derives S (ts ++ word :: (us ++ elseWord :: vs))
        (.expr (.conditional word.pos thenE cond elseE))
  | assign {t : Token} {ts us : List Token} {op : AssignOp} {target value : Expr} :
      AssignOp.ofKind? t.kind = some op → Parser.isAssignable op target = true →
      Derives S ts (.expr target) → Derives S us (.expr value) →
      Derives S (ts ++ t :: us) (.expr (.assign t.pos target op value))
  | call {l r : Token} {ts us : List Token} {callee : Expr} {args : List Expr} :
      l.kind = .lparen → r.kind = .rparen → Derives S ts (.expr callee) →
      Derives S us (.items (args.map .arg)) →
      Derives S (ts ++ l :: (us ++ [r])) (.expr (.call l.pos callee args))
  | index {l r : Token} {ts us : List Token} {object index : Expr} :
      l.kind = .lbracket → r.kind = .rbracket → Derives S ts (.expr object) →
      Derives S us (.expr index) →
      Derives S (ts ++ l :: (us ++ [r])) (.expr (.index l.pos object index))
  | slice {l colon r : Token} {ts us vs ws : List Token} {object : Expr}
      {low high step : Option Expr} :
      l.kind = .lbracket → colon.kind = .colon → r.kind = .rbracket →
      Derives S ts (.expr object) → Derives S us (.part low) → Derives S vs (.part high) →
      Derives S ws (.step step) →
      Derives S (ts ++ l :: (us ++ colon :: (vs ++ (ws ++ [r]))))
        (.expr (.slice l.pos object low high step))
  | partNone : Derives S [] (.part none)
  | partSome {ts : List Token} {e : Expr} :
      Derives S ts (.expr e) → Derives S ts (.part (some e))
  | stepNone : Derives S [] (.step none)
  | stepSome {colon : Token} {ts : List Token} {e : Option Expr} :
      colon.kind = .colon → Derives S ts (.part e) → Derives S (colon :: ts) (.step e)
  | member {dot t : Token} {ts : List Token} {object : Expr} :
      dot.kind = .dot → (t.kind = .ident ∨ t.kind.isKeyword = true) → Derives S ts (.expr object) →
      Derives S (ts ++ [dot, t]) (.expr (.member dot.pos object (identOf t)))
  | tagged {t : Token} {ts : List Token} {tag : Expr} {es : List Expr} :
      t.kind = .template → Parser.isTag tag = true → Derives S ts (.expr tag) →
      Derives S [] (.holes (Template.split t.literal (t.pos.shifted 2)) es) →
      Derives S (ts ++ [t]) (.expr (.template t.pos (some tag)
        (Template.texts (Template.split t.literal (t.pos.shifted 2))) es))
  -- Blocks
  | block {l r : Token} {ts : List Token} {ss : List Stmt} :
      l.kind = .lbrace → r.kind = .rbrace → Derives S ts (.stmts ss) →
      Derives S (l :: (ts ++ [r])) (.block ⟨l.pos, ss⟩)
  | openBlock {l : Token} {ts us : List Token} {ss : List Stmt} :
      ¬S → l.kind = .lbrace → Derives S ts (.stmts ss) →
      Derives S (l :: (ts ++ us)) (.block ⟨l.pos, ss⟩)
  | stmtsNil : Derives S [] (.stmts [])
  | stmtsSeparator {sep : Token} {ts : List Token} {ss : List Stmt} :
      sep.kind = .semicolon → Derives S ts (.stmts ss) → Derives S (sep :: ts) (.stmts ss)
  | stmtsSkip {ts us : List Token} {ss : List Stmt} :
      ¬S → Derives S us (.stmts ss) → Derives S (ts ++ us) (.stmts ss)
  | stmtsCons {ts us : List Token} {s : Stmt} {ss : List Stmt} :
      Derives S ts (.stmt s) → Derives S us (.stmts ss) → Derives S (ts ++ us) (.stmts (s :: ss))
  -- Simple statements
  | simple {ts : List Token} {start : Position} {e : Expr} :
      Derives S ts (.expr e) → Derives S ts (.stmt (Parser.toStmt start e))
  | destructure {l r t : Token} {ts us : List Token} {targets : List Target} {op : AssignOp}
      {value : Expr} :
      l.kind = .lparen → r.kind = .rparen → Parser.destructuringOp? t.kind = some op →
      targets ≠ [] → (targets.filter (·.isStarred)).length ≤ 1 →
      Derives S ts (.items (targets.map .target)) → Derives S us (.expr value) →
      Derives S (l :: (ts ++ r :: t :: us)) (.stmt (.destructure l.pos targets op value))
  | ret {word : Token} {ts : List Token} {values : List Expr} :
      word.kind = .kwReturn → Derives S ts (.items (values.map .expr)) →
      Derives S (word :: ts) (.stmt (.ret word.pos values))
  | brk {word : Token} : word.kind = .kwBreak → Derives S [word] (.stmt (.brk word.pos))
  | cont {word : Token} : word.kind = .kwContinue → Derives S [word] (.stmt (.cont word.pos))
  | pass {word : Token} : word.kind = .kwPass → Derives S [word] (.stmt (.pass word.pos))
  | raise {word : Token} {ts : List Token} {value : Expr} :
      word.kind = .kwThrow → Derives S ts (.expr value) →
      Derives S (word :: ts) (.stmt (.raise word.pos value))
  | defer {word : Token} {ts : List Token} {call : Expr} :
      word.kind = .kwDefer → call.isCall = true → Derives S ts (.expr call) →
      Derives S (word :: ts) (.stmt (.defer word.pos call))
  | importAs {word path : Token} {ts : List Token} {asName : Option Ident} :
      word.kind = .kwImport → path.kind = .str → Derives S ts (.asName asName) →
      Derives S (word :: path :: ts)
        (.stmt (.importAs word.pos ⟨path.literal, path.pos⟩ asName))
  | importFrom {word path importWord : Token} {ts : List Token} {items : List ImportItem} :
      word.kind = .kwFrom → path.kind = .str → importWord.kind = .kwImport → items ≠ [] →
      Derives S ts (.items (items.map .imported)) →
      Derives S (word :: path :: importWord :: ts)
        (.stmt (.importFrom word.pos ⟨path.literal, path.pos⟩ items))
  | exported {word : Token} {ts : List Token} {s : Stmt} :
      word.kind = .kwExport → Parser.isExportable s = true → Derives S ts (.stmt s) →
      Derives S (word :: ts) (.stmt (.exported word.pos s))
  -- Statements with blocks
  | blockStmt {ts : List Token} {body : Block} :
      Derives S ts (.block body) → Derives S ts (.stmt (.block body))
  | funcStmt {word t : Token} {ts us : List Token} {params : List Ident} {body : Block} :
      word.kind = .kwFunc → t.kind = .ident → Derives S ts (.params params) →
      Derives S us (.block body) →
      Derives S (word :: t :: (ts ++ us))
        (.stmt (.func word.pos (identOf t) params body))
  | cond {word : Token} {ts us : List Token} {test : Expr} {thenS : Stmt} :
      word.kind = .kwIf → Derives S ts (.condition test) → Derives S us (.stmt thenS) →
      Derives S (word :: (ts ++ us)) (.stmt (.cond word.pos test thenS none))
  | condElse {word elseWord : Token} {ts us vs : List Token} {test : Expr} {thenS elseS : Stmt} :
      word.kind = .kwIf → elseWord.kind = .kwElse → thenS.endsOpen = false →
      Derives S ts (.condition test) → Derives S us (.stmt thenS) → Derives S vs (.stmt elseS) →
      Derives S (word :: (ts ++ (us ++ elseWord :: vs)))
        (.stmt (.cond word.pos test thenS (some elseS)))
  | whileLoop {word : Token} {ts us : List Token} {test : Expr} {body : Block} :
      word.kind = .kwWhile → Derives S ts (.condition test) → Derives S us (.block body) →
      Derives S (word :: (ts ++ us)) (.stmt (.whileLoop word.pos test body))
  | forLoop {word l sep sep' r : Token} {ts us vs ws : List Token} {init post : Option Stmt}
      {test : Option Expr} {body : Block} :
      word.kind = .kwFor → l.kind = .lparen → sep.kind = .semicolon → sep'.kind = .semicolon →
      r.kind = .rparen → Derives S ts (.clause init) → Derives S us (.part test) →
      Derives S vs (.clause post) → Derives S ws (.block body) →
      Derives S (word :: l :: (ts ++ sep :: (us ++ sep' :: (vs ++ r :: ws))))
        (.stmt (.forLoop word.pos init test post body))
  | clauseNone : Derives S [] (.clause none)
  | clauseSome {ts : List Token} {start : Position} {e : Expr} :
      Derives S ts (.expr e) → Derives S ts (.clause (some (Parser.toStmt start e)))
  | forBare {word t inWord : Token} {ts us : List Token} {seq : Expr} {body : Block} :
      word.kind = .kwFor → t.kind = .ident → inWord.kind = .kwIn → Derives S ts (.expr seq) →
      Derives S us (.block body) →
      Derives S (word :: t :: inWord :: (ts ++ us))
        (.stmt (.forIn word.pos (identOf t) none seq body))
  | forParens {word l t inWord r : Token} {ts us : List Token} {seq : Expr} {body : Block} :
      word.kind = .kwFor → l.kind = .lparen → t.kind = .ident → inWord.kind = .kwIn →
      r.kind = .rparen → Derives S ts (.expr seq) → Derives S us (.block body) →
      Derives S (word :: l :: t :: inWord :: (ts ++ r :: us))
        (.stmt (.forIn word.pos (identOf t) none seq body))
  | forGrouped {word l l' r' inWord r : Token} {ts us vs : List Token} {key : Ident}
      {others : List Ident} {seq : Expr} {body : Block} :
      word.kind = .kwFor → l.kind = .lparen → l'.kind = .lparen → r'.kind = .rparen →
      inWord.kind = .kwIn → r.kind = .rparen → (S → others.length = 1) →
      Derives S ts (.items ((key :: others).map .name)) → Derives S us (.expr seq) →
      Derives S vs (.block body) →
      Derives S (word :: l :: l' :: (ts ++ r' :: inWord :: (us ++ r :: vs)))
        (.stmt (.forIn word.pos key others.head? seq body))
  | forOutside {word l r inWord : Token} {ts us vs : List Token} {key : Ident}
      {others : List Ident} {seq : Expr} {body : Block} :
      word.kind = .kwFor → l.kind = .lparen → r.kind = .rparen → inWord.kind = .kwIn →
      (S → others.length = 1) → Derives S ts (.items ((key :: others).map .name)) →
      Derives S us (.expr seq) → Derives S vs (.block body) →
      Derives S (word :: l :: (ts ++ r :: inWord :: (us ++ vs)))
        (.stmt (.forIn word.pos key others.head? seq body))
  | switch {word lb rb : Token} {ts us : List Token} {value : Expr}
      {found : List (SwitchCase ⊕ Block)} :
      word.kind = .kwSwitch → lb.kind = .lbrace → rb.kind = .rbrace →
      Derives S ts (.condition value) → Derives S us (.switchArms found) →
      Derives S (word :: (ts ++ lb :: (us ++ [rb])))
        (.stmt (.switch word.pos value (found.filterMap Sum.getLeft?)
          (found.filterMap Sum.getRight?).getLast?))
  | switchNil : Derives S [] (.switchArms [])
  | switchSeparator {sep : Token} {ts : List Token} {found : List (SwitchCase ⊕ Block)} :
      sep.kind = .semicolon → Derives S ts (.switchArms found) →
      Derives S (sep :: ts) (.switchArms found)
  | switchCase {word : Token} {ts us vs : List Token} {values : List Expr} {body : Block}
      {found : List (SwitchCase ⊕ Block)} :
      word.kind = .kwCase → values ≠ [] → Derives S ts (.items (values.map .expr)) →
      Derives S us (.block body) → Derives S vs (.switchArms found) →
      Derives S (word :: (ts ++ (us ++ vs))) (.switchArms (.inl ⟨word.pos, values, body⟩ :: found))
  | switchDefault {word : Token} {ts us : List Token} {body : Block}
      {found : List (SwitchCase ⊕ Block)} :
      word.kind = .kwDefault → Derives S ts (.block body) → Derives S us (.switchArms found) →
      Derives S (word :: (ts ++ us)) (.switchArms (.inr body :: found))
  | tryCatch {word : Token} {ts us vs : List Token} {body : Block} {handler : Option CatchClause}
      {finalizer : Option Block} :
      word.kind = .kwTry → (handler.isSome || finalizer.isSome) = true →
      Derives S ts (.block body) → Derives S us (.handler handler) →
      Derives S vs (.finalizer finalizer) →
      Derives S (word :: (ts ++ (us ++ vs))) (.stmt (.tryCatch word.pos body handler finalizer))
  | handlerNone : Derives S [] (.handler none)
  | handlerPlain {word : Token} {ts : List Token} {body : Block} :
      word.kind = .kwCatch → Derives S ts (.block body) →
      Derives S (word :: ts) (.handler (some ⟨word.pos, none, body⟩))
  | handlerNamed {word l t r : Token} {ts : List Token} {body : Block} :
      word.kind = .kwCatch → l.kind = .lparen → t.kind = .ident → r.kind = .rparen →
      Derives S ts (.block body) →
      Derives S (word :: l :: t :: r :: ts) (.handler (some ⟨word.pos, some (identOf t), body⟩))
  | finalizerNone : Derives S [] (.finalizer none)
  | finalizerSome {word : Token} {ts : List Token} {body : Block} :
      word.kind = .kwFinally → Derives S ts (.block body) →
      Derives S (word :: ts) (.finalizer (some body))

/-- The last default is one of what was found. -/
theorem inr_mem_of_getLast? {α β : Type} {found : List (α ⊕ β)} {b : β}
    (h : (found.filterMap Sum.getRight?).getLast? = some b) : .inr b ∈ found := by
  obtain ⟨x, hx, hright⟩ := List.mem_filterMap.1 (List.mem_of_getLast? h)
  rw [Sum.getRight?_eq_some_iff] at hright
  exact hright ▸ hx

end Grammar

end Welle
