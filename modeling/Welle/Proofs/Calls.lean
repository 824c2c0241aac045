import Welle.Feature.Signature
import Welle.Proofs.Placement

set_option autoImplicit false

/-! # Calls and their tokens

`calls` lists the calls of a tree, at any depth but not those in the interpolations of templates. Each
of them is written as an argument list in parentheses, somewhere in the tokens of the program.

The scan for the argument at a cursor counts brackets and commas. `Quiet depth tokens` says that some
tokens make no difference to it where so many brackets are open: they close what they open, and their
commas are deeper. Along the grammar this holds of every expression from one open bracket on, and of
lists, statements and cases, which have commas of their own, from two on. -/

namespace Welle

/-- A call in a tree: the opening parenthesis and the arguments. -/
structure CallNode where
  opening : Position
  args : List Expr

mutual

/-- The calls of an expression. Those in the interpolations of a template are left out. -/
def Expr.calls : Expr → List CallNode
  | .ident _ | .int .. | .float .. | .str .. | .bool .. | .nil .. => []
  | .tuple _ items | .list _ items => Expr.listCalls items
  | .dict _ entries => DictEntry.listCalls entries
  | .template _ tag _ _ => Expr.optionCalls tag
  | .func _ _ body => body.calls
  | .unary _ _ operand => operand.calls
  | .binary _ _ left right => left.calls ++ right.calls
  | .ternary _ cond thenE elseE => cond.calls ++ (thenE.calls ++ elseE.calls)
  | .conditional _ thenE cond elseE => thenE.calls ++ (cond.calls ++ elseE.calls)
  | .assign _ target _ value => target.calls ++ value.calls
  | .spread _ value => value.calls
  | .call pos callee args => callee.calls ++ ⟨pos, args⟩ :: Expr.listCalls args
  | .index _ object index => object.calls ++ index.calls
  | .slice _ object low high step =>
    object.calls ++ (Expr.optionCalls low ++ (Expr.optionCalls high ++ Expr.optionCalls step))
  | .member _ object _ => object.calls
  | .comprehension _ elem _ seq filter => elem.calls ++ (seq.calls ++ Expr.optionCalls filter)
  | .select _ value arms fallback =>
    value.calls ++ (MatchArm.listCalls arms ++ Expr.optionCalls fallback)

/-- The calls of expressions. -/
def Expr.listCalls : List Expr → List CallNode
  | [] => []
  | e :: es => e.calls ++ Expr.listCalls es

/-- The calls of an expression that may be missing. -/
def Expr.optionCalls : Option Expr → List CallNode
  | none => []
  | some e => e.calls

/-- The calls of a dictionary entry. -/
def DictEntry.calls : DictEntry → List CallNode
  | .pair key value => key.calls ++ value.calls
  | .shorthand _ => []

/-- The calls of dictionary entries. -/
def DictEntry.listCalls : List DictEntry → List CallNode
  | [] => []
  | e :: es => e.calls ++ DictEntry.listCalls es

/-- The calls of a case of a `match` expression. -/
def MatchArm.calls : MatchArm → List CallNode
  | .mk _ values result => Expr.listCalls values ++ result.calls

/-- The calls of the cases of a `match` expression. -/
def MatchArm.listCalls : List MatchArm → List CallNode
  | [] => []
  | arm :: arms => arm.calls ++ MatchArm.listCalls arms

/-- The calls of a block. -/
def Block.calls : Block → List CallNode
  | .mk _ stmts => Stmt.listCalls stmts

/-- The calls of a block that may be missing. -/
def Block.optionCalls : Option Block → List CallNode
  | none => []
  | some body => body.calls

/-- The calls of a case of a `switch` statement. -/
def SwitchCase.calls : SwitchCase → List CallNode
  | .mk _ values body => Expr.listCalls values ++ body.calls

/-- The calls of the cases of a `switch` statement. -/
def SwitchCase.listCalls : List SwitchCase → List CallNode
  | [] => []
  | c :: cs => c.calls ++ SwitchCase.listCalls cs

/-- The calls of a handler. -/
def CatchClause.calls : CatchClause → List CallNode
  | .mk _ _ body => body.calls

/-- The calls of a handler that may be missing. -/
def CatchClause.optionCalls : Option CatchClause → List CallNode
  | none => []
  | some handler => handler.calls

/-- The calls of a statement. -/
def Stmt.calls : Stmt → List CallNode
  | .expr _ value | .assign _ _ _ value => value.calls
  | .indexAssign _ object index _ value => object.calls ++ index.calls ++ value.calls
  | .memberAssign _ object _ _ value => object.calls ++ value.calls
  | .destructure _ _ _ value => value.calls
  | .cond _ test thenS elseS => test.calls ++ (thenS.calls ++ Stmt.optionCalls elseS)
  | .whileLoop _ test body => test.calls ++ body.calls
  | .forLoop _ init test post body =>
    Stmt.optionCalls init ++ (Expr.optionCalls test ++ (Stmt.optionCalls post ++ body.calls))
  | .forIn _ _ _ seq body => seq.calls ++ body.calls
  | .switch _ value cases fallback =>
    value.calls ++ (SwitchCase.listCalls cases ++ Block.optionCalls fallback)
  | .tryCatch _ body handler finalizer =>
    body.calls ++ (CatchClause.optionCalls handler ++ Block.optionCalls finalizer)
  | .func _ _ _ body => body.calls
  | .exported _ stmt => stmt.calls
  | .ret _ values => Expr.listCalls values
  | .importAs .. | .importFrom .. | .brk _ | .cont _ | .pass _ => []
  | .raise _ value => value.calls
  | .defer _ call => call.calls
  | .block body => body.calls

/-- The calls of statements. -/
def Stmt.listCalls : List Stmt → List CallNode
  | [] => []
  | s :: ss => s.calls ++ Stmt.listCalls ss

/-- The calls of a statement that may be missing. -/
def Stmt.optionCalls : Option Stmt → List CallNode
  | none => []
  | some s => s.calls

end

/-- The calls of a program. -/
def Program.calls (program : Program) : List CallNode := Stmt.listCalls program.stmts

/-! ## Tokens that do not count -/

/-- Whether a kind neither opens nor closes a bracket nor is a comma. -/
def Token.Kind.isNeutral (kind : Token.Kind) : Bool := !Bracket.isBracket kind && kind != .comma

namespace ArgumentCount

theorem next_of_neutral {t : Token} (h : t.kind.isNeutral = true) (count : ArgumentCount) :
    count.next t = count := by
  unfold next
  generalize t.kind = kind at h
  cases kind <;> first | rfl | cases h

theorem next_of_opener {t : Token} {closer : Token.Kind} (h : Bracket.closer? t.kind = some closer)
    (count : ArgumentCount) : count.next t = ⟨count.depth + 1, count.commas⟩ := by
  unfold next
  generalize t.kind = kind at h
  cases kind <;> first | rfl | cases h

theorem next_of_closer {l t : Token} (h : Bracket.closer? l.kind = some t.kind)
    (count : ArgumentCount) : count.next t = ⟨count.depth - 1, count.commas⟩ := by
  unfold next
  generalize t.kind = kind at h
  cases hkind : l.kind <;> rw [hkind] at h <;> cases h <;> rfl

/-- A comma counts directly in the outermost bracket only. -/
theorem next_of_comma {t : Token} (h : t.kind = .comma) (count : ArgumentCount) :
    count.next t = ⟨count.depth, count.commas + if count.depth = 1 then 1 else 0⟩ := by
  unfold next
  rw [h]
  dsimp only
  split <;> rfl

end ArgumentCount

/-- Tokens that change nothing about a count where so many brackets are open, and no comma of which
    counts on the way. -/
structure Quiet (depth : Nat) (ts : List Token) : Prop where
  whole : ∀ count : ArgumentCount, depth ≤ count.depth → ts.foldl ArgumentCount.next count = count
  part : ∀ (count : ArgumentCount) (us : List Token), depth ≤ count.depth → us <+: ts →
    (us.foldl ArgumentCount.next count).commas = count.commas

namespace Quiet

variable {depth : Nat} {ts us : List Token} {t : Token}

theorem mono {more : Nat} (h : Quiet depth ts) (hle : depth ≤ more) : Quiet more ts where
  whole := fun count hdepth => h.whole count (Nat.le_trans hle hdepth)
  part := fun count us hdepth => h.part count us (Nat.le_trans hle hdepth)

theorem nil : Quiet depth [] where
  whole := fun _ _ => rfl
  part := by
    intro count us _ hus
    rw [List.prefix_nil.1 hus, List.foldl_nil]

/-- A token on its own has no part but itself. -/
theorem singleton (h : ∀ count : ArgumentCount, depth ≤ count.depth → count.next t = count) :
    Quiet depth [t] where
  whole := h
  part := by
    intro count us hdepth hus
    rcases List.prefix_cons_iff.1 hus with rfl | ⟨vs, rfl, hvs⟩
    · rfl
    · rw [List.prefix_nil.1 hvs, List.foldl_cons, List.foldl_nil, h count hdepth]

theorem token (h : t.kind.isNeutral = true) : Quiet depth [t] :=
  singleton fun count _ => ArgumentCount.next_of_neutral h count

/-- Inside of the outermost bracket's own brackets, commas do not count. -/
theorem comma (h : t.kind = .comma) (hdepth : 2 ≤ depth) : Quiet depth [t] := by
  refine singleton fun count hcount => ?_
  rw [ArgumentCount.next_of_comma h, if_neg (by omega), Nat.add_zero]

theorem append (hts : Quiet depth ts) (hus : Quiet depth us) : Quiet depth (ts ++ us) where
  whole := by
    intro count hdepth
    rw [List.foldl_append, hts.whole count hdepth, hus.whole count hdepth]
  part := by
    intro count vs hdepth hvs
    obtain ⟨rest, hrest⟩ := hvs
    rcases List.append_eq_append_iff.1 hrest with ⟨ws, hws, -⟩ | ⟨ws, rfl, hws⟩
    · exact hts.part count vs hdepth ⟨ws, hws.symm⟩
    · rw [List.foldl_append, hts.whole count hdepth]
      exact hus.part count ws hdepth ⟨rest, hws.symm⟩

/-- Between brackets there is one more open bracket. -/
theorem bracket {l r : Token} (h : Bracket.closer? l.kind = some r.kind) (hts : Quiet (depth + 1) ts) :
    Quiet depth (l :: (ts ++ [r])) where
  whole := by
    intro count hdepth
    have hinner := hts.whole ⟨count.depth + 1, count.commas⟩ (Nat.succ_le_succ hdepth)
    rw [List.foldl_cons, ArgumentCount.next_of_opener h, List.foldl_append, hinner, List.foldl_cons,
      ArgumentCount.next_of_closer h, List.foldl_nil]
    rfl
  part := by
    intro count us hdepth hus
    rcases List.prefix_cons_iff.1 hus with rfl | ⟨vs, rfl, hvs⟩
    · rfl
    rw [List.foldl_cons, ArgumentCount.next_of_opener h]
    rcases List.prefix_concat_iff.1 hvs with rfl | hvs
    · have hinner := hts.whole ⟨count.depth + 1, count.commas⟩ (Nat.succ_le_succ hdepth)
      rw [List.foldl_append, hinner, List.foldl_cons, ArgumentCount.next_of_closer h, List.foldl_nil]
    · exact hts.part ⟨count.depth + 1, count.commas⟩ vs (Nat.succ_le_succ hdepth) hvs

end Quiet

namespace Grammar

/-! ## Calls in tokens -/

/-- A call is written in some tokens: its arguments stand in parentheses, the first of which is where
    the tree says. -/
def Written (ts : List Token) (call : CallNode) : Prop :=
  ∃ l inner r, l :: (inner ++ [r]) <:+: ts ∧ l.kind = .lparen ∧ l.pos = call.opening
    ∧ r.kind = .rparen ∧ Derives True inner (.items (call.args.map .arg))

theorem Written.mono {ts us : List Token} {call : CallNode} (h : Written ts call) (hts : ts <:+: us) :
    Written us call := by
  obtain ⟨l, inner, r, hpart, hcall⟩ := h
  exact ⟨l, inner, r, hpart.trans hts, hcall⟩

/-- Tokens with calls in them: they are quiet where so many brackets are open, and all the calls are
    written in them. -/
structure Carries (depth : Nat) (ts : List Token) (calls : List CallNode) : Prop where
  quiet : Quiet depth ts
  written : ∀ call ∈ calls, Written ts call

namespace Carries

variable {depth : Nat} {ts us : List Token} {t l r : Token} {cs ds : List CallNode}

theorem nil : Carries depth [] [] := ⟨.nil, by simp⟩

theorem token {kind : Token.Kind} (ht : t.kind = kind) (hkind : kind.isNeutral = true) :
    Carries depth [t] [] := ⟨.token (ht ▸ hkind), by simp⟩

theorem comma (ht : t.kind = .comma) : Carries 2 [t] [] := ⟨.comma ht (Nat.le_refl 2), by simp⟩

/-- The order of calls, and how often they are listed, does not matter. -/
theorem subset (h : Carries depth ts cs) (hsub : ds ⊆ cs) : Carries depth ts ds :=
  ⟨h.quiet, fun call hcall => h.written call (hsub hcall)⟩

theorem append (h : Carries depth ts cs) (h' : Carries depth us ds) :
    Carries depth (ts ++ us) (cs ++ ds) where
  quiet := h.quiet.append h'.quiet
  written := by
    intro call hcall
    rcases List.mem_append.1 hcall with hcall | hcall
    · exact (h.written call hcall).mono (List.prefix_append ts us).isInfix
    · exact (h'.written call hcall).mono (List.suffix_append ts us).isInfix

/-- Tokens without calls behind others. -/
theorem concat (h : Carries depth ts cs) (h' : Carries depth us []) : Carries depth (ts ++ us) cs :=
  (h.append h').subset (List.subset_append_left cs [])

theorem cons {kind : Token.Kind} (ht : t.kind = kind) (hkind : kind.isNeutral = true)
    (h : Carries depth ts cs) : Carries depth (t :: ts) cs :=
  (token ht hkind).append h

theorem silent (h : Carries depth ts cs) : Carries depth ts [] := h.subset (List.nil_subset cs)

/-- What is quiet from one open bracket on is so from two on. -/
theorem deep (h : Carries 1 ts cs) : Carries 2 ts cs := ⟨h.quiet.mono (Nat.le_succ 1), h.written⟩

theorem bracket {kind kind' : Token.Kind} (hl : l.kind = kind) (hr : r.kind = kind')
    (hkind : Bracket.closer? kind = some kind') (h : Carries 2 ts cs) :
    Carries 1 (l :: (ts ++ [r])) cs where
  quiet := h.quiet.bracket (by rw [hl, hr, hkind])
  written := fun call hcall => (h.written call hcall).mono ⟨[l], [r], by simp⟩

theorem separators (h : ∀ t ∈ ts, t.kind = .semicolon) : Carries depth ts [] := by
  induction ts with
  | nil => exact nil
  | cons t ts ih =>
    rw [List.forall_mem_cons] at h
    exact (ih h.2).cons h.1 rfl

end Carries

/-! ## Phrases -/

/-- The calls of an item. -/
def Item.calls : Item → List CallNode
  | expr e | arg e => e.calls
  | entry e => e.calls
  | name _ | imported _ | target _ => []

/-- The calls of a phrase. -/
def Phrase.calls : Phrase → List CallNode
  | item i => i.calls
  | items is | more is => is.flatMap Item.calls
  | holes _ _ => []
  | part e | step e | filter e => Expr.optionCalls e
  | params _ | asName _ => []
  | condition e | result e => e.calls
  | matchArms found => found.flatMap (Sum.elim MatchArm.calls Expr.calls)
  | block body => body.calls
  | switchArms found => found.flatMap (Sum.elim SwitchCase.calls Block.calls)
  | clause s => Stmt.optionCalls s
  | handler h => CatchClause.optionCalls h
  | finalizer body => Block.optionCalls body
  | stmt s => s.calls
  | stmts ss => Stmt.listCalls ss

/-- How many open brackets make a phrase quiet. Lists, cases and statements have commas of their own. -/
def Phrase.depth : Phrase → Nat
  | items _ | more _ | matchArms _ | switchArms _ | stmt _ | stmts _ => 2
  | _ => 1

theorem calls_exprs (es : List Expr) :
    (es.map Item.expr).flatMap Item.calls = Expr.listCalls es := by
  induction es with
  | nil => rfl
  | cons e es ih => rw [List.map_cons, List.flatMap_cons, ih, Expr.listCalls, Item.calls]

theorem calls_args (es : List Expr) :
    (es.map Item.arg).flatMap Item.calls = Expr.listCalls es := by
  induction es with
  | nil => rfl
  | cons e es ih => rw [List.map_cons, List.flatMap_cons, ih, Expr.listCalls, Item.calls]

theorem calls_entries (entries : List DictEntry) :
    (entries.map Item.entry).flatMap Item.calls = DictEntry.listCalls entries := by
  induction entries with
  | nil => rfl
  | cons e es ih => rw [List.map_cons, List.flatMap_cons, ih, DictEntry.listCalls, Item.calls]

theorem Carries.exprs {ts : List Token} {es : List Expr}
    (h : Carries 2 ts (Phrase.items (es.map .expr)).calls) : Carries 2 ts (Expr.listCalls es) :=
  calls_exprs es ▸ h

theorem calls_toStmt (start : Position) (e : Expr) : (Parser.toStmt start e).calls = e.calls := by
  unfold Parser.toStmt
  split <;> simp [Stmt.calls, Expr.calls]

/-- The calls of cases and of the last default are among those of all that was found. -/
theorem calls_arms {α β : Type} {f : α → List CallNode} {g : β → List CallNode}
    {listCalls : List α → List CallNode} {optionCalls : Option β → List CallNode}
    (hlist : ∀ as, listCalls as = as.flatMap f) (hnone : optionCalls none = [])
    (hsome : ∀ b, optionCalls (some b) = g b) (found : List (α ⊕ β)) :
    listCalls (found.filterMap Sum.getLeft?) ++ optionCalls (found.filterMap Sum.getRight?).getLast?
      ⊆ found.flatMap (Sum.elim f g) := by
  refine List.append_subset.2 ⟨fun call hcall => ?_, fun call hcall => ?_⟩
  · rw [hlist] at hcall
    obtain ⟨a, ha, hcall⟩ := List.mem_flatMap.1 hcall
    obtain ⟨x, hx, hleft⟩ := List.mem_filterMap.1 ha
    rw [Sum.getLeft?_eq_some_iff] at hleft
    exact List.mem_flatMap.2 ⟨x, hx, hleft ▸ hcall⟩
  · cases hlast : (found.filterMap Sum.getRight?).getLast? with
    | none =>
      rw [hlast, hnone] at hcall
      cases hcall
    | some b =>
      rw [hlast, hsome] at hcall
      exact List.mem_flatMap.2 ⟨_, inr_mem_of_getLast? hlast, hcall⟩

theorem calls_matchArms (arms : List MatchArm) :
    MatchArm.listCalls arms = arms.flatMap MatchArm.calls := by
  induction arms with
  | nil => rfl
  | cons arm arms ih => rw [MatchArm.listCalls, ih, List.flatMap_cons]

theorem calls_switchCases (cases : List SwitchCase) :
    SwitchCase.listCalls cases = cases.flatMap SwitchCase.calls := by
  induction cases with
  | nil => rfl
  | cons c cs ih => rw [SwitchCase.listCalls, ih, List.flatMap_cons]

theorem neutral_of_prefixOp {kind : Token.Kind} {op : PrefixOp}
    (h : PrefixOp.ofKind? kind = some op) : kind.isNeutral = true := by
  cases kind <;> first | rfl | cases h

theorem neutral_of_infixOp {kind : Token.Kind} {op : InfixOp}
    (h : InfixOp.ofKind? kind = some op) : kind.isNeutral = true := by
  cases kind <;> first | rfl | cases h

theorem neutral_of_assignOp {kind : Token.Kind} {op : AssignOp}
    (h : AssignOp.ofKind? kind = some op) : kind.isNeutral = true := by
  cases kind <;> first | rfl | cases h

theorem neutral_of_keyword {kind : Token.Kind} (h : kind.isKeyword = true) :
    kind.isNeutral = true := by
  cases kind <;> first | rfl | cases h

/-- What is read without a report is quiet where enough brackets are open, and it holds the tokens of
    every call. -/
theorem Derives.carries {ts : List Token} {phrase : Phrase} (h : Derives True ts phrase) :
    Carries phrase.depth ts phrase.calls := by
  induction h with
  | itemsNil | moreNil | asNone | holesNil | filterNone | partNone | stepNone | matchNil | switchNil
  | stmtsNil | clauseNone | handlerNone | finalizerNone => exact .nil
  | itemsCons _ _ ih ih' => exact ih.deep.append ih'
  | moreTrailing hcomma => exact .comma hcomma
  | moreCons hcomma _ _ ih ih' => exact (Carries.comma hcomma).append (ih.deep.append ih')
  | arg _ ih => exact ih
  | spread hdots _ ih => exact ih.cons hdots rfl
  | pair hcolon _ _ ih ih' => exact ih.append (.cons hcolon rfl ih')
  | shorthand ht => exact .token ht rfl
  | name ht => exact .token ht rfl
  | asSome hword ht => exact .cons hword rfl (.token ht rfl)
  | imported ht _ ih => exact .cons ht rfl ih
  | targetName ht _ => exact .token ht rfl
  | targetDiscard ht _ => exact .token ht rfl
  | targetStarred hstar ht => exact .cons hstar rfl (.token ht rfl)
  | ident ht => exact .token ht rfl
  | int ht _ => rcases ht with ht | ht <;> exact .token ht rfl
  | float ht _ => rcases ht with ht | ht <;> exact .token ht rfl
  | str ht => exact .token ht rfl
  | @bool t value ht => cases value <;> exact .token ht rfl
  | nil ht => exact .token ht rfl
  | group hl hr _ ih => exact .bracket hl hr rfl ih.deep
  | tuple hl hr _ ih => exact .bracket hl hr rfl ih.exprs
  | list hl hr _ ih => exact .bracket hl hr rfl ih.exprs
  | comprehension hl hword ht hin hr _ _ _ ih ih' ih'' =>
    have hclause := Carries.cons hword rfl (.cons ht rfl (.cons hin rfl (ih'.deep.append ih''.deep)))
    have hall := Carries.bracket hl hr rfl (ih.deep.append hclause)
    simp only [List.append_assoc, List.cons_append] at hall
    exact hall
  | filterSome hword _ ih => exact .cons hword rfl ih
  | @dict hash l r ts entries hhash hl hr _ ih =>
    have hentries : Carries 2 ts (DictEntry.listCalls entries) := calls_entries entries ▸ ih
    exact .cons hhash rfl (.bracket hl hr rfl hentries)
  | func hword _ _ ih ih' => exact .cons hword rfl (ih.append ih')
  | params hl hr _ ih => exact .bracket hl hr rfl ih.silent
  | condition hl hr _ ih => exact .bracket hl hr rfl ih.deep
  | @select word lb rb ts us value found hword hl hr _ _ ih ih' =>
    have harms : Carries 2 us (MatchArm.listCalls (found.filterMap Sum.getLeft?)
        ++ Expr.optionCalls (found.filterMap Sum.getRight?).getLast?) :=
      ih'.subset (calls_arms calls_matchArms rfl (fun _ => rfl) found)
    exact .cons hword rfl (ih.append (.bracket hl hr rfl harms))
  | matchSeparator hsep _ ih => exact .cons hsep rfl ih
  | @matchCase word ts us vs values result found hword _ _ _ _ ih ih' ih'' =>
    have hcase := (ih.exprs.append ih'.deep).append ih''
    rw [List.append_assoc ts us vs] at hcase
    exact .cons hword rfl hcase
  | matchDefault hword _ _ ih ih' => exact .cons hword rfl (ih.deep.append ih')
  | result hl hr hsep _ ih =>
    rw [List.forall_mem_append] at hsep
    have hinner := (Carries.separators hsep.1).append (ih.deep.append (.separators hsep.2))
    have hall := Carries.bracket hl hr rfl hinner
    simp only [List.append_assoc, List.append_nil, List.nil_append] at hall
    exact hall
  | template ht _ _ => exact .token ht rfl
  | holesText _ ih => exact ih
  | holesHole _ _ _ ih => exact ih
  | unary ht _ ih => exact .cons rfl (neutral_of_prefixOp ht) ih
  | binary ht _ _ ih ih' => exact ih.append (.cons rfl (neutral_of_infixOp ht) ih')
  | ternary hquestion hcolon _ _ _ ih ih' ih'' =>
    exact ih.append (.cons hquestion rfl (ih'.append (.cons hcolon rfl ih'')))
  | conditional hword helse _ _ _ ih ih' ih'' =>
    exact ih.append (.cons hword rfl (ih'.append (.cons helse rfl ih'')))
  | assign ht _ _ _ ih ih' => exact ih.append (.cons rfl (neutral_of_assignOp ht) ih')
  | @call l r ts us callee args hl hr hcallee hargs ih ih' =>
    have hlist : Carries 2 us (Expr.listCalls args) := calls_args args ▸ ih'
    have hall := ih.append (Carries.bracket hl hr rfl hlist)
    refine ⟨hall.quiet, fun call hcall => ?_⟩
    -- the call itself, or one in the callee or in an argument
    rcases List.mem_append.1 hcall with hcall | hcall
    · exact hall.written call (List.mem_append_left _ hcall)
    rcases List.mem_cons.1 hcall with rfl | hcall
    · exact ⟨l, us, r, (List.suffix_append ts _).isInfix, hl, rfl, hr, hargs⟩
    · exact hall.written call (List.mem_append_right _ hcall)
  | index hl hr _ _ ih ih' => exact ih.append (.bracket hl hr rfl ih'.deep)
  | slice hl hcolon hr _ _ _ _ ih ih' ih'' ih''' =>
    have hparts := ih'.append (Carries.cons hcolon rfl (ih''.append ih'''))
    have hall := ih.append (Carries.bracket hl hr rfl hparts.deep)
    simp only [List.append_assoc, List.cons_append] at hall
    exact hall
  | partSome _ ih => exact ih
  | stepSome hcolon _ ih => exact .cons hcolon rfl ih
  | @member dot t ts object hdot ht _ ih =>
    have hname : Carries 1 [t] [] := by
      rcases ht with ht | ht
      · exact .token ht rfl
      · exact .token rfl (neutral_of_keyword ht)
    exact ih.concat (.cons hdot rfl hname)
  | tagged ht _ _ _ ih _ => exact ih.concat (.token ht rfl)
  | block hl hr _ ih => exact .bracket hl hr rfl ih
  | openBlock hnot => exact absurd trivial hnot
  | stmtsSeparator hsep _ ih => exact .cons hsep rfl ih
  | stmtsSkip hnot => exact absurd trivial hnot
  | stmtsCons _ _ ih ih' => exact ih.append ih'
  | @simple ts start e _ ih =>
    show Carries 2 ts (Parser.toStmt start e).calls
    rw [calls_toStmt]
    exact ih.deep
  | destructure hl hr ht _ _ _ _ ih ih' =>
    obtain ⟨hop, -⟩ := Option.filter_eq_some_iff.1 ht
    have htargets := Carries.bracket hl hr rfl ih.silent
    have hall := (htargets.append (.cons rfl (neutral_of_assignOp hop) ih')).deep
    simp only [List.append_assoc, List.cons_append, List.nil_append] at hall
    exact hall
  | ret hword _ ih => exact .cons hword rfl ih.exprs
  | brk hword => exact .token hword rfl
  | cont hword => exact .token hword rfl
  | pass hword => exact .token hword rfl
  | raise hword _ ih => exact .cons hword rfl ih.deep
  | defer hword _ _ ih => exact .cons hword rfl ih.deep
  | importAs hword hpath _ ih => exact .cons hword rfl (.cons hpath rfl ih.silent.deep)
  | importFrom hword hpath himport _ _ ih =>
    exact .cons hword rfl (.cons hpath rfl (.cons himport rfl ih.silent))
  | exported hword _ _ ih => exact .cons hword rfl ih
  | blockStmt _ ih => exact ih.deep
  | funcStmt hword ht _ _ ih ih' => exact .cons hword rfl (.cons ht rfl (ih.append ih').deep)
  | cond hword _ _ ih ih' =>
    exact .cons hword rfl (ih.deep.append (ih'.subset (by simp [Phrase.calls, Stmt.optionCalls])))
  | condElse hword helse _ _ _ _ ih ih' ih'' =>
    exact .cons hword rfl (ih.deep.append (ih'.append (.cons helse rfl ih'')))
  | whileLoop hword _ _ ih ih' => exact .cons hword rfl (ih.append ih').deep
  | forLoop hword hl hsep hsep' hr _ _ _ _ ih ih' ih'' ih''' =>
    have hclauses := ih.append (Carries.cons hsep rfl (ih'.append (.cons hsep' rfl ih'')))
    have hloop := (Carries.bracket hl hr rfl hclauses.deep).append ih'''
    simp only [List.append_assoc, List.cons_append, List.nil_append] at hloop
    exact hloop.deep.cons hword rfl
  | @clauseSome ts start e _ ih =>
    show Carries 1 ts (Parser.toStmt start e).calls
    rw [calls_toStmt]
    exact ih
  | forBare hword ht hin _ _ ih ih' =>
    exact .cons hword rfl (.cons ht rfl (.cons hin rfl (ih.append ih').deep))
  | forParens hword hl ht hin hr _ _ ih ih' =>
    have hhead := Carries.bracket hl hr rfl (.cons ht rfl (.cons hin rfl ih.deep))
    have hloop := hhead.append ih'
    simp only [List.append_assoc, List.cons_append, List.nil_append] at hloop
    exact hloop.deep.cons hword rfl
  | forGrouped hword hl hl' hr' hin hr _ _ _ _ ih ih' ih'' =>
    have hkeys := Carries.bracket hl' hr' rfl ih.silent
    have hhead := Carries.bracket hl hr rfl (hkeys.append (.cons hin rfl ih')).deep
    have hloop := hhead.append ih''
    simp only [List.append_assoc, List.cons_append, List.nil_append] at hloop
    exact hloop.deep.cons hword rfl
  | forOutside hword hl hr hin _ _ _ _ ih ih' ih'' =>
    have hkeys := Carries.bracket hl hr rfl ih.silent
    have hloop := hkeys.append (.cons hin rfl (ih'.append ih''))
    simp only [List.append_assoc, List.cons_append, List.nil_append] at hloop
    exact hloop.deep.cons hword rfl
  | @switch word lb rb ts us value found hword hl hr _ _ ih ih' =>
    have hcases : Carries 2 us (SwitchCase.listCalls (found.filterMap Sum.getLeft?)
        ++ Block.optionCalls (found.filterMap Sum.getRight?).getLast?) :=
      ih'.subset (calls_arms calls_switchCases rfl (fun _ => rfl) found)
    exact .cons hword rfl (ih.append (.bracket hl hr rfl hcases)).deep
  | switchSeparator hsep _ ih => exact .cons hsep rfl ih
  | @switchCase word ts us vs values body found hword _ _ _ _ ih ih' ih'' =>
    have hcase := (ih.exprs.append ih'.deep).append ih''
    rw [List.append_assoc ts us vs] at hcase
    exact .cons hword rfl hcase
  | switchDefault hword _ _ ih ih' => exact .cons hword rfl (ih.deep.append ih')
  | tryCatch hword _ _ _ _ ih ih' ih'' => exact .cons hword rfl (ih.append (ih'.append ih'')).deep
  | handlerPlain hword _ ih => exact .cons hword rfl ih
  | handlerNamed hword hl ht hr _ ih =>
    exact .cons hword rfl ((Carries.bracket hl hr rfl (.token ht rfl)).append ih)
  | finalizerSome hword _ ih => exact .cons hword rfl ih

end Grammar

end Welle
