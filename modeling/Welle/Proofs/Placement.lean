import Welle.Proofs.Layout
import Welle.Proofs.Parser.Progress
import Welle.Proofs.Spelling

set_option autoImplicit false

/-! # The scopes of what is read

What is read without a report is laid out within its tokens. The proof goes along the grammar: every
rule puts the tokens of its parts one behind the other or between brackets, and it makes scopes that
reach from its first token to its last. -/

namespace Welle

/-! ## Steps of lists -/

theorem Expr.listEvents_eq (es : List Expr) : Expr.listEvents es = es.flatMap Expr.events := by
  induction es with
  | nil => rfl
  | cons e es ih => rw [Expr.listEvents, ih, List.flatMap_cons]

theorem DictEntry.listEvents_eq (entries : List DictEntry) :
    DictEntry.listEvents entries = entries.flatMap DictEntry.events := by
  induction entries with
  | nil => rfl
  | cons e entries ih => rw [DictEntry.listEvents, ih, List.flatMap_cons]

theorem Parser.events_toStmt (start : Position) (e : Expr) :
    (Parser.toStmt start e).events = e.events := by
  unfold Parser.toStmt
  split <;> simp [Stmt.events, Expr.events, Expr.ident?]

theorem Expr.events_of_ident? {e : Expr} {id : Ident} (h : e.ident? = some id) :
    e.events = [.use id] := by
  obtain rfl := Expr.eq_of_ident? h
  rfl

/-! ## Kinds that are no brackets -/

namespace Bracket

theorem isBracket_of_prefixOp {kind : Token.Kind} {op : PrefixOp}
    (h : PrefixOp.ofKind? kind = some op) : isBracket kind = false := by
  cases kind <;> first | rfl | cases h

theorem isBracket_of_infixOp {kind : Token.Kind} {op : InfixOp}
    (h : InfixOp.ofKind? kind = some op) : isBracket kind = false := by
  cases kind <;> first | rfl | cases h

theorem isBracket_of_assignOp {kind : Token.Kind} {op : AssignOp}
    (h : AssignOp.ofKind? kind = some op) : isBracket kind = false := by
  cases kind <;> first | rfl | cases h

theorem isBracket_of_keyword {kind : Token.Kind} (h : kind.isKeyword = true) :
    isBracket kind = false := by
  cases kind <;> first | rfl | cases h

/-- Tokens that are no brackets may be left out. -/
theorem foldl_filter {p : Token → Bool} (hp : ∀ t, p t = false → isBracket t.kind = false)
    (ts : List Token) (scan : Scan) : (ts.filter p).foldl Scan.step scan = ts.foldl Scan.step scan := by
  induction ts generalizing scan with
  | nil => rfl
  | cons t ts ih =>
    by_cases ht : p t = true
    · rw [List.filter_cons_of_pos ht, List.foldl_cons, List.foldl_cons, ih]
    · rw [List.filter_cons_of_neg ht, List.foldl_cons, step_of_plain (hp t (by simpa using ht)), ih]

end Bracket

namespace Grammar

/-! ## Texts and their significant tokens -/

theorem pairsOf_content (pos : Position) (cs : List Char) :
    Bracket.pairsOf (content (Token.tokensFrom pos cs)) = Bracket.pairsOf (Token.tokensFrom pos cs) := by
  obtain ⟨front, htokens, hfront⟩ := Token.tokensFrom_eq_concat pos cs
  have hbefore : Token.beforeEnd (Token.tokensFrom pos cs) = front := by
    rw [htokens, Token.beforeEnd, List.takeWhile_append_of_pos (by simpa using hfront),
      List.takeWhile_cons_of_neg (by simp [Token.endOfText]), List.append_nil]
  have hnewline : ∀ t : Token, decide (t.kind ≠ .newline) = false →
      Bracket.isBracket t.kind = false := by
    intro t ht
    have hkind : t.kind = .newline := by simpa using ht
    rw [hkind]
    rfl
  unfold Bracket.pairsOf content
  rw [hbefore, Bracket.foldl_filter hnewline, htokens, List.foldl_append, List.foldl_cons,
    Bracket.step_of_plain rfl, List.foldl_nil]

theorem content_sublist (tokens : List Token) : (content tokens).Sublist tokens :=
  List.filter_sublist.trans (List.takeWhile_sublist _)

/-- The significant tokens of a text are in order and paired as all of its tokens are. -/
theorem ready_content {pairs : Bracket.Pairs} {pos : Position} {cs : List Char}
    (h : Ready pairs (Token.tokensFrom pos cs)) : Ready pairs (content (Token.tokensFrom pos cs)) where
  sorted := h.sorted.sublist ((content_sublist _).flatMap Token.deep)
  closes := by
    intro q hq
    rw [pairsOf_content] at hq
    exact h.closes q hq
  within := fun t ht => h.within t ((content_sublist _).subset ht)

/-! ## Phrases -/

/-- The interpolations of a body are in order, and the table pairs their brackets. -/
structure HolesReady (pairs : Bracket.Pairs) (segments : List Template.Segment) : Prop where
  sorted : (segments.flatMap Token.segmentDeep).Pairwise fun t u => t.pos < u.pos
  closes : ∀ source origin opening, .hole source origin opening ∈ segments →
    pairs.Closes (Token.tokenizeAt source origin)
      ∧ ∀ u ∈ Token.tokenizeAt source origin, pairs.ClosesWithin u

/-- What an item may make: an expression its own steps, a name any steps about it. -/
def Item.Makes : Item → List Event → Prop
  | expr e, es | arg e, es => es = e.events
  | entry e, es => es = e.events
  | name id, es => Event.Plain [id] es
  | imported item, es => Event.Plain item.idents es
  | target t, es => Event.Plain t.ident?.toList es

/-- What some items make one after the other is laid out within the tokens. -/
def ItemsSit (pairs : Bracket.Pairs) (ts : List Token) (is : List Item) : Prop :=
  ∀ (α : Type) (xs : List α) (f : α → Item) (g : α → List Event), xs.map f = is →
    (∀ x, (f x).Makes (g x)) → Sits pairs ts (xs.flatMap g)

/-- The steps of a phrase are laid out within its tokens. A block has no scope of its own: what it
    belongs to makes the scope. -/
def Phrase.Sits (pairs : Bracket.Pairs) (ts : List Token) : Phrase → Prop
  | item i => ∀ es, i.Makes es → Welle.Sits pairs ts es
  | items is | more is => ItemsSit pairs ts is
  | holes segments es => HolesReady pairs segments →
    Laid pairs (segments.flatMap Token.segmentDeep) (Expr.listEvents es)
  | part e | step e | filter e => Welle.Sits pairs ts (Expr.optionEvents e)
  | params ids => Welle.Sits pairs ts (ids.map .param)
  | condition e | result e => Welle.Sits pairs ts e.events
  | matchArms found => Welle.Sits pairs ts (MatchArm.listEvents (found.filterMap Sum.getLeft?)
    ++ Expr.optionEvents (found.filterMap Sum.getRight?).getLast?)
  | block body => Welle.Sits pairs ts body.inner ∧ Braced ts body.pos
  | switchArms found => Welle.Sits pairs ts (SwitchCase.listEvents (found.filterMap Sum.getLeft?)
    ++ Block.optionEvents (found.filterMap Sum.getRight?).getLast?)
  | asName id => ∀ es, Event.Plain id.toList es → Welle.Sits pairs ts es
  | clause s => Welle.Sits pairs ts (Stmt.optionEvents s)
  | handler h => Welle.Sits pairs ts (CatchClause.optionEvents h)
  | finalizer body => Welle.Sits pairs ts (Block.optionEvents body)
  | stmt s => Welle.Sits pairs ts s.events
  | stmts ss => Welle.Sits pairs ts (Stmt.listEvents ss)

namespace ItemsSit

variable {pairs : Bracket.Pairs} {ts : List Token}

theorem nil {α : Type} {xs : List α} {f : α → Item} {g : α → List Event} (h : xs.map f = [])
    (hts : Sits pairs ts []) : Sits pairs ts (xs.flatMap g) := by
  rw [List.map_eq_nil_iff.1 h]
  exact hts

theorem cons {us : List Token} {i : Item} {is : List Item} (hi : (Phrase.item i).Sits pairs ts)
    (his : ItemsSit pairs us is) : ItemsSit pairs (ts ++ us) (i :: is) := by
  intro α xs f g hxs hg
  obtain ⟨x, xs, rfl, rfl, rfl⟩ := List.map_eq_cons_iff.1 hxs
  rw [List.flatMap_cons]
  exact (hi _ (hg x)).append (his α xs f g rfl hg)

theorem exprs {es : List Expr} (h : ItemsSit pairs ts (es.map .expr)) :
    Sits pairs ts (Expr.listEvents es) := by
  rw [Expr.listEvents_eq]
  exact h Expr es .expr Expr.events rfl fun _ => rfl

theorem args {es : List Expr} (h : ItemsSit pairs ts (es.map .arg)) :
    Sits pairs ts (Expr.listEvents es) := by
  rw [Expr.listEvents_eq]
  exact h Expr es .arg Expr.events rfl fun _ => rfl

theorem entries {entries : List DictEntry} (h : ItemsSit pairs ts (entries.map .entry)) :
    Sits pairs ts (DictEntry.listEvents entries) := by
  rw [DictEntry.listEvents_eq]
  exact h DictEntry entries .entry DictEntry.events rfl fun _ => rfl

theorem names {ids : List Ident} {f : Ident → Event} (hf : ∀ id, Event.Plain [id] [f id])
    (h : ItemsSit pairs ts (ids.map .name)) : Sits pairs ts (ids.map f) := by
  rw [List.map_eq_flatMap]
  exact h Ident ids .name (fun id => [f id]) rfl hf

theorem imports {items : List ImportItem} (path : ImportPath)
    (h : ItemsSit pairs ts (items.map .imported)) : Sits pairs ts (items.map (Event.ofItem path)) := by
  rw [List.map_eq_flatMap]
  refine h ImportItem items .imported (fun item => [Event.ofItem path item]) rfl fun item => ?_
  rcases item with ⟨name, _ | asName⟩ <;>
    simp [Item.Makes, Event.Plain, Event.ofItem, Event.isPlain, Event.idents, ImportItem.idents,
      ImportItem.bound]

theorem targets {targets : List Target} (op : AssignOp)
    (h : ItemsSit pairs ts (targets.map .target)) :
    Sits pairs ts (targets.flatMap (Event.ofTarget op)) := by
  refine h Target targets .target (Event.ofTarget op) rfl fun target => ?_
  cases target <;>
    simp [Item.Makes, Event.Plain, Event.ofTarget, Event.isPlain, Event.idents, Target.ident?]

end ItemsSit

/-! ## Templates -/

section Templates

variable {pairs : Bracket.Pairs}

theorem HolesReady.tail {segment : Template.Segment} {segments : List Template.Segment}
    (h : HolesReady pairs (segment :: segments)) : HolesReady pairs segments where
  sorted := by
    have hsorted := h.sorted
    rw [List.flatMap_cons] at hsorted
    exact (List.pairwise_append.1 hsorted).2.1
  closes := fun source origin opening hmem =>
    h.closes source origin opening (List.mem_cons_of_mem _ hmem)

theorem sits_holesHole {source : String} {origin opening : Position}
    {segments : List Template.Segment} {e : Expr} {es : List Expr}
    (he : (Phrase.expr e).Sits pairs (content (Token.tokenizeAt source origin)))
    (hes : (Phrase.holes segments es).Sits pairs []) :
    (Phrase.holes (.hole source origin opening :: segments) (e :: es)).Sits pairs [] := by
  intro hready
  have hsorted := hready.sorted
  rw [List.flatMap_cons] at hsorted
  obtain ⟨hcloses, hwithin⟩ := hready.closes source origin opening List.mem_cons_self
  have hrun : Ready pairs (Token.tokenizeAt source origin) :=
    ⟨(List.pairwise_append.1 hsorted).1, hcloses, hwithin⟩
  have hsub := (content_sublist (Token.tokenizeAt source origin)).flatMap Token.deep
  have hlaid := ((he _ rfl).laid (ready_content hrun)).mono hsub.subset
  have hrest := hes hready.tail
  rw [Expr.listEvents, List.flatMap_cons]
  exact hlaid.append (List.subset_append_left _ _) (hrest.mono (List.subset_append_right _ _))
    (hrest.avoids (foot_apart hsorted))

/-- The interpolations of a template stand inside its token. -/
theorem sits_template {t : Token} {es : List Expr} (ht : t.kind = .template)
    (h : (Phrase.holes (Template.split t.literal (t.pos.shifted 2)) es).Sits pairs []) :
    Sits pairs [t] (Expr.listEvents es) := by
  refine ⟨Bracket.balanced_singleton (by rw [ht]; rfl), fun hready => ?_⟩
  have hsorted := hready.sorted
  rw [List.flatMap_singleton, Token.deep_of_template ht] at hsorted ⊢
  refine (h ⟨(List.pairwise_cons.1 hsorted).2, ?_⟩).mono (List.subset_cons_self _ _)
  intro source origin opening hmem
  obtain ⟨hcloses, hwithin⟩ := hready.within t (List.mem_singleton_self t)
  have hrun : Token.tokenizeAt source origin ∈ Template.holeTokens t := by
    rw [Template.holeTokens, if_pos ht]
    exact List.mem_filterMap.2 ⟨_, hmem, rfl⟩
  exact ⟨hcloses _ hrun, hwithin _ hrun⟩

end Templates

/-! ## Rules -/

section Rules

variable {pairs : Bracket.Pairs} {ts us : List Token}

/-- The steps of the last default come behind those of all cases, wherever it is written. -/
theorem sits_default {β : Type} (events : Option β → List Event) (hnone : events none = [])
    {cases : List Event} {b : β} {bs : List β} (hb : Sits pairs ts (events (some b)))
    (hbs : Sits pairs us (cases ++ events bs.getLast?)) :
    Sits pairs (ts ++ us) (cases ++ events (b :: bs).getLast?) := by
  rw [List.getLast?_cons]
  cases hlast : bs.getLast? with
  | none =>
    rw [hlast, hnone, List.append_nil] at hbs
    exact hb.swap hbs
  | some last =>
    rw [hlast] at hbs
    exact hb.silent.append hbs

/-- The sequence of a loop comes before the names, although it is written behind them. -/
theorem sits_forIn (key : Ident) (value : Option Ident) {word : Token} {seq : Expr} {body : Block}
    (hword : word.kind = .kwFor)
    (hhead : Sits pairs ts (seq.events ++ (key :: value.toList).map .bind))
    (hbody : (Phrase.block body).Sits pairs us) :
    (Phrase.stmt (.forIn word.pos key value seq body)).Sits pairs (word :: (ts ++ us)) :=
  Sits.function (hhead.cons hword rfl) hbody.1 hbody.2

end Rules

/-- What is read without a report is laid out within its tokens. -/
theorem Derives.sits {S : Prop} (hS : S) (pairs : Bracket.Pairs) {ts : List Token} {phrase : Phrase}
    (h : Derives S ts phrase) : phrase.Sits pairs ts := by
  induction h with
  | itemsNil => exact fun α xs f g hxs _ => ItemsSit.nil hxs .nil
  | itemsCons _ _ ih ih' => exact ItemsSit.cons ih ih'
  | moreNil => exact fun α xs f g hxs _ => ItemsSit.nil hxs .nil
  | moreTrailing hcomma => exact fun α xs f g hxs _ => ItemsSit.nil hxs (.token hcomma rfl)
  | moreCons hcomma _ _ ih ih' =>
    intro α xs f g hxs hg
    exact .cons hcomma rfl (ItemsSit.cons ih ih' α xs f g hxs hg)
  | arg _ ih => exact ih
  | spread hdots _ ih =>
    rintro _ rfl
    exact .cons hdots rfl (ih _ rfl)
  | pair hcolon _ _ ih ih' =>
    rintro _ rfl
    exact (ih _ rfl).append (.cons hcolon rfl (ih' _ rfl))
  | shorthand ht =>
    rintro _ rfl
    exact .name ht rfl (Event.plain_singleton rfl rfl)
  | name ht => exact fun es hes => .name ht rfl hes
  | asNone => exact fun es hes => Sits.nil.plain hes
  | asSome hword ht => exact fun es hes => .cons hword rfl (.name ht rfl hes)
  | @imported t ts asName ht _ ih =>
    intro es hes
    have hname : Sits pairs [t] [.use (identOf t)] := .name ht rfl (Event.plain_singleton rfl rfl)
    have huses : Sits pairs ts (asName.toList.map .use) :=
      ih _ (Event.plain_map (fun _ => rfl) (fun _ => rfl) _)
    refine (hname.append huses).plain ?_
    cases asName <;> exact hes
  | targetName ht hne => exact fun es hes => .name ht rfl hes
  | targetDiscard ht _ => exact fun es hes => (Sits.token ht rfl).plain hes
  | targetStarred hstar ht => exact fun es hes => .cons hstar rfl (.name ht rfl hes)
  | ident ht =>
    rintro _ rfl
    exact .name ht rfl (Event.plain_singleton rfl rfl)
  | int ht _ =>
    rintro _ rfl
    rcases ht with ht | ht <;> exact .token ht rfl
  | float ht _ =>
    rintro _ rfl
    rcases ht with ht | ht <;> exact .token ht rfl
  | str ht =>
    rintro _ rfl
    exact .token ht rfl
  | @bool t value ht =>
    rintro _ rfl
    cases value <;> exact .token ht rfl
  | nil ht =>
    rintro _ rfl
    exact .token ht rfl
  | group hl hr _ ih =>
    rintro _ rfl
    exact (ih _ rfl).bracket hl hr rfl
  | tuple hl hr _ ih =>
    rintro _ rfl
    exact (ItemsSit.exprs ih).bracket hl hr rfl
  | list hl hr _ ih =>
    rintro _ rfl
    exact (ItemsSit.exprs ih).bracket hl hr rfl
  | @comprehension l word t inWord r ts us vs elem seq filter hl hword ht hin hr _ _ _ ih ih' ih'' =>
    rintro _ rfl
    -- the sequence is walked in front of the scope, but stands within its brackets
    have hvar : Sits pairs [word, t, inWord] [.bind (identOf t)] :=
      .cons hword rfl ((Sits.name ht rfl (Event.plain_singleton rfl rfl)).append (.token hin rfl))
    have hinner := (ih _ rfl).swap (hvar.append ((ih' _ rfl).silent.append ih''))
    rw [← List.append_assoc] at hinner
    have hscope := Sits.outOf hl hr ((ih _ rfl).append hvar) (ih' _ rfl) ih'' hinner (by
      intro e he
      simp only [List.mem_append, List.nil_append] at he ⊢
      tauto)
    simpa [Expr.events] using hscope
  | filterNone => exact .nil
  | filterSome hword _ ih => exact .cons hword rfl (ih _ rfl)
  | dict hhash hl hr _ ih =>
    rintro _ rfl
    exact .cons hhash rfl ((ItemsSit.entries ih).bracket hl hr rfl)
  | func hword _ _ ih ih' =>
    rintro _ rfl
    exact Sits.function (.cons hword rfl ih) ih'.1 ih'.2
  | params hl hr _ ih =>
    exact (ItemsSit.names (fun _ => Event.plain_singleton rfl rfl) ih).bracket hl hr rfl
  | condition hl hr _ ih => exact (ih _ rfl).bracket hl hr rfl
  | select hword hl hr _ _ ih ih' =>
    rintro _ rfl
    rw [Expr.events, List.append_assoc]
    exact .cons hword rfl (Sits.append ih (Sits.bracket hl hr rfl ih'))
  | matchNil => exact .nil
  | matchSeparator hsep _ ih => exact .cons hsep rfl ih
  | matchCase hword _ _ _ _ ih ih' ih'' =>
    have hcase := (ItemsSit.exprs ih).append (Sits.append ih' ih'')
    simpa [Phrase.Sits, MatchArm.listEvents, MatchArm.events] using hcase.cons hword rfl
  | matchDefault hword _ _ ih ih' =>
    exact Sits.cons hword rfl (sits_default Expr.optionEvents rfl ih ih')
  | result hl hr hsep _ ih =>
    rw [List.forall_mem_append] at hsep
    have hinner := (Sits.separators hsep.1).append ((ih _ rfl).append (Sits.separators hsep.2))
    simpa [Phrase.Sits] using hinner.bracket hl hr rfl
  | template ht _ ih =>
    rintro _ rfl
    exact sits_template ht ih
  | holesNil => exact fun _ => .nil
  | holesText _ ih => exact fun hready => ih hready.tail
  | holesHole _ _ ih ih' => exact sits_holesHole ih ih'
  | unary ht _ ih =>
    rintro _ rfl
    exact .cons rfl (Bracket.isBracket_of_prefixOp ht) (ih _ rfl)
  | binary ht _ _ ih ih' =>
    rintro _ rfl
    exact (ih _ rfl).append (.cons rfl (Bracket.isBracket_of_infixOp ht) (ih' _ rfl))
  | ternary hquestion hcolon _ _ _ ih ih' ih'' =>
    rintro _ rfl
    rw [Expr.events, List.append_assoc]
    exact (ih _ rfl).append
      (.cons hquestion rfl ((ih' _ rfl).append (.cons hcolon rfl (ih'' _ rfl))))
  | conditional hword helse _ _ _ ih ih' ih'' =>
    rintro _ rfl
    rw [Expr.events, List.append_assoc]
    exact (ih _ rfl).append (.cons hword rfl ((ih' _ rfl).append (.cons helse rfl (ih'' _ rfl))))
  | @assign t ts us op target value ht _ _ _ ih ih' =>
    rintro _ rfl
    rw [Expr.events]
    refine Sits.append ?_ (.cons rfl (Bracket.isBracket_of_assignOp ht) (ih' _ rfl))
    split
    next name hname =>
      have huse := ih _ rfl
      rw [Expr.events_of_ident? hname] at huse
      exact huse.plain (Event.plain_singleton rfl rfl)
    next => exact ih _ rfl
  | call hl hr _ _ ih ih' =>
    rintro _ rfl
    exact (ih _ rfl).append ((ItemsSit.args ih').bracket hl hr rfl)
  | index hl hr _ _ ih ih' =>
    rintro _ rfl
    exact (ih _ rfl).append ((ih' _ rfl).bracket hl hr rfl)
  | slice hl hcolon hr _ _ _ _ ih ih' ih'' ih''' =>
    rintro _ rfl
    have hparts := Sits.append ih' (.cons hcolon rfl (Sits.append ih'' ih'''))
    simpa [Expr.events] using (ih _ rfl).append (hparts.bracket hl hr rfl)
  | partNone => exact .nil
  | partSome _ ih => exact ih _ rfl
  | stepNone => exact .nil
  | stepSome hcolon _ ih => exact .cons hcolon rfl ih
  | @member dot t ts object hdot ht _ ih =>
    rintro _ rfl
    have hkind : Bracket.isBracket t.kind = false := by
      rcases ht with ht | ht
      · rw [ht]
        rfl
      · exact Bracket.isBracket_of_keyword ht
    rw [Expr.events]
    split
    next base hbase =>
      have huse := ih _ rfl
      rw [Expr.events_of_ident? hbase] at huse
      have hname : Sits pairs [t] [.use (identOf t)] := .name rfl hkind (Event.plain_singleton rfl rfl)
      refine (huse.append (.cons hdot rfl hname)).plain ?_
      simp [Event.Plain, Event.isPlain, Event.idents]
    next => simpa using (ih _ rfl).append (.cons hdot rfl (.token rfl hkind))
  | tagged ht _ _ _ ih ih' =>
    rintro _ rfl
    exact (ih _ rfl).append (sits_template ht ih')
  | block hl hr _ ih =>
    refine ⟨Sits.bracket hl hr rfl ih, ⟨_, rfl, rfl⟩, ⟨_, ?_, hr, ?_⟩⟩
    · rw [← List.cons_append, List.getLast?_concat]
    · rw [Bracket.pairsOf_bracket (by rw [hl, hr]; rfl) (Sits.balanced ih)]
      exact List.mem_cons_self
  | openBlock hnot => exact absurd hS hnot
  | stmtsNil => exact .nil
  | stmtsSeparator hsep _ ih => exact .cons hsep rfl ih
  | stmtsSkip hnot => exact absurd hS hnot
  | stmtsCons _ _ ih ih' => exact Sits.append ih ih'
  | simple _ ih =>
    show Sits pairs _ (Parser.toStmt _ _).events
    rw [Parser.events_toStmt]
    exact ih _ rfl
  | @destructure l r t ts us targets op value hl hr ht _ _ _ _ ih ih' =>
    obtain ⟨hop, -⟩ := Option.filter_eq_some_iff.1 ht
    have htargets := (ItemsSit.targets op ih).bracket hl hr rfl
    have hall := htargets.append (.cons rfl (Bracket.isBracket_of_assignOp hop) (ih' _ rfl))
    simpa [Phrase.Sits, Stmt.events] using hall
  | ret hword _ ih => exact .cons hword rfl (ItemsSit.exprs ih)
  | brk hword => exact .token hword rfl
  | cont hword => exact .token hword rfl
  | pass hword => exact .token hword rfl
  | raise hword _ ih => exact .cons hword rfl (ih _ rfl)
  | defer hword _ _ ih => exact .cons hword rfl (ih _ rfl)
  | importAs hword hpath _ ih =>
    refine .cons hword rfl (.cons hpath rfl (ih _ ?_))
    exact Event.plain_map (fun _ => rfl) (fun _ => rfl) _
  | importFrom hword hpath himport _ _ ih =>
    exact .cons hword rfl (.cons hpath rfl (.cons himport rfl (ItemsSit.imports _ ih)))
  | exported hword _ _ ih => exact .cons hword rfl ih
  | blockStmt _ ih => exact ih.1.block ih.2
  | @funcStmt word t ts us params body hword ht _ _ ih ih' =>
    have hscope := Sits.function (.cons hword rfl (.cons ht rfl ih)) ih'.1 ih'.2
    exact hscope.before rfl rfl ⟨t, by simp, rfl⟩
  | cond hword _ _ ih ih' =>
    simpa [Phrase.Sits, Stmt.events, Stmt.optionEvents] using Sits.cons hword rfl (Sits.append ih ih')
  | condElse hword helse _ _ _ _ ih ih' ih'' =>
    have hall := Sits.append ih (Sits.append ih' (.cons helse rfl ih''))
    simpa [Phrase.Sits, Stmt.events, Stmt.optionEvents] using hall.cons hword rfl
  | whileLoop hword _ _ ih ih' => exact .cons hword rfl (Sits.append ih (ih'.1.block ih'.2))
  | forLoop hword hl hsep hsep' hr _ _ _ _ ih ih' ih'' ih''' =>
    have hclauses := Sits.append ih (.cons hsep rfl (Sits.append ih' (.cons hsep' rfl ih'')))
    have hloop := Sits.function (.cons hword rfl (hclauses.bracket hl hr rfl)) ih'''.1 ih'''.2
    simpa [Phrase.Sits, Stmt.events] using hloop
  | clauseNone => exact .nil
  | clauseSome _ ih =>
    show Sits pairs _ (Parser.toStmt _ _).events
    rw [Parser.events_toStmt]
    exact ih _ rfl
  | @forBare word t inWord ts us seq body hword ht hin _ _ ih ih' =>
    have hkey : Sits pairs [t] [.bind (identOf t)] := .name ht rfl (Event.plain_singleton rfl rfl)
    exact sits_forIn _ none hword (hkey.swap (.cons hin rfl (ih _ rfl))) ih'
  | @forParens word l t inWord r ts us seq body hword hl ht hin hr _ _ ih ih' =>
    have hkey : Sits pairs [t] [.bind (identOf t)] := .name ht rfl (Event.plain_singleton rfl rfl)
    have hhead := (hkey.swap (.cons hin rfl (ih _ rfl))).bracket hl hr rfl
    simpa using sits_forIn (identOf t) none hword hhead ih'
  | @forGrouped word l l' r' inWord r ts us vs key others seq body hword hl hl' hr' hin hr hone _ _ _
      ih ih' ih'' =>
    -- without a report there is one more name besides the key
    obtain ⟨value, rfl⟩ := List.length_eq_one_iff.1 (hone hS)
    have hkeys := ItemsSit.names (f := .bind) (fun _ => Event.plain_singleton rfl rfl) ih
    have hhead := (hkeys.bracket hl' hr' rfl).swap (.cons hin rfl (ih' _ rfl))
    simpa using sits_forIn key (some value) hword (hhead.bracket hl hr rfl) ih''
  | @forOutside word l r inWord ts us vs key others seq body hword hl hr hin hone _ _ _ ih ih' ih'' =>
    obtain ⟨value, rfl⟩ := List.length_eq_one_iff.1 (hone hS)
    have hkeys := ItemsSit.names (f := .bind) (fun _ => Event.plain_singleton rfl rfl) ih
    have hhead := (hkeys.bracket hl hr rfl).swap (.cons hin rfl (ih' _ rfl))
    simpa using sits_forIn key (some value) hword hhead ih''
  | switch hword hl hr _ _ ih ih' =>
    have hall := Sits.append ih (Sits.bracket hl hr rfl ih')
    simpa [Phrase.Sits, Stmt.events] using hall.cons hword rfl
  | switchNil => exact .nil
  | switchSeparator hsep _ ih => exact .cons hsep rfl ih
  | switchCase hword _ _ _ _ ih ih' ih'' =>
    have hcase := (ItemsSit.exprs ih).append ((ih'.1.block ih'.2).append ih'')
    simpa [Phrase.Sits, SwitchCase.listEvents, SwitchCase.events] using hcase.cons hword rfl
  | switchDefault hword _ _ ih ih' =>
    exact Sits.cons hword rfl (sits_default Block.optionEvents rfl (ih.1.block ih.2) ih')
  | tryCatch hword _ _ _ _ ih ih' ih'' =>
    have hall := (ih.1.block ih.2).append (Sits.append ih' ih'')
    simpa [Phrase.Sits, Stmt.events] using hall.cons hword rfl
  | handlerNone => exact .nil
  | handlerPlain hword _ ih => exact Sits.function (.token hword rfl) ih.1 ih.2
  | @handlerNamed word l t r ts body hword hl ht hr _ ih =>
    have hname : Sits pairs [t] [.bind (identOf t)] := .name ht rfl (Event.plain_singleton rfl rfl)
    exact Sits.function (.cons hword rfl (hname.bracket hl hr rfl)) ih.1 ih.2
  | finalizerNone => exact .nil
  | finalizerSome hword _ ih => exact .cons hword rfl (ih.1.block ih.2)

end Grammar

/-! ## Programs -/

namespace Program

/-- Where nothing is reported, a program is read from all significant tokens of its text. -/
theorem derives_content {text : String} (h : (Program.parse text).diagnostics = []) :
    Grammar.Derives True (Grammar.content (Token.tokenize text))
      (.stmts (Program.parse text).program.stmts) := by
  have hends := Parser.State.ends_ofTokens (Token.tokenize text)
  obtain ⟨program, st, hrun, htokens, -⟩ := Parser.parseProgram_ends hends
  obtain ⟨used, hmoves, hread⟩ := Parser.reads_parseProgram.read hrun
  have hparsed : Program.parse text = ⟨program, st.diagnostics⟩ := by
    unfold Program.parse Program.ofTokens
    rw [hrun]
  rw [hparsed] at h ⊢
  have hall : (Parser.State.ofTokens (Token.tokenize text)).tokens = Token.tokenize text :=
    Parser.ofTokens_tokensFrom .start text.toList
  have hused : used = Token.beforeEnd (Token.tokenize text) := by
    have hsplit := hmoves.tokens
    rw [htokens, hall] at hsplit
    exact List.append_cancel_right (hsplit.symm.trans List.takeWhile_append_dropWhile.symm)
  rw [Grammar.content, ← hused]
  exact hread True fun _ => h

/-- The steps of a program without reports are laid out within the tokens of its text, however far
    open brackets reach: there are none. -/
theorem laid_until {text : String} (h : (Program.parse text).diagnostics = []) (stop : Position) :
    Laid ⟨(Bracket.Pairs.ofText text).closes, stop⟩
      ((Grammar.content (Token.tokenize text)).flatMap Token.deep)
      (Program.parse text).program.events := by
  have hsorted := (Token.spread_deep .start text.toList).sorted
  obtain ⟨hcloses, hwithin⟩ := Bracket.Pairs.closes_until text stop
  have hready : Ready _ (Token.tokenize text) := ⟨hsorted, hcloses, hwithin⟩
  exact ((derives_content h).sits trivial _).laid (Grammar.ready_content hready)

/-- The steps of a program without reports are laid out within the tokens of its text. -/
theorem laid_events {text : String} (h : (Program.parse text).diagnostics = []) :
    Laid (.ofText text) ((Grammar.content (Token.tokenize text)).flatMap Token.deep)
      (Program.parse text).program.events :=
  laid_until h (endPosition text)

end Program

end Welle
