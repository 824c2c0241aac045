import Welle.Proofs.Append.Analysis

set_option autoImplicit false

/-! # The brackets that open scopes

A scope is opened by a bracket, and no bracket opens two scopes. The proof counts along the grammar:
what is read from some tokens opens at a position at most as many scopes as tokens stand there, and
at no position stands more than one. Where nothing is reported every such bracket is closed, by a
bracket of its own, so no two scopes end at the same place. -/

namespace Welle

/-! ## Steps -/

namespace Event

/-- The bracket that opens the scope which a step enters. -/
def opening? : Event → Option Position
  | enter _ opening => some opening
  | _ => none

/-- The brackets that open the scopes of steps. -/
def openings (es : List Event) : List Position := es.filterMap opening?

/-- How many scopes of steps are opened at a position. -/
def opens (p : Position) (es : List Event) : Nat := (openings es).count p

variable (p : Position)

@[simp] theorem opens_nil : opens p [] = 0 := rfl

@[simp] theorem opens_append (es fs : List Event) :
    opens p (es ++ fs) = opens p es + opens p fs := by
  simp [opens, openings, List.filterMap_append]

theorem opens_cons (e : Event) (es : List Event) :
    opens p (e :: es) = e.opening?.toList.count p + opens p es := by
  cases h : e.opening? <;> simp [opens, openings, h, List.count_cons, Nat.add_comm]

@[simp] theorem opens_inScope (start opening : Position) (inner : List Event) :
    opens p (inScope start opening inner) = [opening].count p + opens p inner := by
  simp [inScope, opens_cons, opening?]

theorem opens_of_forall {es : List Event} (h : ∀ e ∈ es, e.opening? = none) : opens p es = 0 := by
  rw [opens, openings, List.filterMap_eq_nil_iff.2 h, List.count_nil]

theorem opens_map {f : Ident → Event} (hf : ∀ id, (f id).opening? = none) (ids : List Ident) :
    opens p (ids.map f) = 0 :=
  opens_of_forall p (by simpa using fun id _ => hf id)

theorem opens_params (ids : List Ident) : opens p (ids.map .param) = 0 :=
  opens_map p (fun _ => rfl) ids

theorem opens_binds (ids : List Ident) : opens p (ids.map .bind) = 0 :=
  opens_map p (fun _ => rfl) ids

theorem opens_aliases (path : String) (ids : List Ident) :
    opens p (ids.map fun id => .importModule id path) = 0 :=
  opens_map p (fun _ => rfl) ids

theorem opens_targets (op : AssignOp) (targets : List Target) :
    opens p (targets.flatMap (ofTarget op)) = 0 := by
  refine opens_of_forall p fun e he => ?_
  obtain ⟨t, -, he⟩ := List.mem_flatMap.1 he
  obtain ⟨id, -, rfl⟩ := List.mem_map.1 he
  rfl

theorem opens_items (path : ImportPath) (items : List ImportItem) :
    opens p (items.map (ofItem path)) = 0 := by
  refine opens_of_forall p fun e he => ?_
  obtain ⟨item, -, rfl⟩ := List.mem_map.1 he
  rfl

end Event

/-- A name that is assigned opens no scope, and neither does its use. -/
theorem Expr.opens_assign (p pos : Position) (target : Expr) (op : AssignOp) (value : Expr) :
    Event.opens p (Expr.assign pos target op value).events
      = Event.opens p target.events + Event.opens p value.events := by
  rw [Expr.events, Event.opens_append]
  split
  next name hname => rw [Expr.events_of_ident? hname]; rfl
  next => rfl

theorem Expr.opens_member (p pos : Position) (object : Expr) (name : Ident) :
    Event.opens p (Expr.member pos object name).events = Event.opens p object.events := by
  rw [Expr.events]
  split
  next base hbase => rw [Expr.events_of_ident? hbase]; rfl
  next => rfl

theorem MatchArm.listEvents_eq (arms : List MatchArm) :
    MatchArm.listEvents arms = arms.flatMap MatchArm.events := by
  induction arms with
  | nil => rfl
  | cons arm arms ih => rw [MatchArm.listEvents, ih, List.flatMap_cons]

theorem SwitchCase.listEvents_eq (cases : List SwitchCase) :
    SwitchCase.listEvents cases = cases.flatMap SwitchCase.events := by
  induction cases with
  | nil => rfl
  | cons c cs ih => rw [SwitchCase.listEvents, ih, List.flatMap_cons]

theorem Expr.optionEvents_eq (e : Option Expr) :
    Expr.optionEvents e = e.toList.flatMap Expr.events := by
  cases e <;> simp [Expr.optionEvents]

theorem Block.optionEvents_eq (body : Option Block) :
    Block.optionEvents body
      = body.toList.flatMap fun body => Event.inScope body.pos body.pos body.inner := by
  cases body <;> simp [Block.optionEvents]

/-! ## Tokens -/

namespace Token

/-- How many of the tokens that a token consists of stand at a position. -/
def stands (p : Position) (t : Token) : Nat := (t.deep.map (·.pos)).count p

theorem le_stands (p : Position) (t : Token) : [t.pos].count p ≤ t.stands p := by
  rw [stands, deep_eq, List.map_cons]
  exact (List.singleton_sublist.2 List.mem_cons_self).count_le p

theorem stands_of_template (p : Position) {t : Token} (h : t.kind = .template) : t.stands p
    = [t.pos].count p
      + (((Template.split t.literal (t.pos.shifted 2)).flatMap segmentDeep).map (·.pos)).count p := by
  rw [stands, deep_of_template h, List.map_cons, ← List.singleton_append, List.count_append]

/-- How many of the tokens that some tokens consist of stand at a position. -/
def standing (p : Position) (ts : List Token) : Nat := ((ts.flatMap deep).map (·.pos)).count p

variable (p : Position)

@[simp] theorem standing_nil : standing p [] = 0 := rfl

@[simp] theorem standing_cons (t : Token) (ts : List Token) :
    standing p (t :: ts) = t.stands p + standing p ts := by
  rw [standing, List.flatMap_cons, List.map_append, List.count_append, stands, standing]

@[simp] theorem standing_append (ts us : List Token) :
    standing p (ts ++ us) = standing p ts + standing p us := by
  simp [standing]

theorem standing_le {ts us : List Token} (h : ts.Sublist us) : standing p ts ≤ standing p us :=
  ((h.flatMap deep).map pos).count_le p

end Token

namespace Grammar

/-! ## Phrases -/

/-- The steps of an item, without those about names. -/
def Item.events : Item → List Event
  | expr e | arg e => e.events
  | entry e => e.events
  | name _ | imported _ | target _ => []

/-- The steps of a phrase, without those about names. -/
def Phrase.events : Phrase → List Event
  | item i => i.events
  | items is | more is => is.flatMap Item.events
  | holes _ es => Expr.listEvents es
  | part e | step e | filter e => Expr.optionEvents e
  | params _ | asName _ => []
  | condition e | result e => e.events
  | matchArms found => found.flatMap (Sum.elim MatchArm.events Expr.events)
  | block body => Event.inScope body.pos body.pos body.inner
  | switchArms found =>
    found.flatMap (Sum.elim SwitchCase.events fun body => Event.inScope body.pos body.pos body.inner)
  | clause s => Stmt.optionEvents s
  | handler h => CatchClause.optionEvents h
  | finalizer body => Block.optionEvents body
  | stmt s => s.events
  | stmts ss => Stmt.listEvents ss

/-- How many tokens of interpolations stand at a position. -/
def Phrase.innerStands (p : Position) : Phrase → Nat
  | holes segments _ => ((segments.flatMap Token.segmentDeep).map (·.pos)).count p
  | _ => 0

theorem opens_exprs (p : Position) (es : List Expr) :
    Event.opens p ((es.map Item.expr).flatMap Item.events) = Event.opens p (Expr.listEvents es) := by
  rw [Expr.listEvents_eq, List.flatMap_map]
  rfl

theorem opens_args (p : Position) (es : List Expr) :
    Event.opens p ((es.map Item.arg).flatMap Item.events) = Event.opens p (Expr.listEvents es) := by
  rw [Expr.listEvents_eq, List.flatMap_map]
  rfl

theorem opens_entries (p : Position) (entries : List DictEntry) :
    Event.opens p ((entries.map Item.entry).flatMap Item.events)
      = Event.opens p (DictEntry.listEvents entries) := by
  rw [DictEntry.listEvents_eq, List.flatMap_map]
  rfl

theorem opens_arms {α β : Type} (f : α → List Event) (g : β → List Event) (p : Position)
    (found : List (α ⊕ β)) :
    Event.opens p ((found.filterMap Sum.getLeft?).flatMap f)
      + Event.opens p ((found.filterMap Sum.getRight?).getLast?.toList.flatMap g)
      ≤ Event.opens p (found.flatMap (Sum.elim f g)) := by
  have harms := count_arms (Event.openings ∘ f) (Event.openings ∘ g) p found
  rw [← Sum.comp_elim] at harms
  simp only [Event.opens, Event.openings, List.filterMap_flatMap]
  exact harms

/-- Every scope that is read is opened by a token of its own. -/
theorem Derives.opens_le {S : Prop} {ts : List Token} {phrase : Phrase} (h : Derives S ts phrase)
    (p : Position) : Event.opens p phrase.events
      ≤ Token.standing p ts + phrase.innerStands p := by
  induction h
  case template ht _ ih =>
    simp only [Phrase.events, Phrase.innerStands, Item.events, Expr.events, Expr.optionEvents,
      List.nil_append, Token.standing_nil, Token.standing_cons, Token.stands_of_template p ht]
      at ih ⊢
    omega
  case tagged ht _ _ _ ihtag ih =>
    simp only [Phrase.events, Phrase.innerStands, Item.events, Expr.events, Expr.optionEvents,
      Event.opens_append, Token.standing_append, Token.standing_nil, Token.standing_cons,
      Token.stands_of_template p ht] at ihtag ih ⊢
    omega
  case holesHole source origin opening segments e es _ _ ih ihs =>
    have hhole : Token.standing p (content (Token.tokenizeAt source origin))
        ≤ (((Token.tokenizeAt source origin).flatMap Token.deep).map (·.pos)).count p :=
      Token.standing_le p (content_sublist _)
    simp only [Phrase.events, Phrase.innerStands, Item.events, Expr.listEvents, Token.segmentDeep,
      Event.opens_append, List.flatMap_cons, List.map_append, List.count_append,
      Token.standing_nil] at ih ihs ⊢
    omega
  case comprehension l _ _ _ _ _ _ _ _ _ _ _ _ _ _ _ _ _ _ ihelem ihseq ihfilter =>
    -- the bracket in front is the token that opens the scope
    have hopening := Token.le_stands p l
    simp only [Phrase.events, Phrase.innerStands, Item.events, Expr.events, Event.opens_append,
      Event.opens_inScope, Event.opens_cons, Event.opens_nil, Event.opening?, Option.toList_none,
      List.count_nil, Token.standing_append, Token.standing_cons] at ihelem ihseq ihfilter ⊢
    omega
  case block l _ _ _ _ _ _ ih | openBlock l _ _ _ _ _ _ ih =>
    have hopening := Token.le_stands p l
    simp only [Phrase.events, Phrase.innerStands, Block.pos, Block.inner,
      Event.opens_inScope, Token.standing_append, Token.standing_cons] at ih ⊢
    omega
  case select found _ _ _ _ _ ihvalue ih =>
    have harms := opens_arms MatchArm.events Expr.events p found
    simp only [Phrase.events, Phrase.innerStands, Item.events, Expr.events, Event.opens_append,
      MatchArm.listEvents_eq, Expr.optionEvents_eq, Token.standing_append, Token.standing_cons]
      at ihvalue ih ⊢
    omega
  case switch found _ _ _ _ _ ihvalue ih =>
    have harms := opens_arms SwitchCase.events
      (fun body => Event.inScope body.pos body.pos body.inner) p found
    simp only [Phrase.events, Phrase.innerStands, Stmt.events, Event.opens_append,
      SwitchCase.listEvents_eq, Block.optionEvents_eq, Token.standing_append, Token.standing_cons]
      at ihvalue ih ⊢
    omega
  case assign _ _ _ _ ihtarget ihvalue =>
    simp only [Phrase.events, Phrase.innerStands, Item.events, Expr.opens_assign,
      Token.standing_append, Token.standing_cons] at ihtarget ihvalue ⊢
    omega
  case member _ _ _ ih =>
    simp only [Phrase.events, Phrase.innerStands, Item.events, Expr.opens_member,
      Token.standing_append] at ih ⊢
    omega
  all_goals
    simp only [Phrase.events, Phrase.innerStands, Item.events, Expr.events, DictEntry.events,
      MatchArm.events, SwitchCase.events, CatchClause.events, Stmt.events, Expr.listEvents,
      Stmt.listEvents, Expr.optionEvents, Block.optionEvents, Stmt.optionEvents,
      CatchClause.optionEvents, Parser.events_toStmt, Event.function, Event.opening?,
      Event.opens_nil, Event.opens_append, Event.opens_cons, Event.opens_inScope,
      Event.opens_params, Event.opens_binds, Event.opens_aliases, Event.opens_targets,
      Event.opens_items, opens_exprs, opens_args, opens_entries, Sum.elim_inl, Sum.elim_inr,
      Token.segmentDeep, Option.toList_some, Option.toList_none, Token.standing_append,
      Token.standing_cons, Token.standing_nil, List.map_cons, List.map_nil, List.flatMap_cons,
      List.flatMap_nil, List.count_nil, List.cons_append, List.nil_append, List.append_nil] at *
    try omega

end Grammar

/-! ## Programs -/

namespace Program

/-- No two scopes of a program are opened by the same bracket. -/
theorem nodup_openings (text : String) :
    (Event.openings (Program.parse text).program.events).Nodup := by
  rw [List.nodup_iff_count_le_one]
  intro p
  obtain ⟨used, hused, hread⟩ := Program.derives_ofTokens (Token.tokenize text)
  have hall : (Parser.State.ofTokens (Token.tokenize text)).tokens = Token.tokenize text :=
    Parser.ofTokens_tokensFrom .start text.toList
  rw [hall] at hused
  have hsub : (Parser.significant used).Sublist (Token.tokenize text) :=
    List.filter_sublist.trans hused.sublist
  calc Event.opens p (Program.parse text).program.events
    _ ≤ Token.standing p (Parser.significant used) := (hread False (by simp)).opens_le p
    _ ≤ Token.standing p (Token.tokenize text) := Token.standing_le p hsub
    _ ≤ 1 := List.nodup_iff_count_le_one.1 (Token.nodup_deep text) p

/-- Where nothing is reported, no two scopes of a program end at the same place. -/
theorem nodup_ends {text : String} (h : (Program.parse text).diagnostics = []) :
    ((Event.spans (.ofText text) (Program.parse text).program.events).map (·.last)).Nodup := by
  have hlast : (Event.spans (.ofText text) (Program.parse text).program.events).map (·.last)
      = (Event.openings (Program.parse text).program.events).map (Bracket.Pairs.ofText text).closeOf := by
    rw [Event.spans, Event.openings, List.map_filterMap, List.map_filterMap]
    refine List.filterMap_congr fun e _ => ?_
    cases e <;> rfl
  rw [hlast]
  refine (nodup_openings text).map_on fun p hp q hq heq => ?_
  -- both brackets are closed, and the bracket that closes them closes no other one
  have hclosed {p : Position} (hp : p ∈ Event.openings (Program.parse text).program.events) :
      (p, (Bracket.Pairs.ofText text).closeOf p) ∈ (Bracket.Pairs.ofText text).closes := by
    obtain ⟨e, he, hopening⟩ := List.mem_filterMap.1 hp
    cases e with
    | enter start opening =>
      obtain rfl := Option.some.inj hopening
      obtain ⟨close, hclose⟩ := closed_of_enter h he
      rw [Bracket.Pairs.closeOf, hclose]
      exact Walk.mem_of_lookup hclose
    | _ => cases hopening
  have hsame := List.inj_on_of_nodup_map (Bracket.Pairs.nodup_closers text) (hclosed hp) (hclosed hq)
    heq
  exact congrArg Prod.fst hsame

/-- Where nothing is reported, every scope of a program ends in front of the end of the text. -/
theorem ends_before {text : String} (h : (Program.parse text).diagnostics = []) {span : Span}
    (hspan : span ∈ Event.spans (.ofText text) (Program.parse text).program.events) :
    span.last < endPosition text := by
  obtain ⟨hproper, hplaces⟩ := (laid_events h).spans span hspan
  obtain ⟨-, t, ht, hle⟩ := hplaces (Span.mem_places.2 ⟨hproper, Position.le_refl _⟩)
  -- the token that the scope ends at stands in front of the one that ends the text
  obtain ⟨-, ⟨front, hfront, hinside⟩, -⟩ := Token.tokenize_spells text
  have hsorted := (Token.spread_deep .start text.toList).sorted
  change ((Token.tokenize text).flatMap Token.deep).Pairwise _ at hsorted
  rw [hfront, List.flatMap_append, List.pairwise_append] at hsorted
  have hcontent : Grammar.content (Token.tokenize text) ⊆ front := by
    rw [Grammar.content, hfront, Token.beforeEnd,
      List.takeWhile_append_of_pos (by simpa using hinside),
      List.takeWhile_cons_of_neg (by simp [Token.endOfText]), List.append_nil]
    exact List.filter_sublist.subset
  obtain ⟨u, hu, ht⟩ := List.mem_flatMap.1 ht
  have hlt := hsorted.2.2 t (List.mem_flatMap.2 ⟨u, hcontent hu, ht⟩)
    (Token.endOfText (endPosition text))
    (List.mem_flatMap.2 ⟨_, List.mem_singleton_self _, Token.mem_deep_self _⟩)
  exact Position.lt_of_le_of_lt hle hlt

end Program

end Welle
