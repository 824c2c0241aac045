import Mathlib.Order.Filter.AtTopBot.Basic
import Welle.Proofs.Printing.Takes
import Welle.Proofs.Printing.Tokens

set_option autoImplicit false

/-! # Operators behind printed expressions

What an expression leads to is said in front of any text (`Leads`): its tokens bring the parser to
the loop over the operators behind it. So calls and members, which are printed without parentheses,
go on from there, and all other operators are applied inside of parentheses. `IsRead` says that a
grammar reads an expression back from the tokens that it is printed with, up to positions; given that
it reads the operands of an operator, so it reads what stands behind the left one. -/

namespace Welle

theorem InfixOp.ofKind?_precedence (op : InfixOp) : ∃ strength,
    Precedence.ofKind? op.kind = some strength ∧ ¬strength ≤ .lowest ∧ strength ≤ .prefixOp
      ∧ op.kind ≠ .template := by
  cases op <;> exact ⟨_, rfl, by decide, by decide, by decide⟩

theorem AssignOp.ofKind?_precedence (op : AssignOp) :
    Precedence.ofKind? op.kind = some .assign ∧ op.kind ≠ .template := by
  cases op <;> exact ⟨rfl, by decide⟩

namespace Parser

open Filter (atTop eventually_atTop)
open Token (Shape mark shape commas further)

/-! ## Lists with commas -/

section Lists

variable {α β κ : Type} {view : α → κ} {tokens : β → List Shape} {value : β → α} {items : List β}
variable {ts us rest : List Token} {r : Token}

/-- The head of further items, or of what stands behind them. -/
theorem head_further {groups : List (List Shape)} (hus : us.map shape = further groups)
    (r : Token) (rest : List Token) :
    ∃ next tail, us ++ r :: rest = next :: tail ∧ (next.kind = .comma ∨ next = r) := by
  cases us with
  | nil => exact ⟨r, rest, rfl, .inr rfl⟩
  | cons t us =>
    cases groups with
    | nil => cases hus
    | cons group groups => exact ⟨t, _, rfl, .inl (congrArg Prod.fst (List.cons.inj hus).1)⟩

/-- Items, each behind a comma, up to a token that is none. -/
theorem takes_further {more : Parse (Option α)} (hr : r.kind ≠ .newline) (hcomma : r.kind ≠ .comma)
    (hmore : ∀ b ∈ items, ∀ ts next rest, ts.map shape = tokens b →
      (next.kind = .comma ∨ next = r) →
      Takes (Option.map view) more ts (next :: rest) (some (value b)))
    (hus : us.map shape = further (items.map tokens)) :
    Takes (List.map view) (many do if ← eat .comma then more else return none) us (r :: rest)
      (items.map value) := by
  refine Rounds.many ?_
  induction items generalizing us with
  | nil =>
    obtain rfl := List.map_eq_nil_iff.1 hus
    refine .stop (by simp) ?_
    refine .eat_bind_of_ne hr hcomma ?_
    exact .pure rfl
  | cons b items ih =>
    rw [List.forall_mem_cons] at hmore
    obtain ⟨comma, tail, rfl, hmark, htail⟩ := List.map_eq_cons_iff.1 hus
    obtain ⟨ts, us, rfl, hts, hus⟩ := List.map_eq_append_iff.1 htail
    obtain ⟨next, behind, hnext, hkind⟩ := head_further hus r rest
    rw [← List.cons_append]
    refine .go (by simp) ?_ (ih hmore.2 hus)
    rw [hnext]
    refine .eat_bind (congrArg Prod.fst hmark) rfl ?_
    exact hmore.1 ts next behind hts hkind

/-- The kind at the head of tokens is that of their first shape. -/
theorem headKind_of_map {s : Shape} {ss : List Shape} (hts : ts.map shape = s :: ss) :
    headKind (ts ++ rest) = s.1 := by
  obtain ⟨t, us, rfl, ht, -⟩ := List.map_eq_cons_iff.1 hts
  exact congrArg Prod.fst ht

/-- A parser takes the tokens of an item in front of a comma or of the token that closes the list. -/
structure IsItem (view : α → κ) (item : Parse α) (close : Token.Kind) (ss : List Shape) (a : α) :
    Prop where
  starts : ∃ s tail, ss = s :: tail ∧ s.1 ≠ close ∧ s.1 ≠ .newline
  takes : ∀ {ts rest : List Token} {next : Token}, ts.map shape = ss →
    next.kind = .comma ∨ next.kind = close → Takes view item ts (next :: rest) a

variable {item : Parse α} {close : Token.Kind}

theorem takes_furtherItemsUntil (hr : r.kind = close) (hclose : isSolid close = true)
    (hcomma : close ≠ .comma) (hitems : ∀ b ∈ items, IsItem view item close (tokens b) (value b))
    (hus : us.map shape = further (items.map tokens)) :
    Takes (List.map view) (furtherItemsUntil close item) us (r :: rest) (items.map value) := by
  subst hr
  refine takes_further (ne_newline_of_isSolid hclose) hcomma (fun b hb ts next behind hts hnext => ?_)
    hus
  obtain ⟨s, tail, hs, hne, hline⟩ := (hitems b hb).starts
  have hhead : headKind (ts ++ next :: behind) = s.1 := headKind_of_map (hs ▸ hts)
  refine .atKind_bind (hhead ▸ hline) ?_
  simp only [hhead, hne, decide_false, Bool.false_eq_true, if_false]
  have hnext' : next.kind = .comma ∨ next.kind = r.kind := hnext.imp_right (congrArg _)
  exact ((hitems b hb).takes hts hnext').map fun a' ha' => congrArg some ha'

theorem takes_itemsUntil (hr : r.kind = close) (hclose : isSolid close = true)
    (hcomma : close ≠ .comma) (hitems : ∀ b ∈ items, IsItem view item close (tokens b) (value b))
    (hus : us.map shape = commas (items.map tokens)) :
    Takes (List.map view) (itemsUntil close item) us (r :: rest) (items.map value) := by
  unfold itemsUntil
  cases items with
  | nil =>
    obtain rfl := List.map_eq_nil_iff.1 hus
    refine .atKind_bind (by simpa [hr] using ne_newline_of_isSolid hclose) ?_
    simp only [List.nil_append, headKind_cons, hr, decide_true, if_true]
    exact .pure rfl
  | cons b items =>
    rw [List.forall_mem_cons] at hitems
    obtain ⟨ts, us, rfl, hts, hus⟩ := List.map_eq_append_iff.1 hus
    obtain ⟨s, tail, hs, hne, hline⟩ := hitems.1.starts
    have hhead : headKind ((ts ++ us) ++ r :: rest) = s.1 := by
      rw [List.append_assoc]
      exact headKind_of_map (hs ▸ hts)
    refine .atKind_bind (hhead ▸ hline) ?_
    simp only [hhead, hne, decide_false, Bool.false_eq_true, if_false]
    obtain ⟨next, behind, hnext, hkind⟩ := head_further hus r rest
    have hkind' : next.kind = .comma ∨ next.kind = close :=
      hkind.imp_right fun heq => by rw [heq, hr]
    refine .bind (hnext ▸ hitems.1.takes hts hkind') fun first hfirst => ?_
    refine .bind_last (takes_furtherItemsUntil hr hclose hcomma hitems.2 hus) fun others hothers => ?_
    exact .pure (by rw [List.map_cons, List.map_cons, List.map_cons, hfirst, hothers])

/-- One or more items in front of a token that closes no list of them. -/
theorem takes_commaSeparated (hr : r.kind = close) (hclose : close ≠ .newline)
    (hcomma : close ≠ .comma) (hitems : ∀ b ∈ items, IsItem view item close (tokens b) (value b))
    (hne : items ≠ []) (hus : us.map shape = commas (items.map tokens)) :
    Takes (List.map view) (commaSeparated item) us (r :: rest) (items.map value) := by
  subst hr
  unfold commaSeparated
  cases items with
  | nil => exact absurd rfl hne
  | cons b items =>
    rw [List.forall_mem_cons] at hitems
    obtain ⟨ts, us, rfl, hts, hus⟩ := List.map_eq_append_iff.1 hus
    obtain ⟨next, behind, hnext, hkind⟩ := head_further hus r rest
    have hkind' : next.kind = .comma ∨ next.kind = r.kind := hkind.imp_right (congrArg _)
    refine .bind (hnext ▸ hitems.1.takes hts hkind') fun first hfirst => ?_
    have hfurther :
        Takes (List.map view) (furtherItems item) us (r :: rest) (items.map value) :=
      takes_further hclose hcomma (fun b hb ts next behind hts hnext =>
        ((hitems.2 b hb).takes hts (hnext.imp_right (congrArg _))).map
          fun a' ha' => congrArg some ha') hus
    refine .bind_last hfurther fun others hothers => ?_
    exact .pure (by rw [List.map_cons, List.map_cons, List.map_cons, hfirst, hothers])

end Lists

/-! ## Expressions and the operators behind them -/

/-- Whether an expression that is read at a level ends in front of a token of this kind. -/
def stops (level : Precedence) (kind : Token.Kind) : Bool :=
  kind ≠ .newline && (Precedence.ofKind? kind).all (· ≤ level)

/-- The tokens of an expression lead to the loop over the operators behind it, which has rounds
    enough for all tokens that are left. -/
def Leads (g : Grammar) (level : Precedence) (ts rest : List Token) (e : Expr) : Prop :=
  ∀ n ds, ∃ e' limit, e'.unplaced = e.unplaced ∧ rest.length ≤ limit
    ∧ run (expression g level) ⟨ts ++ rest, n, ds⟩ = run (operations g level limit e') ⟨rest, n, ds⟩

theorem isTag_unplaced (e : Expr) : isTag e.unplaced = isTag e := by
  cases e <;> rfl

section Leads

variable {g : Grammar} {level strength : Precedence} {ts us rest : List Token} {t : Token}
variable {e left : Expr}

theorem Leads.of_operand (h : Takes Expr.unplaced (operand g) ts rest e) :
    Leads g level ts rest e := by
  intro n ds
  obtain ⟨e', he, hrun⟩ := h n ds
  refine ⟨e', rest.length, he, le_rfl, ?_⟩
  rw [expression, run_bind_ok hrun, run_bind, run_get]

/-- An operator that binds more strongly takes what was read as its left operand. -/
theorem Leads.operation (hleft : Leads g level ts (t :: (us ++ rest)) left)
    (hstrength : Precedence.ofKind? t.kind = some strength) (hlevel : ¬strength ≤ level)
    (htag : t.kind = .template → isTag left = true)
    (hop : ∀ left', left'.unplaced = left.unplaced →
      Takes Expr.unplaced (operation g left' strength) (t :: us) rest e) :
    Leads g level (ts ++ t :: us) rest e := by
  intro n ds
  obtain ⟨left', limit, hleft', hlimit, hrun⟩ := hleft n ds
  obtain ⟨e', he, hrun'⟩ := hop left' hleft' n ds
  rw [List.length_cons, List.length_append] at hlimit
  obtain ⟨limit, rfl⟩ : ∃ k, limit = k + 1 := ⟨limit - 1, by omega⟩
  have hline : t.kind ≠ .newline := by
    intro h
    rw [h] at hstrength
    cases hstrength
  have htag' : t.kind = .template → isTag left' = true := fun hkind => by
    rw [← isTag_unplaced, hleft', isTag_unplaced, htag hkind]
  have hcontinues : run (continuation? level left') ⟨t :: (us ++ rest), n, ds⟩
      = (.ok (some strength), ⟨t :: (us ++ rest), n, ds⟩) := by
    rw [continuation?, run_bind, run_currentKind, (At.cons hline _ n ds).settled]
    by_cases hkind : t.kind = .template
    · simp [State.current, hstrength, hlevel, htag' hkind]
    · simp [State.current, hstrength, hlevel, hkind]
  refine ⟨e', limit, he, by omega, ?_⟩
  rw [List.append_assoc, List.cons_append, hrun, operations, run_bind_ok hcontinues]
  rw [List.cons_append] at hrun'
  exact run_bind_ok hrun' _

/-- Where no operator follows, the expression is read. -/
theorem Leads.takes (h : Leads g level ts (t :: rest) e) (hstop : stops level t.kind = true) :
    Takes Expr.unplaced (expression g level) ts (t :: rest) e := by
  simp only [stops, Bool.and_eq_true, decide_eq_true_eq] at hstop
  intro n ds
  obtain ⟨e', limit, he, hlimit, hrun⟩ := h n ds
  refine ⟨e', he, ?_⟩
  rw [List.length_cons] at hlimit
  obtain ⟨limit, rfl⟩ : ∃ k, limit = k + 1 := ⟨limit - 1, by omega⟩
  have hends : run (continuation? level e') ⟨t :: rest, n, ds⟩ = (.ok none, ⟨t :: rest, n, ds⟩) := by
    rw [continuation?, run_bind, run_currentKind, (At.cons hstop.1 _ n ds).settled]
    have hall := hstop.2
    cases hstrength : Precedence.ofKind? t.kind with
    | none => simp [State.current, hstrength]
    | some strength =>
      rw [hstrength, Option.all_some, decide_eq_true_eq] at hall
      simp [State.current, hstrength, hall]
  rw [hrun, operations, run_bind_ok hends]
  rfl

end Leads

/-- A grammar reads the tokens of an expression, at all levels at which operands are read, as what
    the text of the expression stands for. -/
structure IsRead (g : Grammar) (e : Expr) : Prop where
  starts : Token.Starts e.tokens
  takes : ∀ {level : Precedence} {ts rest : List Token} {next : Token},
    ts.map shape = e.tokens → level ≤ .prefixOp → stops level next.kind = true →
    Takes Expr.unplaced (g.expression level) ts (next :: rest) e.reread

/-- The tokens of an expression lead to what its text stands for, at all levels at which operands are
    read. -/
structure IsLed (g : Grammar) (e : Expr) : Prop where
  starts : Token.Starts e.tokens
  leads : ∀ {level : Precedence} {ts rest : List Token}, ts.map shape = e.tokens →
    level ≤ .prefixOp → Leads g level ts rest e.reread

/-- With levels enough the tokens of an expression lead to what its text stands for. -/
def Restores (e : Expr) : Prop := ∀ᶠ depth in atTop, IsLed (.ofDepth depth) e

/-- What holds of a grammar with levels enough holds of the one a level down. -/
theorem eventually_succ {P : Nat → Prop} (h : ∀ᶠ depth in atTop, P depth) :
    ∀ᶠ depth in atTop, ∃ d, depth = d + 1 ∧ P d := by
  obtain ⟨enough, hP⟩ := eventually_atTop.1 h
  refine eventually_atTop.2 ⟨enough + 1, fun depth hdepth => ?_⟩
  exact ⟨depth - 1, by omega, hP _ (by omega)⟩

theorem IsLed.isRead {d : Nat} {e : Expr} (h : IsLed (.ofDepth d) e) : IsRead (.ofDepth (d + 1)) e :=
  ⟨h.starts, fun hts hlevel hstop => (h.leads hts hlevel).takes hstop⟩

theorem Restores.isRead {e : Expr} (h : Restores e) :
    ∀ᶠ depth in atTop, IsRead (.ofDepth depth) e := by
  filter_upwards [eventually_succ h] with depth hdepth
  obtain ⟨d, rfl, hled⟩ := hdepth
  exact hled.isRead

section Parts

variable {g : Grammar} {level strength : Precedence} {ts us rest : List Token} {l r t : Token}
variable {e left left' right : Expr} {close : Token.Kind}

theorem IsRead.isOperandStart (h : IsRead g e) (hts : ts.map shape = e.tokens) (us : List Token) :
    (headKind (ts ++ us)).isOperandStart = true := by
  obtain ⟨s, tail, htokens, hs, -⟩ := h.starts
  rwa [headKind_of_map (htokens ▸ hts)]

/-- Tokens that no expression starts with. -/
theorem IsRead.headKind_ne (h : IsRead g e) (hts : ts.map shape = e.tokens) (us : List Token)
    {kind : Token.Kind} (hkind : kind.isOperandStart = false) : headKind (ts ++ us) ≠ kind := by
  intro heq
  rw [← heq, h.isOperandStart hts] at hkind
  cases hkind

/-- A token that no expression starts with does not stand in front of one. -/
theorem IsRead.eat_bind {β μ : Type} {view : β → μ} {b : β} {f : Bool → Parse β}
    {kind : Token.Kind} (h : IsRead g e) (hts : ts.map shape = e.tokens)
    (hkind : kind.isOperandStart = false) (hf : Takes view (f false) (ts ++ us) rest b) :
    Takes view (eat kind >>= f) (ts ++ us) rest b := by
  refine .eat_bind_of_ne ?_ ?_ hf
  · rw [List.append_assoc]
    exact h.headKind_ne hts _ rfl
  · rw [List.append_assoc]
    exact h.headKind_ne hts _ hkind

theorem IsRead.isItem (h : IsRead g e) (hclose : close.isOperandStart = false)
    (hstop : stops .lowest close = true) :
    IsItem Expr.unplaced (g.expression .lowest) close e.tokens e.reread := by
  constructor
  · obtain ⟨s, tail, htokens, hs, -⟩ := h.starts
    refine ⟨s, tail, htokens, ?_, ?_⟩
    · rintro heq
      rw [← heq, hs] at hclose
      cases hclose
    · intro heq
      rw [heq] at hs
      cases hs
  · intro ts rest next hts hnext
    refine h.takes hts (by decide) ?_
    rcases hnext with hnext | hnext
    · rw [hnext]
      rfl
    · rwa [hnext]

/-! ## Operators -/

theorem takes_binary {pos : Position} {op : InfixOp} (hright : IsRead g right)
    (hstrength : strength ≤ .prefixOp) (hleft : left'.unplaced = left.unplaced)
    (htokens : ts.map shape = mark op.kind :: right.tokens) (hr : r.kind = .rparen) :
    Takes Expr.unplaced (operation g left' strength) ts (r :: rest)
      (.binary pos op left right.reread) := by
  obtain ⟨t, us, rfl, ht, hus⟩ := List.map_eq_cons_iff.1 htokens
  have hkind : t.kind = op.kind := congrArg Prod.fst ht
  have hsolid : isSolid t.kind = true := by
    rw [hkind]
    cases op <;> rfl
  have hbinary : Takes Expr.unplaced (do
      let _ ← advance
      return .binary t.pos op left' (← g.expression strength)) (t :: us) (r :: rest)
      (.binary pos op left right.reread) := by
    refine .advance_bind hsolid ?_
    refine .bind_last (hright.takes hus hstrength (by rw [hr]; rfl)) fun right' hright' => ?_
    exact .pure (by simp only [Expr.unplaced, hleft, hright'])
  unfold operation
  refine .current_bind (ne_newline_of_isSolid hsolid) ?_
  rw [hkind]
  cases op <;> exact hbinary

theorem isAssignable_unplaced (op : AssignOp) (e : Expr) :
    isAssignable op e.unplaced = isAssignable op e := by
  cases e <;> rfl

theorem takes_assign {pos : Position} {op : AssignOp} {value : Expr} (hvalue : IsRead g value)
    (hassignable : isAssignable op left = true) (hleft : left'.unplaced = left.unplaced)
    (hstrength : strength.weaker ≤ .prefixOp)
    (htokens : ts.map shape = mark op.kind :: value.tokens)
    (hr : stops strength.weaker r.kind = true) :
    Takes Expr.unplaced (operation g left' strength) ts (r :: rest)
      (.assign pos left op value.reread) := by
  obtain ⟨t, us, rfl, ht, hus⟩ := List.map_eq_cons_iff.1 htokens
  have hkind : t.kind = op.kind := congrArg Prod.fst ht
  have hsolid : isSolid t.kind = true := by
    rw [hkind]
    cases op <;> rfl
  have hop : AssignOp.ofKind? t.kind = some op := by rw [hkind, op.ofKind?_kind]
  have hplace : isAssignable op left' = true := by
    rw [← isAssignable_unplaced, hleft, isAssignable_unplaced, hassignable]
  unfold operation
  refine .current_bind (ne_newline_of_isSolid hsolid) ?_
  simp only [hop, hplace, Bool.not_true, Bool.false_eq_true, if_false]
  refine .advance_bind hsolid ?_
  refine .bind_last (hvalue.takes hus hstrength hr) fun value' hvalue' => ?_
  exact .pure (by simp only [Expr.unplaced, hleft, hvalue'])

theorem takes_ternary {pos : Position} {thenE elseE : Expr} (hthen : IsRead g thenE)
    (helse : IsRead g elseE) (hstrength : strength.weaker ≤ .prefixOp)
    (hleft : left'.unplaced = left.unplaced)
    (htokens : ts.map shape = mark .question :: (thenE.tokens ++ (mark .colon :: elseE.tokens)))
    (hr : r.kind = .rparen) :
    Takes Expr.unplaced (operation g left' strength) ts (r :: rest)
      (.ternary pos left thenE.reread elseE.reread) := by
  obtain ⟨t, us, rfl, ht, hus⟩ := List.map_eq_cons_iff.1 htokens
  obtain ⟨ts, us, rfl, hts, hus⟩ := List.map_eq_append_iff.1 hus
  obtain ⟨colon, us, rfl, hcolon, hus⟩ := List.map_eq_cons_iff.1 hus
  have ht : t.kind = .question := congrArg Prod.fst ht
  have hcolon : colon.kind = .colon := congrArg Prod.fst hcolon
  unfold operation
  refine .current_bind (by rw [ht]; decide) ?_
  simp only [ht, AssignOp.ofKind?]
  refine .advance_bind (by rw [ht]; rfl) ?_
  refine .bind (hthen.takes hts (by decide) (by rw [hcolon]; rfl)) fun thenE' hthen' => ?_
  refine .expect_bind hcolon rfl ?_
  refine .bind_last (helse.takes hus hstrength (by rw [hr]; rfl)) fun elseE' helse' => ?_
  exact .pure (by simp only [Expr.unplaced, hleft, hthen', helse'])

theorem takes_conditional {pos : Position} {cond elseE : Expr} (hcond : IsRead g cond)
    (helse : IsRead g elseE) (hstrength : strength.weaker ≤ .prefixOp)
    (hleft : left'.unplaced = left.unplaced)
    (htokens : ts.map shape = mark .kwIf :: (cond.tokens ++ (mark .kwElse :: elseE.tokens)))
    (hr : r.kind = .rparen) :
    Takes Expr.unplaced (operation g left' strength) ts (r :: rest)
      (.conditional pos left cond.reread elseE.reread) := by
  obtain ⟨t, us, rfl, ht, hus⟩ := List.map_eq_cons_iff.1 htokens
  obtain ⟨ts, us, rfl, hts, hus⟩ := List.map_eq_append_iff.1 hus
  obtain ⟨word, us, rfl, hword, hus⟩ := List.map_eq_cons_iff.1 hus
  have ht : t.kind = .kwIf := congrArg Prod.fst ht
  have hword : word.kind = .kwElse := congrArg Prod.fst hword
  unfold operation
  refine .current_bind (by rw [ht]; decide) ?_
  simp only [ht, AssignOp.ofKind?]
  refine .advance_bind (by rw [ht]; rfl) ?_
  refine .bind (hcond.takes hts (by decide) (by rw [hword]; rfl)) fun cond' hcond' => ?_
  refine .expect_bind hword rfl ?_
  refine .bind_last (helse.takes hus hstrength (by rw [hr]; rfl)) fun elseE' helse' => ?_
  exact .pure (by simp only [Expr.unplaced, hleft, hcond', helse'])

theorem takes_call {pos : Position} {args : List Expr}
    (hargs : ∀ e ∈ args, IsItem Expr.unplaced (argument g) .rparen e.tokens e.reread)
    (hleft : left'.unplaced = left.unplaced)
    (htokens : ts.map shape = mark .lparen :: (commas (args.map Expr.tokens) ++ [mark .rparen])) :
    Takes Expr.unplaced (operation g left' strength) ts rest
      (.call pos left (args.map Expr.reread)) := by
  obtain ⟨l, us, rfl, hl, hus⟩ := List.map_eq_cons_iff.1 htokens
  obtain ⟨ts, us, rfl, hts, hus⟩ := List.map_eq_append_iff.1 hus
  obtain ⟨r, rfl, hr⟩ := List.map_eq_singleton_iff.1 hus
  have hl : l.kind = .lparen := congrArg Prod.fst hl
  have hr : r.kind = .rparen := congrArg Prod.fst hr
  unfold operation
  refine .current_bind (by rw [hl]; decide) ?_
  simp only [hl, AssignOp.ofKind?]
  unfold call
  refine .advance_bind (by rw [hl]; rfl) ?_
  refine .nested ?_
  refine .bind (takes_itemsUntil hr rfl (by decide) hargs hts) fun args' hargs' => ?_
  refine .expect_bind hr rfl ?_
  refine .pure ?_
  simp only [Expr.unplaced, Expr.listUnplaced_eq, hleft, hargs']

theorem isSolid_of_isKeyword {kind : Token.Kind} (h : kind.isKeyword = true) :
    isSolid kind = true := by
  cases kind <;> first
    | rfl
    | cases h

theorem takes_member {pos : Position} {name : Ident} (hleft : left'.unplaced = left.unplaced)
    (htokens : ts.map shape = [mark .dot, (Token.Kind.ofWord name.name, name.name)]) :
    Takes Expr.unplaced (operation g left' strength) ts rest (.member pos left name) := by
  obtain ⟨dot, us, rfl, hdot, hus⟩ := List.map_eq_cons_iff.1 htokens
  obtain ⟨t, rfl, ht⟩ := List.map_eq_singleton_iff.1 hus
  have hdot : dot.kind = .dot := congrArg Prod.fst hdot
  have hkind : t.kind = .ofWord name.name := congrArg Prod.fst ht
  have hliteral : t.literal = name.name := congrArg Prod.snd ht
  have hword : (t.kind = .ident || t.kind.isKeyword) = true := by
    simpa [hkind] using Token.Kind.ofWord_eq name.name
  have hsolid : isSolid t.kind = true := by
    simp only [Bool.or_eq_true, decide_eq_true_eq] at hword
    rcases hword with hword | hword
    · rw [hword]
      rfl
    · exact isSolid_of_isKeyword hword
  unfold operation
  refine .current_bind (by rw [hdot]; decide) ?_
  simp only [hdot, AssignOp.ofKind?]
  unfold member
  refine .advance_bind (by rw [hdot]; rfl) ?_
  refine .current_bind (ne_newline_of_isSolid hsolid) ?_
  simp only [hword, if_true]
  refine .advance_bind hsolid ?_
  refine .pure ?_
  simp only [Expr.unplaced, hleft, Ident.unplaced, hliteral]

theorem takes_index {pos : Position} {index : Expr} (hindex : IsRead g index)
    (hleft : left'.unplaced = left.unplaced)
    (htokens : ts.map shape = mark .lbracket :: (index.tokens ++ [mark .rbracket])) :
    Takes Expr.unplaced (operation g left' strength) ts rest (.index pos left index.reread) := by
  obtain ⟨l, us, rfl, hl, hus⟩ := List.map_eq_cons_iff.1 htokens
  obtain ⟨ts, us, rfl, hts, hus⟩ := List.map_eq_append_iff.1 hus
  obtain ⟨r, rfl, hr⟩ := List.map_eq_singleton_iff.1 hus
  have hl : l.kind = .lbracket := congrArg Prod.fst hl
  have hr : r.kind = .rbracket := congrArg Prod.fst hr
  unfold operation
  refine .current_bind (by rw [hl]; decide) ?_
  simp only [hl, AssignOp.ofKind?]
  unfold Parser.index
  refine .advance_bind (by rw [hl]; rfl) ?_
  refine .nested ?_
  refine hindex.eat_bind hts rfl ?_
  refine .bind (hindex.takes hts (by decide) (by rw [hr]; rfl)) fun index' hindex' => ?_
  refine .eat_bind_of_ne (by simp [hr]) (by simp [hr]) ?_
  refine .expect_bind hr rfl ?_
  exact .pure (by simp only [Expr.unplaced, hleft, hindex'])

/-- The rest of a slice behind its first part. -/
theorem takes_slice_step {opening pos : Position} {low low' high high' step : Option Expr}
    (hstep : ∀ e ∈ step, IsRead g e) (hleft : left'.unplaced = left.unplaced)
    (hlow : low'.map Expr.unplaced = (low.map Expr.reread).map Expr.unplaced)
    (hhigh : high'.map Expr.unplaced = (high.map Expr.reread).map Expr.unplaced)
    (htokens : ts.map shape = Expr.tokensBetween [mark .colon] [] step ++ [mark .rbracket]) :
    Takes Expr.unplaced (do
      let step ← if ← eat .colon then
          if ← atKind .rbracket then pure none else some <$> g.expression .lowest
        else pure none
      let _ ← expect .rbracket "to close slice"
      return .slice opening left' low' high' step) ts rest
      (.slice pos left (low.map Expr.reread) (high.map Expr.reread) (step.map Expr.reread)) := by
  -- with or without a step the bracket follows
  have hends {step' : Option Expr} {r : Token} (hr : r.kind = .rbracket)
      (hstep' : step'.map Expr.unplaced = (step.map Expr.reread).map Expr.unplaced) :
      Takes Expr.unplaced (do
        let _ ← expect .rbracket "to close slice"
        return .slice opening left' low' high' step') [r] rest
        (.slice pos left (low.map Expr.reread) (high.map Expr.reread) (step.map Expr.reread)) := by
    refine .expect_bind hr rfl ?_
    refine .pure ?_
    simp only [Expr.unplaced, Expr.optionUnplaced_eq, hleft, hlow, hhigh, hstep']
  cases step with
  | none =>
    obtain ⟨r, rfl, hr⟩ := List.map_eq_singleton_iff.1 htokens
    have hr : r.kind = .rbracket := congrArg Prod.fst hr
    refine .eat_bind_of_ne (by simp [hr]) (by simp [hr]) ?_
    exact hends hr rfl
  | some e =>
    have he := hstep e rfl
    obtain ⟨colon, us, rfl, hcolon, hus⟩ := List.map_eq_cons_iff.1 htokens
    obtain ⟨ts, us, rfl, hts, hus⟩ := List.map_eq_append_iff.1 hus
    obtain ⟨r, rfl, hr⟩ := List.map_eq_singleton_iff.1 hus
    have hcolon : colon.kind = .colon := congrArg Prod.fst hcolon
    have hr : r.kind = .rbracket := congrArg Prod.fst hr
    rw [List.append_nil] at hts
    have hhead : headKind ((ts ++ [r]) ++ rest) ≠ .newline
        ∧ headKind ((ts ++ [r]) ++ rest) ≠ .rbracket := by
      rw [List.append_assoc]
      exact ⟨he.headKind_ne hts _ rfl, he.headKind_ne hts _ rfl⟩
    refine .eat_bind hcolon rfl ?_
    refine .atKind_bind hhead.1 ?_
    simp only [hhead.2, decide_false, Bool.false_eq_true, if_false]
    have hsome : Takes (Option.map Expr.unplaced) (some <$> g.expression .lowest) ts ([r] ++ rest)
        (some e.reread) :=
      (he.takes hts (by decide) (by rw [hr]; rfl)).map fun e' he' => congrArg some he'
    refine .bind hsome fun step' hstep' => ?_
    exact hends hr hstep'

/-- A slice behind its first colon. -/
theorem takes_sliceTail {opening pos : Position} {low low' high step : Option Expr}
    (hhigh : ∀ e ∈ high, IsRead g e) (hstep : ∀ e ∈ step, IsRead g e)
    (hleft : left'.unplaced = left.unplaced)
    (hlow : low'.map Expr.unplaced = (low.map Expr.reread).map Expr.unplaced)
    (htokens : ts.map shape = Expr.tokensBetween [] [] high
      ++ (Expr.tokensBetween [mark .colon] [] step ++ [mark .rbracket])) :
    Takes Expr.unplaced (sliceTail g opening left' low') ts rest
      (.slice pos left (low.map Expr.reread) (high.map Expr.reread) (step.map Expr.reread)) := by
  unfold sliceTail
  obtain ⟨ts, us, rfl, hts, hus⟩ := List.map_eq_append_iff.1 htokens
  -- what stands behind the second part ends it
  have hnext : ∃ next tail, us ++ rest = next :: tail
      ∧ (next.kind = .colon ∨ next.kind = .rbracket) := by
    cases step with
    | none =>
      obtain ⟨r, rfl, hr⟩ := List.map_eq_singleton_iff.1 hus
      exact ⟨r, rest, rfl, .inr (congrArg Prod.fst hr)⟩
    | some e =>
      obtain ⟨colon, us, rfl, hcolon, -⟩ := List.map_eq_cons_iff.1 hus
      exact ⟨colon, us ++ rest, rfl, .inl (congrArg Prod.fst hcolon)⟩
  obtain ⟨next, tail, hnext, hkind⟩ := hnext
  cases high with
  | none =>
    obtain rfl := List.map_eq_nil_iff.1 hts
    rw [List.nil_append]
    refine .currentKind_bind ?_ ?_
    · rcases hkind with hkind | hkind <;> simp [hnext, hkind]
    · rw [hnext, headKind_cons]
      rcases hkind with hkind | hkind <;>
      · rw [hkind]
        exact takes_slice_step hstep hleft hlow rfl hus
  | some e =>
    have he := hhigh e rfl
    simp only [Expr.tokensBetween, List.nil_append, List.append_nil] at hts
    refine .currentKind_bind ?_ ?_
    · rw [List.append_assoc]
      exact he.headKind_ne hts _ rfl
    split
    next hcolon => exact absurd hcolon (by rw [List.append_assoc]; exact he.headKind_ne hts _ rfl)
    next hend => exact absurd hend (by rw [List.append_assoc]; exact he.headKind_ne hts _ rfl)
    next =>
      have hstop : stops .lowest next.kind = true := by
        rcases hkind with hkind | hkind <;> rw [hkind] <;> rfl
      have hsome : Takes (Option.map Expr.unplaced) (some <$> g.expression .lowest) ts
          (us ++ rest) (some e.reread) := by
        rw [hnext]
        exact (he.takes hts (by decide) hstop).map fun e' he' => congrArg some he'
      refine .bind hsome fun high' hhigh' => ?_
      exact takes_slice_step hstep hleft hlow hhigh' hus

theorem takes_slice {pos : Position} {low high step : Option Expr}
    (hlow : ∀ e ∈ low, IsRead g e) (hhigh : ∀ e ∈ high, IsRead g e) (hstep : ∀ e ∈ step, IsRead g e)
    (hleft : left'.unplaced = left.unplaced)
    (htokens : ts.map shape = mark .lbracket :: (Expr.tokensBetween [] [] low
      ++ (mark .colon :: (Expr.tokensBetween [] [] high
        ++ (Expr.tokensBetween [mark .colon] [] step ++ [mark .rbracket]))))) :
    Takes Expr.unplaced (operation g left' strength) ts rest
      (.slice pos left (low.map Expr.reread) (high.map Expr.reread) (step.map Expr.reread)) := by
  obtain ⟨l, us, rfl, hl, hbody⟩ := List.map_eq_cons_iff.1 htokens
  obtain ⟨ts, us, rfl, hts, hbehind⟩ := List.map_eq_append_iff.1 hbody
  obtain ⟨colon, us, rfl, hcolon, htail⟩ := List.map_eq_cons_iff.1 hbehind
  have hl : l.kind = .lbracket := congrArg Prod.fst hl
  have hcolon : colon.kind = .colon := congrArg Prod.fst hcolon
  unfold operation
  refine .current_bind (by rw [hl]; decide) ?_
  simp only [hl, AssignOp.ofKind?]
  unfold Parser.index
  refine .advance_bind (by rw [hl]; rfl) ?_
  refine .nested ?_
  cases low with
  | none =>
    obtain rfl := List.map_eq_nil_iff.1 hts
    refine .eat_bind hcolon rfl ?_
    exact takes_sliceTail hhigh hstep hleft rfl htail
  | some e =>
    have he := hlow e rfl
    simp only [Expr.tokensBetween, List.nil_append, List.append_nil] at hts
    refine he.eat_bind hts rfl ?_
    refine .bind (he.takes hts (by decide) (by rw [hcolon]; rfl)) fun low' hlow' => ?_
    refine .eat_bind hcolon rfl ?_
    exact takes_sliceTail hhigh hstep hleft (congrArg some hlow') htail

end Parts

end Parser

end Welle
