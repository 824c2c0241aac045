import Welle.Proofs.Parser.Destructuring
import Welle.Proofs.Printing.Tokens

set_option autoImplicit false

/-! # Parentheses that hold no targets

A statement or a header that starts with a parenthesis is read as a list of targets if nothing but
names, commas and stars stands in the parentheses and an assignment sign or the word `in` behind them.
No printed expression is like that: behind its first closing parenthesis that only such tokens lead
to, the expression ends, or a call, a member, an index or a template follows. -/

namespace Welle

namespace Token

/-- The kinds of the tokens that may stand in a list of targets. -/
def Kind.isListed : Kind → Bool
  | .ident | .comma | .star | .newline => true
  | _ => false

/-- The kinds of the tokens that may stand behind a list of targets in parentheses. -/
def Kind.isSign : Kind → Bool
  | .assign | .walrus | .kwIn | .newline => true
  | _ => false

/-- No closing parenthesis comes first behind tokens of lists. -/
def Closed (ss : List Shape) : Prop := ∀ s ∈ (ss.dropWhile (·.1.isListed)).head?, s.1 ≠ .rparen

/-- No sign stands behind a list in parentheses that the tokens start with, if none stands behind the
    tokens. -/
def Fenced (ss : List Shape) : Prop :=
  ∀ (listed behind tail : List Shape) (l r : Shape), ss ++ tail = l :: (listed ++ r :: behind) →
    l.1 = .lparen → r.1 = .rparen → (∀ s ∈ listed, s.1.isListed = true) →
    (∀ s ∈ tail.head?, s.1.isSign = false) → ∀ s ∈ behind.head?, s.1.isSign = false

theorem closed_nil : Closed [] := by
  intro s hs
  cases hs

theorem Closed.append {ss us : List Shape} (hss : Closed ss) (hus : Closed us) : Closed (ss ++ us) := by
  rw [Closed, List.dropWhile_append]
  split
  · exact hus
  next hne =>
    intro s hs
    rw [List.isEmpty_iff] at hne
    rw [List.head?_append_of_ne_nil _ hne] at hs
    exact hss s hs

theorem closed_cons {s : Shape} (hs : s.1 ≠ .rparen) {ss : List Shape} (h : Closed ss) :
    Closed (s :: ss) := by
  rw [Closed, List.dropWhile_cons]
  split
  · exact h
  · intro t ht
    rwa [← Option.some.inj ht]

theorem closed_mark (kind : Kind) (hkind : kind ≠ .rparen) {ss : List Shape} (h : Closed ss) :
    Closed (mark kind :: ss) :=
  closed_cons hkind h

/-- An operand does not start with a parenthesis that closes, nor does one follow a name that it
    starts with. -/
theorem Starts.closed {ss : List Shape} (h : Starts ss) : Closed ss := by
  obtain ⟨s, rest, rfl, hs, hname, -⟩ := h
  have hparen : s.1 ≠ .rparen := by
    intro heq
    rw [heq] at hs
    cases hs
  by_cases hident : s.1 = .ident
  · refine closed_cons hparen ?_
    cases rest with
    | nil => exact closed_nil
    | cons next rest =>
      have hnext := hname hident next rfl
      have hlisted : next.1.isListed = false := by
        rcases hnext with h | h | h <;> rw [h] <;> rfl
      intro t ht
      rw [List.dropWhile_cons, hlisted] at ht
      rw [← Option.some.inj ht]
      rcases hnext with h | h | h <;> simp [h]
  · have hlisted : s.1.isListed = false := by
      generalize s.1 = kind at hs hident
      cases kind <;> first
        | rfl
        | exact absurd rfl hident
        | cases hs
    intro t ht
    rw [List.dropWhile_cons, hlisted] at ht
    rwa [← Option.some.inj ht]

theorem closed_commas {groups : List (List Shape)} (h : ∀ group ∈ groups, Closed group) :
    Closed (commas groups) := by
  have hfurther {groups : List (List Shape)} (h : ∀ group ∈ groups, Closed group) :
      Closed (further groups) := by
    induction groups with
    | nil => exact closed_nil
    | cons group groups ih =>
      rw [List.forall_mem_cons] at h
      exact (closed_cons (by decide) h.1).append (ih h.2)
  cases groups with
  | nil => exact closed_nil
  | cons group groups =>
    rw [List.forall_mem_cons] at h
    exact h.1.append (hfurther h.2)

theorem closed_tuple {groups : List (List Shape)} (h : ∀ group ∈ groups, Closed group) :
    Closed (tupleTokens groups) := by
  unfold tupleTokens
  split
  next group => exact (h group List.mem_cons_self).append (closed_cons (by decide) closed_nil)
  next => exact closed_commas h

theorem closed_between {part : Option Expr} {pre : List Shape} (hpre : Closed pre)
    (h : ∀ e ∈ part, Starts e.tokens) : Closed (Expr.tokensBetween pre [] part) := by
  cases part with
  | none => exact closed_nil
  | some e =>
    rw [Expr.tokensBetween, List.append_nil]
    exact hpre.append (h e rfl).closed

/-- Tokens that start with no parenthesis. -/
theorem fenced_of_ne {s : Shape} (hs : s.1 ≠ .lparen) (ss : List Shape) : Fenced (s :: ss) := by
  intro listed behind tail l r heq hl
  exact absurd ((congrArg Prod.fst (List.cons.inj heq).1).trans hl) hs

/-- What stands behind tokens in parentheses stands behind the first closing parenthesis that tokens
    of lists lead to. -/
theorem fenced_enclosed {ss : List Shape} (h : Closed ss) :
    Fenced (mark .lparen :: (ss ++ [mark .rparen])) := by
  intro listed behind tail l r heq hl hr hlisted htail
  have hr' : r.1.isListed = false := by rw [hr]; rfl
  have hdrop : (listed ++ r :: behind).dropWhile (·.1.isListed) = r :: behind := by
    rw [List.dropWhile_append_of_pos hlisted, List.dropWhile_cons, hr']
    rfl
  rw [List.cons_append, List.append_assoc] at heq
  rw [← (List.cons.inj heq).2, List.dropWhile_append] at hdrop
  split at hdrop
  · have hbehind : tail = behind := (List.cons.inj hdrop).2
    exact hbehind ▸ htail
  next hne =>
    rw [List.isEmpty_iff] at hne
    obtain ⟨s, rest, hs⟩ := List.exists_cons_of_ne_nil hne
    rw [hs, List.cons_append] at hdrop
    have hsr : s = r := (List.cons.inj hdrop).1
    exact absurd (hsr ▸ hr) (h s (by rw [hs]; rfl))

/-- More tokens do not matter if the first one of them is no sign. -/
theorem Fenced.append {ss : List Shape} (h : Fenced ss) {next : Shape} (hnext : next.1.isSign = false)
    (rest : List Shape) : Fenced (ss ++ next :: rest) := by
  intro listed behind tail l r heq hl hr hlisted _
  rw [List.append_assoc] at heq
  refine h listed behind _ l r heq hl hr hlisted fun s hs => ?_
  rwa [← Option.some.inj hs]

end Token

/-- An expression starts with no list of targets in parentheses. -/
def Node.Fenced : Node → Prop
  | .expr e => Token.Fenced e.tokens
  | .stmt _ => True

open Token in
theorem Node.Printable.fenced {n : Node} (h : n.Printable) : n.Fenced := by
  induction h with
  | ident _ | int _ | float _ | str | nil | list _ _ | dict _ _ _ _ _ | func _ _ _
  | comprehension _ _ _ _ _ _ _ | select _ _ _ _ _ _ _ _ _ => exact fenced_of_ne Kind.noConfusion _
  | @bool _ value => cases value <;> exact fenced_of_ne Kind.noConfusion _
  | tuple hitems _ =>
    refine fenced_enclosed (closed_tuple ?_)
    rw [Expr.listTokens_eq, List.forall_mem_map]
    exact fun e he => (hitems e he).starts.closed
  | @template _ tag _ _ _ _ _ _ _ ih _ =>
    cases tag with
    | none => exact fenced_of_ne Kind.noConfusion _
    | some e =>
      have htag : Token.Fenced e.tokens := ih e rfl
      simp only [Node.Fenced, Expr.tokens, Expr.tokensBetween, List.nil_append, List.append_nil]
      exact htag.append rfl []
  | @unary _ op _ hoperand _ =>
    have hop : (mark op.kind).1 ≠ .rparen := by cases op <;> decide
    simpa only [Node.Fenced, Expr.tokens, List.cons_append] using
      fenced_enclosed (closed_cons hop hoperand.starts.closed)
  | @binary _ op _ _ hleft hright _ _ =>
    have hop : (mark op.kind).1 ≠ .rparen := by cases op <;> decide
    simpa only [Node.Fenced, Expr.tokens, List.append_assoc, List.cons_append] using
      fenced_enclosed (hleft.starts.closed.append (closed_cons hop hright.starts.closed))
  | ternary hcond hthen helse _ _ _ =>
    have hbehind := hthen.starts.closed.append (closed_mark .colon (by decide) helse.starts.closed)
    simpa only [Node.Fenced, Expr.tokens, List.append_assoc, List.cons_append] using
      fenced_enclosed (hcond.starts.closed.append (closed_mark .question (by decide) hbehind))
  | conditional hthen hcond helse _ _ _ =>
    have hbehind := hcond.starts.closed.append (closed_mark .kwElse (by decide) helse.starts.closed)
    simpa only [Node.Fenced, Expr.tokens, List.append_assoc, List.cons_append] using
      fenced_enclosed (hthen.starts.closed.append (closed_mark .kwIf (by decide) hbehind))
  | @assign _ _ op _ _ htarget hvalue _ _ =>
    have hop : (mark op.kind).1 ≠ .rparen := by cases op <;> decide
    simpa only [Node.Fenced, Expr.tokens, List.append_assoc, List.cons_append] using
      fenced_enclosed (htarget.starts.closed.append (closed_cons hop hvalue.starts.closed))
  | index hobject hindex _ _ =>
    have hbehind := hindex.starts.closed.append (closed_mark .rbracket (by decide) closed_nil)
    simpa only [Node.Fenced, Expr.tokens, List.append_assoc, List.cons_append, List.nil_append] using
      fenced_enclosed (hobject.starts.closed.append (closed_mark .lbracket (by decide) hbehind))
  | slice hobject hlow hhigh hstep _ _ _ _ =>
    have hcolon : Closed [mark .colon] := closed_mark .colon (by decide) closed_nil
    have hstep' := (closed_between hcolon fun e he => (hstep e he).starts).append
      (closed_mark .rbracket (by decide) closed_nil)
    have hhigh' := (closed_between closed_nil fun e he => (hhigh e he).starts).append hstep'
    have hlow' := (closed_between closed_nil fun e he => (hlow e he).starts).append
      (closed_mark .colon (by decide) hhigh')
    simpa only [Node.Fenced, Expr.tokens, List.append_assoc, List.cons_append, List.nil_append] using
      fenced_enclosed (hobject.starts.closed.append (closed_mark .lbracket (by decide) hlow'))
  | call _ _ ih _ => exact Token.Fenced.append ih rfl _
  | member _ _ ih => exact Token.Fenced.append ih rfl _
  | _ => trivial

end Welle
