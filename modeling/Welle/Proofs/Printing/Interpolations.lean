import Welle.Proofs.Printing.Operands
import Welle.Proofs.Printing.Printed

set_option autoImplicit false

/-! # Printed templates are read back

The body of a printed template is taken apart into its parts and the sources of its interpolations.
Each source is the text of an expression, so it is read as the tokens of the expression and these as
the expression, which takes the source to its end. -/

namespace Welle

open Token (Shape mark lex shape Lexes)

/-- The tokens of a text that is read as the given ones, and its end. -/
theorem Token.Lexes.tokensFrom {text : List Char} {ss : List Shape} (h : Lexes text ss)
    (pos : Position) :
    ∃ ts last, Token.tokensFrom pos text = ts ++ [last] ∧ ts.map shape = ss ∧ last.kind = .eof := by
  have htokens := h [] ⟨Numeral.endsNumber_nil, by simp⟩
  have hend : lex [] = [(.eof, "")] := by
    rw [lex, Token.tokensFrom_nil]
    rfl
  rw [List.append_nil, hend, ← Token.map_shape_tokensFrom pos] at htokens
  obtain ⟨ts, us, heq, hts, hus⟩ := List.map_eq_append_iff.1 htokens
  obtain ⟨last, rfl, hlast⟩ := List.map_eq_singleton_iff.1 hus
  exact ⟨ts, last, heq, hts, congrArg Prod.fst hlast⟩

namespace Parser

variable {g : Grammar} {rest : List Token} {t : Token} {e : Expr}

theorem takes_holeExpression (he : IsRead g e) {ts : List Token} {last : Token}
    (hts : ts.map shape = e.tokens) (hlast : last.kind = .eof) (opening : Position) :
    Takes Expr.unplaced (holeExpression g opening) ts [last] e.reread := by
  unfold holeExpression
  have heof : headKind (ts ++ [last]) ≠ .eof := he.headKind_ne hts _ rfl
  refine .atKind_bind (he.headKind_ne hts _ rfl) ?_
  simp only [heof, decide_false, Bool.false_eq_true, if_false]
  refine .bind_last (he.takes hts (by decide) (by rw [hlast]; rfl)) fun e' he' => ?_
  refine .atKind_bind (by simp [hlast]) ?_
  simp only [List.nil_append, headKind_cons, hlast, decide_true, if_true]
  exact .pure he'

/-- An interpolation whose source is the text of an expression. -/
theorem run_hole_render (he : IsRead g e) (hlexes : Lexes e.render.toList e.tokens)
    (origin opening : Position) (st : State) :
    ∃ e', e'.unplaced = e.reread.unplaced
      ∧ run (hole g e.render origin opening) st = (.ok e', st) := by
  obtain ⟨ts, last, htokens, hts, hlast⟩ := hlexes.tokensFrom origin
  obtain ⟨e', he', hrun⟩ := takes_holeExpression he hts hlast opening 1 []
  refine ⟨e', he', ?_⟩
  rw [run_hole g rfl, Token.tokenizeAt, htokens, hrun]
  simp

theorem firstError_ok (es : List Expr) : firstError (es.map Except.ok) = .ok es := by
  induction es with
  | nil => rfl
  | cons e es ih =>
    rw [firstError] at ih ⊢
    rw [List.map_cons, List.mapM_cons, ih]
    rfl

/-- The interpolations among some segments are read one after the other. -/
theorem run_holes {segments : List Template.Segment} {exprs : List Expr}
    (hexprs : ∀ e ∈ exprs, IsRead g e ∧ Lexes e.render.toList e.tokens)
    (hsegments : (segments.map Template.Segment.content).filterMap Sum.getRight?
      = exprs.map Expr.render) (st : State) :
    ∃ es : List Expr, es.map Expr.unplaced = (exprs.map Expr.reread).map Expr.unplaced
      ∧ run (segments.filterMapM fun
          | .text _ => Pure.pure none
          | .hole source origin opening => some <$> observing (hole g source origin opening)) st
        = (.ok (es.map .ok), st) := by
  induction segments generalizing exprs with
  | nil =>
    obtain rfl := List.map_eq_nil_iff.1 hsegments.symm
    exact ⟨[], rfl, rfl⟩
  | cons segment segments ih =>
    rw [List.filterMapM_cons]
    cases segment with
    | text value =>
      obtain ⟨es, hes, hrun⟩ := ih hexprs hsegments
      exact ⟨es, hes, by simpa using hrun⟩
    | hole source origin opening =>
      obtain ⟨e, exprs, rfl, rfl, hrest⟩ := List.map_eq_cons_iff.1 hsegments.symm
      rw [List.forall_mem_cons] at hexprs
      obtain ⟨e', he', hrun⟩ := run_hole_render hexprs.1.1 hexprs.1.2 origin opening st
      obtain ⟨es, hes, hrun'⟩ := ih hexprs.2 hrest.symm
      refine ⟨e' :: es, by simp only [List.map_cons, he', hes], ?_⟩
      simp only [map_eq_pure_bind, bind_assoc, pure_bind] at hrun' ⊢
      rw [run_bind, run_observing, hrun]
      simp only []
      rw [run_bind_ok hrun']
      rfl

/-- The parts and the sources of a body, as the turns that they take. -/
theorem filterMap_turns {parts sources : List String} (hlength : parts.length = sources.length + 1) :
    (Template.turns parts sources).filterMap Sum.getLeft? = parts
      ∧ (Template.turns parts sources).filterMap Sum.getRight? = sources := by
  induction sources generalizing parts with
  | nil =>
    obtain ⟨part, rfl⟩ := List.length_eq_one_iff.1 hlength
    exact ⟨rfl, rfl⟩
  | cons source sources ih =>
    obtain ⟨part, parts, rfl⟩ := List.exists_cons_of_length_eq_add_one hlength
    obtain ⟨hparts, hsources⟩ := ih (Nat.succ.inj hlength)
    exact ⟨congrArg (part :: ·) hparts, congrArg (source :: ·) hsources⟩

/-- A template token with a printed body is read as the parts and the expressions that it was printed
    from. -/
theorem takes_template {pos : Position} {tag tag' : Option Expr} {parts : List String}
    {exprs : List Expr} (hlength : parts.length = exprs.length + 1)
    (hembeds : ∀ e ∈ exprs, Template.Embeds e.render)
    (hexprs : ∀ e ∈ exprs, IsRead g e ∧ Lexes e.render.toList e.tokens)
    (htag : tag'.map Expr.unplaced = tag.map Expr.unplaced)
    (hliteral : t.literal = Literal.templateBody parts (exprs.map Expr.render)) :
    Takes Expr.unplaced (template g t tag') [] rest
      (.template pos tag parts (exprs.map Expr.reread)) := by
  have hlength' : parts.length = (exprs.map Expr.render).length + 1 := by
    rwa [List.length_map]
  have hsources : ∀ source ∈ exprs.map Expr.render,
      Template.Passes Template.SplitComment 1 (source.toList ++ ['}']) := by
    intro source hsource
    obtain ⟨e, he, rfl⟩ := List.mem_map.1 hsource
    exact ((Template.embeds_iff_passes _).1 (hembeds e he)).2
  have hsplit := Template.split_of_passes hlength' hsources (t.pos.shifted 2)
  rw [← hliteral] at hsplit
  obtain ⟨hparts, hholes⟩ := filterMap_turns hlength'
  rw [← hsplit] at hparts hholes
  have htexts : Template.texts (Template.split t.literal (t.pos.shifted 2)) = parts := by
    rw [← hparts, List.filterMap_map, Template.texts]
    congr 1
    funext segment
    cases segment <;> rfl
  intro n ds
  obtain ⟨es, hes, hrun⟩ := run_holes hexprs hholes ⟨rest, n, ds⟩
  refine ⟨.template t.pos tag' parts es, ?_, ?_⟩
  · simp only [Expr.unplaced, Expr.optionUnplaced_eq, Expr.listUnplaced_eq, htag, hes]
  · refine (run_bind_ok hrun _).trans ?_
    rw [firstError_ok, ← htexts]
    rfl

end Parser

end Welle
