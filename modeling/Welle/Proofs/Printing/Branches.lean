import Welle.Proofs.Printing.Blocks

set_option autoImplicit false

/-! # Printed conditions and branches are read back

The branches of an `if` stand without braces of their own. An `else` belongs to the last `if` that is
open, so no branch in front of an `else` ends in one. -/

namespace Welle.Parser

open Token (Shape mark shape)

variable {g : Grammar} {ts us rest : List Token} {next : Token} {e : Expr} {s : Stmt}

/-- Statements end where expressions do. -/
theorem stops_of_endsAt {kind : Token.Kind} (h : s.endsAt kind = true) :
    stops .lowest kind = true := by
  rcases Stmt.endsAt_cases h with h | h | h | h <;> rw [h] <;> rfl

theorem ne_newline_of_endsAt {kind : Token.Kind} (h : s.endsAt kind = true) : kind ≠ .newline := by
  rcases Stmt.endsAt_cases h with h | h | h | h <;> rw [h] <;> decide

/-- A statement that the word at its start is enough to tell. -/
theorem isStated_of_word {word : Token.Kind} {ss : List Shape} {f : Token.Kind → Parse Stmt}
    (htokens : s.tokens = mark word :: ss) (hword : word.isStatementStart = true)
    (h : ∀ {t next : Token} {ts rest : List Token}, t.kind = word → ts.map shape = ss →
      s.endsAt next.kind = true → Takes Stmt.unplaced (f word) (t :: ts) (next :: rest) s.reread) :
    IsStated (currentKind >>= f) s := by
  refine ⟨⟨mark word, ss, htokens, hword⟩, fun {ts rest next} hts hends => ?_⟩
  obtain ⟨t, ts, rfl, ht, hts⟩ := List.map_eq_cons_iff.1 (hts.trans htokens)
  have ht : t.kind = word := congrArg Prod.fst ht
  have hline : t.kind ≠ .newline := by
    intro heq
    rw [← ht, heq] at hword
    cases hword
  refine .currentKind_bind hline ?_
  rw [List.cons_append, headKind_cons, ht]
  exact h ht hts hends

/-! ## Conditions -/

theorem takes_condition {word : String} (he : IsRead g e)
    (htokens : ts.map shape = mark .lparen :: (e.tokens ++ [mark .rparen])) :
    Takes Expr.unplaced (condition g word) ts rest e.reread := by
  obtain ⟨l, us, rfl, hl, hbody⟩ := List.map_eq_cons_iff.1 htokens
  obtain ⟨ts, us, rfl, hts, hclose⟩ := List.map_eq_append_iff.1 hbody
  obtain ⟨r, rfl, hr⟩ := List.map_eq_singleton_iff.1 hclose
  have hl : l.kind = .lparen := congrArg Prod.fst hl
  have hr : r.kind = .rparen := congrArg Prod.fst hr
  unfold condition
  refine .expect_bind hl rfl ?_
  refine .nested ?_
  refine .bind (he.takes hts (by decide) (by rw [hr]; rfl)) fun e' he' => ?_
  exact .expect_bind hr rfl (.pure he')

/-- A condition with tokens behind it. -/
theorem exists_condition {ss : List Shape}
    (hts : ts.map shape = mark .lparen :: (e.tokens ++ mark .rparen :: ss)) :
    ∃ us vs, ts = us ++ vs ∧ us.map shape = mark .lparen :: (e.tokens ++ [mark .rparen])
      ∧ vs.map shape = ss := by
  rw [List.append_cons, ← List.cons_append] at hts
  obtain ⟨us, vs, rfl, hus, hvs⟩ := List.map_eq_append_iff.1 hts
  exact ⟨us, vs, rfl, hus, hvs⟩

/-- A loop that starts with a condition. -/
theorem isStated_whileLoop {pos : Position} {body : Block} (he : IsRead g e)
    (hstmts : ∀ s ∈ body.stmts, IsStated g.statement s) :
    IsStated (statement g) (.whileLoop pos e body) := by
  refine isStated_of_word rfl rfl fun {word _ ts _} hword hts _ => ?_
  obtain ⟨ts, us, rfl, htest, hbody⟩ := exists_condition hts
  change Takes Stmt.unplaced (whileLoop g) _ _ _
  unfold whileLoop
  refine .advance_bind (by rw [hword]; rfl) ?_
  refine .bind (takes_condition he htest) fun e' he' => ?_
  refine .bind_last (takes_body hstmts hbody) fun body' hbody' => ?_
  exact .pure (by simp only [Stmt.unplaced, Stmt.reread, he', hbody'])

/-! ## Branches -/

theorem takes_branch {after : String} (hs : IsStated g.statement s) (hts : ts.map shape = s.tokens)
    (hends : s.endsAt next.kind = true) :
    Takes Stmt.unplaced (branch g after) ts (next :: rest) s.reread := by
  have hline : headKind (ts ++ next :: rest) ≠ .newline := hs.headKind_ne hts _ rfl
  have htaken : Takes Stmt.unplaced g.statement ts (next :: rest) s.reread := hs.takes hts hends
  obtain ⟨head, tail, htokens, hstart⟩ := hs.starts
  obtain ⟨t, us, rfl, ht, -⟩ := List.map_eq_cons_iff.1 (hts.trans htokens)
  have hkind : t.kind = head.1 := congrArg Prod.fst ht
  rw [← hkind] at hstart
  unfold branch
  refine .skipNewlines_bind hline ?_
  refine .current_bind hline ?_
  split
  all_goals
    first
      | exact htaken
      | next hstray => rw [hstray] at hstart; cases hstart

/-- An `if` with or without an `else`. -/
theorem isStated_cond {pos : Position} {thenS : Stmt} {elseS : Option Stmt} (he : IsRead g e)
    (hclosed : elseS.isSome = true → thenS.endsOpen = false) (hthen : IsStated g.statement thenS)
    (helse : ∀ s ∈ elseS, IsStated g.statement s) :
    IsStated (statement g) (.cond pos e thenS elseS) := by
  refine isStated_of_word rfl rfl fun {word next ts rest} hword hts hends => ?_
  obtain ⟨ts, us, rfl, htest, hbranches⟩ := exists_condition hts
  obtain ⟨us, vs, rfl, hus, hvs⟩ := List.map_eq_append_iff.1 hbranches
  change Takes Stmt.unplaced (cond g) _ _ _
  unfold cond
  refine .advance_bind (by rw [hword]; rfl) ?_
  refine .bind (takes_condition he htest) fun e' he' => ?_
  cases elseS with
  | none =>
    -- no `else` stands behind the only branch
    obtain rfl := List.map_eq_nil_iff.1 hvs
    have hkind : next.kind = .semicolon ∨ next.kind = .rbrace ∨ next.kind = .eof := by
      rcases Stmt.endsAt_cases hends with h | h | h | h
      · exact .inl h
      · exact .inr (.inl h)
      · exact .inr (.inr h)
      · rw [h] at hends
        cases hends
    have hends' : thenS.endsAt next.kind = true := by
      rcases hkind with h | h | h <;> rw [h] <;> rfl
    rw [List.append_nil]
    refine .bind_last (takes_branch hthen hus hends') fun thenS' hthen' => ?_
    refine .get_bind fun n ds => ?_
    have hnot : State.nextAfterNewlinesIs ⟨next :: rest, n, ds⟩ .kwElse = false := by
      rw [Takes.nextAfterNewlinesIs_eq (ne_newline_of_endsAt hends) (by decide), headKind_cons]
      rcases hkind with h | h | h <;> rw [h] <;> rfl
    refine ⟨.cond word.pos e' thenS' none, ?_, ?_⟩
    · simp only [Stmt.unplaced, Stmt.reread, Stmt.optionUnplaced, Stmt.optionReread, he', hthen']
    · rw [List.nil_append, hnot]
      rfl
  | some elseS =>
    obtain ⟨elseWord, vs, rfl, hmark, hvs⟩ := List.map_eq_cons_iff.1 hvs
    have helseWord : elseWord.kind = .kwElse := congrArg Prod.fst hmark
    have hends' : thenS.endsAt elseWord.kind = true := by
      rw [helseWord, Stmt.endsAt, hclosed rfl]
      rfl
    refine .bind (takes_branch hthen hus hends') fun thenS' hthen' => ?_
    have hline : elseWord.kind ≠ .newline := by simp [helseWord]
    have hreads : Takes Stmt.unplaced (do
        skipNewlines
        let _ ← advance
        return .cond word.pos e' thenS' (some (← branch g "else"))) (elseWord :: vs) (next :: rest)
        (Stmt.cond pos e thenS (some elseS)).reread := by
      refine .skipNewlines_bind hline ?_
      refine .advance_bind (by rw [helseWord]; rfl) ?_
      refine .bind_last (takes_branch (helse _ rfl) hvs hends) fun elseS' helse' => ?_
      refine .pure ?_
      simp only [Stmt.unplaced, Stmt.reread, Stmt.optionUnplaced, Stmt.optionReread, he', hthen',
        helse']
    refine .get_bind fun n ds => ?_
    have his : State.nextAfterNewlinesIs ⟨elseWord :: vs ++ next :: rest, n, ds⟩ .kwElse = true := by
      rw [List.cons_append, Takes.nextAfterNewlinesIs_eq (by simpa) (by decide), headKind_cons,
        helseWord]
      rfl
    obtain ⟨s', hs', hrun⟩ := hreads n ds
    refine ⟨s', hs', ?_⟩
    rw [his]
    exact hrun

end Welle.Parser
