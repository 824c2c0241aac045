import Welle.Proofs.Append.Statement
import Welle.Proofs.Newlines.Expression
import Welle.Proofs.Parser.Destructuring

set_option autoImplicit false

/-! # Statements with line feeds inside of brackets

Two parsers look further than one token. The form of a `for` header shows in its kinds without the
line feeds, and a list of targets that is read on trial is one whatever line feeds stand between its
parentheses. Everything else is put together from expressions. -/

namespace Welle.Parser

open Welle.Grammar (content)
open Welle.Newlines (Bracket Context visible ending)

variable {g : Grammar} {n : Nat} {bs : List Bracket} {c : Context} {st st' : State} {t : Token}

/-! ## Simple statements -/

theorem mirrors_simpleStatement (hg : g.Mirrored) (hn : Heeds n ⟨bs, false⟩) :
    Keeps n bs st (simpleStatement g) := by
  refine .current_bind hn (fun t _ _ => ?_) fun t hat heof a s hrun _ => ?_
  · exact .bind (mirrors_expression hg _ hn) fun e s => .pure
  · -- at the end of the text there is no expression
    obtain ⟨e, s', hexpr, -⟩ := run_bind_eq_ok hrun
    obtain ⟨used, hmoves, hread⟩ := (reads_expression hg.sound .lowest).read hexpr
    have hcontent := content_of_current_eof (hat.current ▸ heof)
    rw [hmoves.content] at hcontent
    exact (hread False (by simp)).ne_nil rfl (List.append_eq_nil_iff.1 hcontent).1

/-! ## Destructuring -/

section Targets

variable {gap us inner rest : List Token}

/-- A token behind line feeds that are passed over stands behind such line feeds in all twins. -/
theorem Twins.uncons (h : Twins n c st st') (hn : Heeds n c) (htokens : st.tokens = gap ++ t :: us)
    (hgap : ∀ u ∈ gap, u.kind = .newline ∧ 0 < n) (heof : t.kind ≠ .eof) (ht : t.kind ≠ .newline) :
    ∃ gap' us', st'.tokens = gap' ++ t :: us' ∧ (∀ u ∈ gap', u.kind = .newline ∧ 0 < n)
      ∧ Twins n (c.step t.kind) { st with tokens := us } { st' with tokens := us' } := by
  obtain ⟨ts, m, ds⟩ := st
  obtain ⟨ts', m', ds'⟩ := st'
  obtain ⟨rfl, rfl⟩ := h.nesting
  obtain rfl := htokens
  obtain ⟨gap', vs, rfl, hgap', hsettle'⟩ := settle_split ts' _ ds'
  have htwins := h.settle
  rw [settle_gap hgap ht, hsettle'] at htwins
  obtain ⟨heof', -⟩ | ⟨-, hat', hbehind⟩ := htwins.current hn (At.cons ht us _ ds)
  · exact absurd heof' heof
  rw [← hsettle', State.settle_settle, hsettle'] at hat' hbehind
  refine ⟨gap', vs.drop 1, ?_, hgap', hbehind⟩
  exact congrArg (gap' ++ ·) (hat'.tokens heof)

/-- Inside of a bracket the same tokens stand in front of a token in all twins, with other line feeds
    between them. -/
theorem Twins.stretch (h : Twins (n + 1) ⟨bs, false⟩ st st') (htokens : st.tokens = inner ++ t :: rest)
    (hinner : ∀ u ∈ significant inner, isInert u.kind = true) (heof : t.kind ≠ .eof)
    (ht : t.kind ≠ .newline) : ∃ inner' rest', st'.tokens = inner' ++ t :: rest'
      ∧ significant inner' = significant inner
      ∧ Twins (n + 1) (Context.step ⟨bs, false⟩ t.kind) { st with tokens := rest }
        { st' with tokens := rest' } := by
  have hin : Heeds (n + 1) ⟨bs, false⟩ := heeds_succ n _
  have hline {us : List Token} (hus : ∀ u ∈ us, u.kind = .newline) :
      ∀ u ∈ us, u.kind = .newline ∧ 0 < n + 1 := fun u hu => ⟨hus u hu, n.succ_pos⟩
  -- the induction is on the tokens of the stretch that are not line feeds
  generalize hus : significant inner = us at hinner
  induction us generalizing inner st st' with
  | nil =>
    obtain ⟨gap, rest', htokens', hgap, hbehind⟩ :=
      h.uncons hin htokens (hline (newlines_of_significant hus)) heof ht
    exact ⟨gap, rest', htokens', significant_newlines fun u hu => (hgap u hu).1, hbehind⟩
  | cons u us ih =>
    obtain ⟨gap, inner₁, rfl, hgap, hu, hus₁⟩ := significant_eq_cons hus
    have hinert := hinner u (by simp)
    have hend : u.kind ≠ .eof := fun hend => by
      rw [hend] at hinert
      cases hinert
    rw [List.append_assoc, List.cons_append] at htokens
    obtain ⟨gap', vs, htokens', hgap', hbehind⟩ := h.uncons hin htokens (hline hgap) hend hu
    rw [step_of_isInert hinert] at hbehind
    obtain ⟨inner₂, rest', hvs, hus₂, htwins⟩ :=
      ih hbehind rfl hus₁ fun v hv => hinner v (List.mem_cons_of_mem _ hv)
    refine ⟨gap' ++ u :: inner₂, rest', ?_, ?_, htwins⟩
    · rw [htokens', List.append_assoc, List.cons_append]
      exact congrArg (fun vs => gap' ++ u :: vs) hvs
    · rw [significant_gap_cons (fun v hv => (hgap' v hv).1) hu, hus₂]

theorem WritesTarget.isInert {target : Target} {star : Option Token}
    (h : WritesTarget us target star) : ∀ u ∈ us, isInert u.kind = true := by
  cases h with
  | name ht => simp [ht, Parser.isInert]
  | starred hstar ht => simp [hstar, ht, Parser.isInert]

theorem WritesTargets.isInert {list : TargetList} (h : WritesTargets us list) :
    ∀ u ∈ us, isInert u.kind = true := by
  induction h with
  | last h => exact h.isInert
  | lastComma h hcomma => simpa [or_imp, forall_and, hcomma, Parser.isInert] using h.isInert
  | cons h hcomma _ ih =>
    simpa [or_imp, forall_and, hcomma, Parser.isInert] using ⟨h.isInert, ih⟩

/-- The header of a destructuring assignment is one in all twins. -/
theorem Header.twin (hd : Header st) (hn : Heeds n ⟨bs, false⟩) (h : Twins n ⟨bs, false⟩ st st')
    (hat : At st t) (hat' : At st' t) :
    ∃ hd' : Header st', hd'.list = hd.list ∧ hd'.op = hd.op
      ∧ Twins n ⟨bs, false⟩ { st with tokens := hd.rest } { st' with tokens := hd'.rest } := by
  obtain rfl := hd.opening_eq hat
  obtain ⟨opening, inner, close, gap, sign, rest, list, op, hst, hopening, hclose, htargets, hgap, hsign,
    hseveral⟩ := hd
  have hsign' : sign.kind ≠ .eof ∧ sign.kind ≠ .newline
      ∧ Context.step ⟨bs, false⟩ sign.kind = ⟨bs, false⟩ := by
    rcases hsign with ⟨hsign, -⟩ | ⟨hsign, -⟩ <;> simp [hsign, Context.step]
  obtain ⟨heof, -⟩ | ⟨-, -, hbehind⟩ := h.current hn hat
  · rw [hopening] at heof
    cases heof
  rw [hopening, hat'.settled] at hbehind
  -- the line feeds in the parentheses
  have hopen : Twins (n + 1) ⟨.paren :: bs, false⟩ { st.dropToken with nesting := n + 1 }
      { st'.dropToken with nesting := n + 1 } := hbehind.nest rfl rfl
  have hdrop : st.dropToken.tokens = inner ++ close :: (gap ++ sign :: rest) := by
    rw [State.dropToken, hst]
    rfl
  obtain ⟨inner', ts, hts, hinner, hclosed⟩ :=
    hopen.stretch hdrop htargets.isInert (by simp [hclose]) (by simp [hclose])
  rw [hclose] at hclosed
  -- the line feeds behind them
  have hshut : Twins n ⟨bs, false⟩ { st with tokens := gap ++ sign :: rest }
      { st' with tokens := ts } := hclosed.nest h.nesting.1 h.nesting.2
  obtain ⟨gap', rest', rfl, hgap', htwins⟩ := hshut.uncons hn rfl
    (fun u hu => h.nesting.1 ▸ hgap u hu) hsign'.1 hsign'.2.1
  rw [hsign'.2.2] at htwins
  have htokens : st'.tokens = opening :: (inner' ++ close :: (gap' ++ sign :: rest')) := by
    rw [hat'.tokens (by simp [hopening])]
    exact congrArg (opening :: ·) hts
  exact ⟨⟨opening, inner', close, gap', sign, rest', list, op, htokens, hopening, hclose,
    hinner ▸ htargets, fun u hu => h.nesting.2 ▸ hgap' u hu, hsign, hseveral⟩, rfl, rfl, htwins⟩

end Targets

theorem run_parenthesized_of_header (hd : Header st) (hat : At st t) (ht : t.kind = .lparen) :
    run (parenthesized g) st = hd.outcome g := by
  rw [parenthesized, run_bind, run_destructuring_of_header hd hat ht]
  rcases hd.outcome g with ⟨_ | stmt, st'⟩ <;> rfl

theorem run_parenthesized_of_isEmpty (hnone : IsEmpty (Header st)) (hat : At st t)
    (ht : t.kind = .lparen) : run (parenthesized g) st = run (simpleStatement g) st := by
  rw [parenthesized, run_bind_ok (run_destructuring_of_isEmpty hnone hat ht)]

/-- Where a statement starts with a parenthesis, all twins have the header of a destructuring
    assignment or none has. -/
theorem mirrors_parenthesized (hg : g.Mirrored) (hn : Heeds n ⟨bs, false⟩) (hat : At st t)
    (ht : t.kind = .lparen) {stmt : Stmt} {s : State}
    (hrun : run (parenthesized g) st = (.ok stmt, s)) (hclean : s.diagnostics = []) :
    st.diagnostics = [] ∧ ∀ st', Twins n ⟨bs, false⟩ st st' → At st' t →
      ∃ s', run (parenthesized g) st' = (.ok stmt, s') ∧ Twins n ⟨bs, false⟩ s s' := by
  rcases isEmpty_or_nonempty (Header st) with hnone | ⟨⟨hd⟩⟩
  · rw [run_parenthesized_of_isEmpty hnone hat ht] at hrun
    obtain ⟨hclean₀, hother⟩ := mirrors_simpleStatement hg hn stmt s hrun hclean
    refine ⟨hclean₀, fun st' h hat' => ?_⟩
    have hnone' : IsEmpty (Header st') := ⟨fun hd' => by
      obtain ⟨hd, -⟩ := hd'.twin hn h.symm hat' hat
      exact hnone.false hd⟩
    obtain ⟨s', hrun', hs'⟩ := hother st' h
    exact ⟨s', (run_parenthesized_of_isEmpty hnone' hat' ht).trans hrun', hs'⟩
  · rw [run_parenthesized_of_header hd hat ht, Header.outcome] at hrun
    rcases hstars : hd.list.stars[1]? with _ | second <;> rw [hstars] at hrun
    · have hvalue : Keeps n bs { st with tokens := hd.rest } (do
          return Stmt.destructure hd.opening.pos hd.list.targets hd.op (← g.expression .lowest)) :=
        .bind (hg.expression hn _ _) fun value s => .pure
      obtain ⟨hclean₀, hother⟩ := hvalue stmt s hrun hclean
      refine ⟨hclean₀, fun st' h hat' => ?_⟩
      obtain ⟨hd', hlist, hop, htwins⟩ := hd.twin hn h hat hat'
      obtain ⟨s', hrun', hs'⟩ := hother _ htwins
      refine ⟨s', ?_, hs'⟩
      rw [run_parenthesized_of_header hd' hat' ht, Header.outcome, hlist, hstars, hop,
        hd'.opening_eq hat', ← hd.opening_eq hat]
      exact hrun'
    · cases hrun

/-! ## Conditions -/

theorem mirrors_condition (hg : g.Mirrored) (word : String) (hn : Heeds n ⟨bs, false⟩) :
    Keeps n bs st (condition g word) :=
  .expect_bind hn (by decide) fun _ _ _ => .nested (mirrors_enclosed hg _)

theorem mirrors_branch (hg : g.Mirrored) (after : String) (hn : Heeds n ⟨bs, false⟩) :
    Keeps n bs st (branch g after) := by
  refine .skipNewlines_bind (.current_bind_or_fail hn (fun t _ _ => ?_)
    fun t ht => ⟨.noStatement after, by simp [ht]⟩)
  split
  · exact .fail
  · exact .fail
  · exact .fail
  · exact .fail
  · exact hg.statement hn _

theorem mirrors_cond (hg : g.Mirrored) (hn : Heeds n ⟨bs, false⟩) (hat : At st t)
    (ht : t.kind = .kwIf) : Keeps n bs st (cond g) := by
  refine .advance_bind hn hat ht (by decide) (.bind (mirrors_condition hg _ hn) fun test s => ?_)
  refine .bind (mirrors_branch hg _ hn) fun thenS s => ?_
  refine .get_bind_eq ?_ fun st' h => by rw [h.nextAfterNewlinesIs]
  split
  next helse =>
    obtain ⟨word, hat, hword⟩ := at_of_nextAfterNewlinesIs helse
    refine .skipNewlines_bind (.advance_bind hn hat hword (by decide) ?_)
    exact .bind (mirrors_branch hg _ hn) fun elseS s => .pure
  next => exact .pure

theorem mirrors_whileLoop (hg : g.Mirrored) (hn : Heeds n ⟨bs, false⟩) (hat : At st t)
    (ht : t.kind = .kwWhile) : Keeps n bs st (whileLoop g) := by
  refine .advance_bind hn hat ht (by decide) (.bind (mirrors_condition hg _ hn) fun test s => ?_)
  exact .bind (mirrors_body hg hn) fun body s => .pure

/-! ## Loops -/

theorem ForShape.ofKinds_take_stop {stop : Token.Kind} (h : isLooked stop = false) (n : Nat)
    (ks xs ys : List Token.Kind) :
    ofKinds (List.take n (ks ++ stop :: xs)) = ofKinds (List.take n (ks ++ stop :: ys)) := by
  rw [List.take_append, List.take_append]
  cases n - ks.length with
  | zero => rfl
  | succ k => exact ofKinds_stop h _ _ _

/-- The form of a header does not depend on line feeds, nor on what stands behind the end. -/
theorem Twins.forShape (h : Twins n c st st') : forShape st' = forShape st := by
  have hkinds {st : State} (hst : st.Ends) : ∃ ks,
      headerKinds st.tokens = (content st.tokens).map (·.kind) ++ Token.Kind.eof :: ks := by
    obtain ⟨last, us, hdrop⟩ : ∃ last us, st.tokens.dropWhile (·.kind ≠ .eof) = last :: us :=
      List.exists_cons_of_ne_nil (by simpa [State.Ends] using hst)
    have hlast : last.kind = .eof := by
      have hhead := List.head?_dropWhile_not (fun t : Token => decide (t.kind ≠ .eof)) st.tokens
      rw [hdrop] at hhead
      simpa using hhead
    refine ⟨headerKinds us, ?_⟩
    calc headerKinds st.tokens = headerKinds (Token.beforeEnd st.tokens ++ last :: us) := by
          rw [← hdrop, Token.beforeEnd, List.takeWhile_append_dropWhile]
      _ = _ := by
          rw [headerKinds_append, headerKinds_beforeEnd]
          simp [headerKinds, hlast]
  have hcontent : content st'.tokens = content st.tokens := by
    have hvisible := congrArg (List.filter (·.kind ≠ .newline)) h.visible_eq
    rw [Newlines.visible_filter, Newlines.visible_filter] at hvisible
    exact (List.append_cancel_right hvisible).symm
  obtain ⟨xs, hxs⟩ := hkinds h.ends.1
  obtain ⟨ys, hys⟩ := hkinds h.ends.2
  have hshape (st : State) :
      Parser.forShape st = .ofKinds (List.take forLookahead (headerKinds st.tokens)) := rfl
  rw [hshape, hshape, hxs, hys, hcontent]
  exact ForShape.ofKinds_take_stop rfl _ _ _ _

namespace Mirrors

variable {α β : Type} {c' : Context} {p : Parse α}

/-- A part that is left out in front of a token. -/
theorem unless_bind {kind : Token.Kind} {f : Option α → Parse β} (hn : Heeds n c)
    (hp : ∀ s, Mirrors n c c s p) (hf : ∀ part s, Mirrors n c c' s (f part)) :
    Mirrors n c c' st (do
      if ← atKind kind then
        let part ← Pure.pure none
        f part
      else
        let part ← some <$> p
        f part) :=
  .atKind_bind hn (fun _ _ _ => hf none _) fun _ _ _ => (hp _).map.bind hf

/-- What is reported is not taken back. -/
theorem record_bind {error : SyntaxError} {f : Unit → Parse β}
    (h : ∀ s, Mirrors n c c' s (f ())) : Mirrors n c c' st (record error >>= f) := by
  refine void fun a s hrun hclean => ?_
  rw [run_bind_ok (run_record st error)] at hrun
  simpa using (h _ a s hrun hclean).1

end Mirrors

theorem mirrors_clauses (hg : g.Mirrored) (pos : Position) (hn : Heeds n ⟨bs, false⟩) :
    Keeps n bs st (clauses g pos) := by
  refine .expect_bind hn (by decide) fun _ s _ => ?_
  have hin : Heeds (n + 1) ⟨.paren :: bs, false⟩ := heeds_succ n _
  refine .bind (.nested ?_) fun parts s => .bind (mirrors_body hg hn) fun _ _ => .pure
  refine .unless_bind hin (fun s => mirrors_simpleStatement hg hin) fun init s => ?_
  refine .expect_bind hin (by decide) fun _ s _ => ?_
  refine .unless_bind hin (fun s => hg.expression hin _ s) fun test s => ?_
  refine .expect_bind hin (by decide) fun _ s _ => ?_
  refine .unless_bind hin (fun s => mirrors_simpleStatement hg hin) fun post s => ?_
  exact .expect_bind hin (by decide) fun _ _ _ => .pure

theorem mirrors_forSequence (hg : g.Mirrored) (hn : Heeds n ⟨bs, false⟩) :
    Keeps n bs st (forSequence g) :=
  .expect_bind hn (by decide) fun _ s _ => hg.expression hn _ s

/-- The names of a header close a parenthesis that was opened in front of them. -/
theorem mirrors_forTargets (hn : Heeds n ⟨.paren :: bs, false⟩) :
    Mirrors n ⟨.paren :: bs, false⟩ ⟨bs, false⟩ st forTargets := by
  refine .bind (.commaSeparated hn (fun st => (reads_expectIdent _).moves)
    fun s => .expectIdent hn) fun targets s => ?_
  exact .expect_bind hn (by decide) fun _ _ _ => .pure

theorem mirrors_checkTargets {α : Type} {f : Unit → Parse α} (pos : Position) (targets : List Ident)
    (h : ∀ s, Keeps n bs s (f ())) : Keeps n bs st (checkTargets pos targets >>= f) := by
  unfold checkTargets
  split
  · exact .record_bind h
  · exact h st

theorem mirrors_finishForIn (hg : g.Mirrored) (pos : Position) (targets : List Ident) (seq : Expr)
    (hn : Heeds n ⟨bs, false⟩) : Keeps n bs st (finishForIn g pos targets seq) :=
  .bind (mirrors_body hg hn) fun _ _ => .pure

theorem mirrors_forRest (hg : g.Mirrored) (pos : Position) (shape : ForShape)
    (hn : Heeds n ⟨bs, false⟩) : Keeps n bs st (forRest g pos shape) := by
  have hin : Heeds (n + 1) ⟨.paren :: bs, false⟩ := heeds_succ n _
  have hin' : Heeds (n + 1) ⟨.paren :: .paren :: bs, false⟩ := heeds_succ n _
  cases shape with
  | clauses => exact mirrors_clauses hg pos hn
  | bare =>
    refine .bind (.expectIdent hn) fun key s => .bind (mirrors_forSequence hg hn) fun seq s => ?_
    exact mirrors_finishForIn hg pos [key] seq hn
  | inParens =>
    refine .expect_bind hn (by decide) fun _ s _ => ?_
    refine .bind (.nested ?_) fun header s => mirrors_finishForIn hg pos [header.1] header.2 hn
    refine .bind (.expectIdent hin) fun key s => .bind (mirrors_forSequence hg hin) fun seq s => ?_
    exact .expect_bind hin (by decide) fun _ _ _ => .pure
  | grouped =>
    refine .expect_bind hn (by decide) fun _ s _ => .bind (.nested ?_) fun header s =>
      mirrors_checkTargets pos header.1 fun s => mirrors_finishForIn hg pos header.1 header.2 hn
    refine .expect_bind hin (by decide) fun _ s _ => .bind (mirrors_forTargets hin') fun targets s => ?_
    refine .bind (mirrors_forSequence hg hin) fun seq s => ?_
    exact .expect_bind hin (by decide) fun _ _ _ => .pure
  | outside =>
    refine .expect_bind hn (by decide) fun _ s _ => ?_
    refine .bind (.nested (mirrors_forTargets hin)) fun targets s => ?_
    refine mirrors_checkTargets pos targets fun s => .bind (mirrors_forSequence hg hn) fun seq s => ?_
    exact mirrors_finishForIn hg pos targets seq hn

theorem mirrors_forLoop (hg : g.Mirrored) (hn : Heeds n ⟨bs, false⟩) (hat : At st t)
    (ht : t.kind = .kwFor) : Keeps n bs st (forLoop g) := by
  rw [forLoop_eq]
  refine .advance_bind hn hat ht (by decide) ?_
  exact .get_bind_eq (mirrors_forRest hg t.pos _ hn) fun st' h => by rw [h.forShape]

/-! ## Switch and try -/

theorem mirrors_switch (hg : g.Mirrored) (hn : Heeds n ⟨bs, false⟩) (hat : At st t)
    (ht : t.kind = .kwSwitch) : Keeps n bs st (switch g) := by
  refine .advance_bind hn hat ht (by decide) (.bind (mirrors_condition hg _ hn) fun value s => ?_)
  refine .skipNewlines_bind (.expect_bind hn (by decide) fun _ s _ => .asStatements ?_)
  have hin : Heeds 0 ⟨.block :: bs, false⟩ := heeds_block 0 bs
  refine .bind (mirrors_arms (fun word st => ?_) (fun st => (reads_body hg.sound).moves)
    (fun word s => ?_) fun s => mirrors_body hg hin) fun arms s => .pure
  · refine Reads.moves (R := fun _ _ _ _ => True) ((reads_caseValues hg.sound).bind fun _ _ st _ => ?_)
    exact (reads_body hg.sound).bind fun _ _ st _ => .pure fun _ _ _ _ => trivial
  · refine .bind (mirrors_caseValues hg hin) fun values s => ?_
    exact .bind (mirrors_body hg hin) fun body s => .pure

theorem mirrors_handler (hg : g.Mirrored) (hn : Heeds n ⟨bs, false⟩) :
    Keeps n bs st (handler g) := by
  refine .get_bind_eq ?_ fun st' h => by rw [h.nextAfterNewlinesIs]
  split
  next => exact .pure
  next hcatch =>
    obtain ⟨word, hat, hword⟩ := at_of_nextAfterNewlinesIs (by simpa using hcatch)
    refine .skipNewlines_bind (.advance_bind hn hat hword (by decide) ?_)
    have hbody (name : Option Ident) (s : State) : Keeps n bs s (do
        return some (CatchClause.mk word.pos name (← body g))) :=
      .bind (mirrors_body hg hn) fun _ _ => .pure
    have hin : Heeds (n + 1) ⟨.paren :: bs, false⟩ := heeds_succ n _
    refine .eat_bind hn (by decide) (fun s => .bind (.nested ?_) hbody) fun s => hbody none s
    refine .bind (.expectIdent hin) fun name s => ?_
    exact .expect_bind hin (by decide) fun _ _ _ => .pure

theorem mirrors_finalizer (hg : g.Mirrored) (hn : Heeds n ⟨bs, false⟩) :
    Keeps n bs st (finalizer g) := by
  refine .get_bind_eq ?_ fun st' h => by rw [h.nextAfterNewlinesIs]
  split
  next => exact .pure
  next hfinally =>
    obtain ⟨word, hat, hword⟩ := at_of_nextAfterNewlinesIs (by simpa using hfinally)
    refine .skipNewlines_bind (.advance_bind hn hat hword (by decide) ?_)
    exact .bind (mirrors_body hg hn) fun body s => .pure

theorem mirrors_tryCatch (hg : g.Mirrored) (hn : Heeds n ⟨bs, false⟩) (hat : At st t)
    (ht : t.kind = .kwTry) : Keeps n bs st (tryCatch g) := by
  refine .advance_bind hn hat ht (by decide) (.bind (mirrors_body hg hn) fun body s => ?_)
  refine .bind (mirrors_handler hg hn) fun handler s => ?_
  refine .bind (mirrors_finalizer hg hn) fun finalizer s => ?_
  split
  · exact .current_fail
  · exact .pure

/-! ## Declarations and jumps -/

theorem mirrors_funcStatement (hg : g.Mirrored) (hn : Heeds n ⟨bs, false⟩) (hat : At st t)
    (ht : t.kind = .kwFunc) : Keeps n bs st (funcStatement g) := by
  refine .advance_bind hn hat ht (by decide) (.bind (.expectIdent hn) fun name s => ?_)
  refine .bind (mirrors_params hn) fun names s => ?_
  exact .bind (mirrors_body hg hn) fun body s => .pure

theorem mirrors_ret (hg : g.Mirrored) (hn : Heeds n ⟨bs, false⟩) (hat : At st t)
    (ht : t.kind = .kwReturn) : Keeps n bs st (ret g) := by
  refine .advance_bind hn hat ht (by decide) (.currentKind_bind hn fun u _ => ?_)
  split
  · exact .pure
  · exact .pure
  · exact .pure
  · exact .pure
  · exact .pure
  · exact .bind (mirrors_caseValues hg hn) fun values s => .pure

theorem mirrors_raise (hg : g.Mirrored) (hn : Heeds n ⟨bs, false⟩) (hat : At st t)
    (ht : t.kind = .kwThrow) : Keeps n bs st (raise g) :=
  .advance_bind hn hat ht (by decide) (.bind (hg.expression hn _ _) fun _ _ => .pure)

theorem mirrors_defer (hg : g.Mirrored) (hn : Heeds n ⟨bs, false⟩) (hat : At st t)
    (ht : t.kind = .kwDefer) : Keeps n bs st (defer g) := by
  refine .advance_bind hn hat ht (by decide) (.bind (hg.expression hn _ _) fun call s => ?_)
  split
  · exact .pure
  · exact .fail

theorem mirrors_asName (hn : Heeds n ⟨bs, false⟩) : Keeps n bs st asName :=
  .eat_bind hn (by decide) (fun _ => (Mirrors.expectIdent hn).map) fun _ => .pure

theorem mirrors_importPath (context : String) (hn : Heeds n ⟨bs, false⟩) :
    Keeps n bs st (importPath context) :=
  .expect_bind hn (by decide) fun _ _ _ => .pure

theorem mirrors_importAs (hn : Heeds n ⟨bs, false⟩) (hat : At st t) (ht : t.kind = .kwImport) :
    Keeps n bs st importAs := by
  refine .advance_bind hn hat ht (by decide) (.bind (mirrors_importPath _ hn) fun path s => ?_)
  exact .bind (mirrors_asName hn) fun name s => .pure

theorem mirrors_importFrom (hn : Heeds n ⟨bs, false⟩) (hat : At st t) (ht : t.kind = .kwFrom) :
    Keeps n bs st importFrom := by
  refine .advance_bind hn hat ht (by decide) (.bind (mirrors_importPath _ hn) fun path s => ?_)
  refine .expect_bind hn (by decide) fun _ s _ => ?_
  refine .bind (.commaSeparated hn (fun st => ?_) fun s => ?_) fun items s => .pure
  · refine Reads.moves (R := fun _ _ _ _ => True) ((reads_expectIdent _).bind fun _ _ st _ => ?_)
    exact reads_asName.bind fun _ _ st _ => .pure fun _ _ _ _ => trivial
  · exact .bind (.expectIdent hn) fun name s => .bind (mirrors_asName hn) fun as s => .pure

theorem mirrors_exported (hg : g.Mirrored) (hn : Heeds n ⟨bs, false⟩) (hat : At st t)
    (ht : t.kind = .kwExport) : Keeps n bs st (exported g) := by
  refine .advance_bind hn hat ht (by decide) (.current_bind_or_fail hn (fun next _ _ => ?_)
    fun t ht => ⟨.noStatement "export", by simp [ht]⟩)
  split
  · exact .fail
  · exact .fail
  · exact .fail
  · refine .bind (hg.statement hn _) fun s st => ?_
    split
    · exact .pure
    · exact .fail

/-! ## Statements -/

theorem run_statement_of_paren (h : st.settle.current.kind = .lparen) :
    run (statement g) st = run (parenthesized g) st.settle := by
  rw [statement, run_bind_ok (run_currentKind st), h]
  rfl

theorem mirrors_statement (hg : g.Mirrored) (hn : Heeds n ⟨bs, false⟩) :
    Keeps n bs st (statement g) := by
  by_cases hparen : st.settle.current.kind = .lparen
  · -- behind a parenthesis the trial and what follows it are compared as a whole
    intro stmt s hrun hclean
    rw [run_statement_of_paren hparen] at hrun
    have hat := At.ofSettle st
    obtain ⟨hclean₀, hother⟩ := mirrors_parenthesized hg hn hat hparen hrun hclean
    obtain ⟨used, hmoves⟩ := Mirrors.moves_settle st
    refine ⟨hmoves.clean hclean₀, fun st' h => ?_⟩
    obtain ⟨heof, -⟩ | ⟨-, hat', -⟩ := h.settle.current hn hat
    · rw [hparen] at heof
      cases heof
    rw [State.settle_settle] at hat'
    obtain ⟨s', hrun', hs'⟩ := hother _ h.settle hat'
    refine ⟨s', ?_, hs'⟩
    rwa [run_statement_of_paren (hat'.current ▸ hparen)]
  · refine .currentKind_bind hn fun t hat => ?_
    split
    next ht =>
      refine .nextKind_bind hn hat ht (by decide) rfl fun kind => ?_
      split
      · exact mirrors_funcStatement hg hn hat ht
      · exact mirrors_simpleStatement hg hn
    next ht => exact mirrors_ret hg hn hat ht
    next ht => exact .advance_bind hn hat ht (by decide) .pure
    next ht => exact .advance_bind hn hat ht (by decide) .pure
    next ht => exact .advance_bind hn hat ht (by decide) .pure
    next ht => exact mirrors_cond hg hn hat ht
    next ht => exact mirrors_whileLoop hg hn hat ht
    next ht => exact mirrors_forLoop hg hn hat ht
    next ht => exact mirrors_switch hg hn hat ht
    next ht => exact mirrors_tryCatch hg hn hat ht
    next ht => exact mirrors_raise hg hn hat ht
    next ht => exact mirrors_defer hg hn hat ht
    next ht => exact mirrors_importAs hn hat ht
    next ht => exact mirrors_importFrom hn hat ht
    next ht => exact mirrors_exported hg hn hat ht
    next ht => exact .bind (mirrors_block hg hn) fun body s => .pure
    next ht => exact absurd (hat.current ▸ ht) hparen
    next => exact mirrors_simpleStatement hg hn

/-- The parsers of every depth do the same in front of the same visible tokens. -/
theorem Grammar.mirrored_ofDepth (depth : Nat) : (Grammar.ofDepth depth).Mirrored := by
  induction depth with
  | zero =>
    exact ⟨Grammar.sound_ofDepth 0, fun _ _ _ => .current_fail, fun _ _ => .current_fail⟩
  | succ depth ih =>
    exact ⟨Grammar.sound_ofDepth (depth + 1), fun hn level _ => mirrors_expression ih level hn,
      fun hn _ => mirrors_statement ih hn⟩

end Welle.Parser
