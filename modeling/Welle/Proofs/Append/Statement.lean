import Welle.Proofs.Append.Expression
import Welle.Proofs.Placement

set_option autoImplicit false

/-! # Statements on both sides of a junction

A statement may be the last thing in a text. Whatever looks further than the statement reaches is
either settled within it or finds nothing: behind an `if` and a `try` there is no `else` and no
`finally`, the form of a `for` header shows in the header, and a list of targets ends at its
parenthesis. -/

namespace Welle.Parser

open Welle.Grammar (content Derives)

variable {g : Grammar} {j : Junction} {d : Prop} {st : State} {t : Token}

/-! ## Simple statements -/

theorem toStmt_lowered (n : Nat) (start : Position) (e : Expr) :
    toStmt (start.lowered n) (e.lowered n) = (toStmt start e).lowered n := by
  cases e with
  | assign pos target op value => cases target <;> rfl
  | _ => rfl

theorem follows_simpleStatement (hg : g.Joins) (hd : 0 < st.nesting → d) :
    Follows j d st (simpleStatement g) (simpleStatement g) (Stmt.lowered j.lines) := by
  refine .of_reads (reads_simpleStatement hg.sound) (fun us s st' h => h.1.ne_nil rfl) ?_
  intro hregular
  refine .current_bind hregular fun t st' _ hnesting _ _ => ?_
  refine (follows_expression hg _ fun h => hd (hnesting ▸ h)).bind fun e _ _ => .pure ?_
  exact (toStmt_lowered j.lines t.pos e).symm

/-! ## Destructuring -/

/-- The list further down. -/
def TargetList.lowered (n : Nat) (list : TargetList) : TargetList :=
  ⟨list.targets.map (Target.lowered n), list.stars.map (Token.lowered n), list.trailingComma⟩

/-- Whether a list of targets goes on behind a kind. -/
def isListed (kind : Token.Kind) : Bool := kind = .ident || kind = .star || kind = .comma

/-- A list of targets that starts here ends within the text. -/
def Junction.Bounded (j : Junction) (ts : List Token) : Prop :=
  j.tail.isSome = true → ∃ t ∈ content ts, isListed t.kind = false

theorem Junction.Bounded.regular {ts : List Token} (h : j.Bounded ts) : j.Regular ts := by
  intro htail
  obtain ⟨t, ht, -⟩ := h htail
  exact List.ne_nil_of_mem ht

theorem Junction.Bounded.step {st' : State} {used : List Token} (h : j.Bounded st.tokens)
    (hmoves : Moves st used st') (hused : ∀ t ∈ significant used, isListed t.kind = true) :
    j.Bounded st'.tokens := by
  intro htail
  obtain ⟨t, ht, hkind⟩ := h htail
  rw [hmoves.content] at ht
  rcases List.mem_append.1 ht with ht | ht
  · simp [hused t ht] at hkind
  · exact ⟨t, ht, hkind⟩

theorem Junction.Bounded.advance {st' : State} (h : j.Bounded st.tokens)
    (hrun : run advance st = (.ok t, st')) (hkind : isListed t.kind = true) :
    j.Bounded st'.tokens := by
  obtain ⟨used, hmoves, hread⟩ := Reads.advance.read hrun
  have hused := hread False (by simp) (fun heof => by simp [heof, isListed] at hkind)
    fun hnewline => by simp [hnewline, isListed] at hkind
  exact h.step hmoves (by simpa [hused] using hkind)

theorem isListed_of_derives {S : Prop} {us : List Token} {target : Target}
    (h : Derives S us (.item (.target target))) : ∀ t ∈ us, isListed t.kind = true := by
  cases h with
  | targetName ht => simp [isListed, ht]
  | targetDiscard ht => simp [isListed, ht]
  | targetStarred hstar ht => simp [isListed, hstar, ht]

theorem follows_scanTarget (hbounded : j.Bounded st.tokens) :
    Follows j d st scanTarget scanTarget
      (Option.map (Prod.map (Target.lowered j.lines) (Option.map (Token.lowered j.lines)))) := by
  refine (Follows.advance hbounded.regular).bind_run fun t st₁ hrun _ => ?_
  rw [Token.kind_lowered]
  split
  next ht =>
    have hbounded₁ := hbounded.advance hrun (by simp [isListed, ht])
    refine (Follows.advance hbounded₁.regular).bind fun name st₂ _ => ?_
    rw [Token.kind_lowered]
    split <;> exact .pure rfl
  next ht =>
    rw [Token.literal_lowered]
    split <;> exact .pure rfl
  next => exact .pure rfl

theorem reads_eat {kind : Token.Kind} (heof : kind ≠ .eof) (hnewline : kind ≠ .newline) :
    Reads st (eat kind) fun _ us ate _ => ate = false → us = [] := by
  rw [← bind_pure (eat kind)]
  exact .eat_bind heof hnewline (fun _ _ _ => .pure fun _ _ h => by cases h)
    fun _ _ _ _ => .pure fun _ _ _ => rfl

/-- The scan for targets stops within the text if something stands there that is in no list of
    targets. -/
theorem follows_scanTargets (limit : Nat) (hbounded : j.Bounded st.tokens) :
    Follows j d st (scanTargets limit) (scanTargets limit)
      (Option.map (TargetList.lowered j.lines)) := by
  induction limit generalizing st with
  | zero => exact .pure rfl
  | succ limit ih =>
    refine (follows_scanTarget hbounded).bind_run ?_
    rintro (_ | ⟨target, star⟩) st₁ hrun _
    · exact .pure rfl
    obtain ⟨used, hmoves, hread⟩ := reads_scanTarget.read hrun
    have hbounded₁ := hbounded.step hmoves
      (isListed_of_derives (hread False (by simp) target star rfl).1)
    refine (Follows.advance hbounded₁.regular).bind_run fun t st₂ hrun₂ _ => ?_
    rw [Token.kind_lowered]
    have hstars : (star.map (Token.lowered j.lines)).toList
        = star.toList.map (Token.lowered j.lines) := by
      cases star <;> rfl
    split
    next => exact .pure (by simp [TargetList.lowered, hstars])
    next ht =>
      have hbounded₂ := hbounded₁.advance hrun₂ (by simp [isListed, ht])
      refine (Follows.eat (fun _ => .inr hbounded₂.regular) (by decide) (by decide)).bind_run ?_
      rintro (_ | _) st₃ hrun₃ _
      · obtain ⟨used, hmoves, hread⟩ := (reads_eat (by decide) (by decide)).read hrun₃
        have hbounded₃ := hbounded₂.step hmoves (by simp [hread False (by simp) rfl])
        refine (ih hbounded₃).bind ?_
        rintro (_ | list) st₄ _
        · exact .pure rfl
        · exact .pure (by simp [TargetList.lowered, hstars])
      · exact .pure (by simp [TargetList.lowered, hstars])
    next => exact .pure rfl

/-- The opening parenthesis and the targets behind it, if there are any. -/
def openTargets : Parse (Token × Option TargetList) := do
  let opening ← advance
  return (opening, ← nested (do scanTargets (← get).tokens.length))

theorem follows_openTargets (hat : At st t) (ht : t.kind = .lparen)
    (hbounded : j.Bounded st.dropToken.tokens) : Follows j d st openTargets openTargets
      (Prod.map (Token.lowered j.lines) (Option.map (TargetList.lowered j.lines))) := by
  have heof : t.kind ≠ .eof := by simp [ht]
  refine .step (b := t.lowered j.lines) (run_advance hat heof) (hat.moves heof) ?_ fun hst _ => ?_
  · refine Follows.bind (φ := Option.map (TargetList.lowered j.lines)) (.nested ?_) fun list _ _ =>
      .pure rfl
    refine Follows.congr (follows_scanTargets (j.state st.dropToken).tokens.length hbounded)
      (fun hst => ?_) fun _ => ?_
    · rw [run_bind_ok (run_get _)]
      exact run_scanTargets_of_le hst.ends (Nat.le_refl _) (j.length_le hst)
    · rw [run_bind_ok (run_get _)]
      rfl
  · rw [run_advance (Junction.at_state hst hat fun _ => heof) heof, Junction.dropToken_state hat heof]

/-- The targets and the operator of a destructuring assignment, if there is one. -/
def tupleOp? (list : Option TargetList) (kind : Token.Kind) : Option (TargetList × AssignOp) :=
  match list, destructuringOp? kind with
  | some list, some op => if list.isTuple then some (list, op) else none
  | _, _ => none

theorem tupleOp?_lowered (n : Nat) (list : Option TargetList) (kind : Token.Kind) :
    tupleOp? (list.map (TargetList.lowered n)) kind
      = (tupleOp? list kind).map (Prod.map (TargetList.lowered n) id) := by
  have htuple (list : TargetList) : (list.lowered n).isTuple = list.isTuple := by
    simp [TargetList.isTuple, TargetList.lowered]
  rcases list with _ | list
  · rfl
  unfold tupleOp?
  rcases destructuringOp? kind with _ | op
  · rfl
  · simp only [Option.map_some, htuple]
    split <;> rfl

/-- A destructuring assignment behind its targets. -/
def destructure (g : Grammar) (opening : Token) (list : TargetList) (op : AssignOp) : Parse Stmt := do
  if let some second := list.stars[1]? then return ← fail .severalStars second
  let _ ← advance
  return .destructure opening.pos list.targets op (← g.expression .lowest)

/-- A statement that starts with a parenthesis. -/
def parenthesized (g : Grammar) : Parse Stmt := do
  match ← destructuring g with
  | some stmt => return stmt
  | none => simpleStatement g

/-- What is done behind the targets: they are assigned to, or the cursor goes back to the
    parenthesis. -/
def afterTargets (g : Grammar) (before : State) (found : Token × Option TargetList)
    (kind : Token.Kind) : Parse Stmt :=
  match tupleOp? found.2 kind with
  | some (list, op) => destructure g found.1 list op
  | none => (modify fun st => { st with tokens := before.tokens }) >>= fun _ => simpleStatement g

theorem parenthesized_eq (g : Grammar) : parenthesized g = get >>= fun before =>
    openTargets >>= fun found => currentKind >>= afterTargets g before found := by
  unfold parenthesized
  rw [destructuring_eq]
  simp only [destructuringHeader, openTargets, bind_assoc, pure_bind]
  refine bind_congr fun before => bind_congr fun opening => bind_congr fun list =>
    bind_congr fun kind => ?_
  unfold finishDestructuring afterTargets tupleOp?
  rcases list with _ | list
  · rfl
  rcases destructuringOp? kind with _ | op
  · rfl
  dsimp only
  split
  · dsimp only [destructure]
    rcases list.stars[1]? with _ | second
    · simp only [bind_assoc, pure_bind]
    · rfl
  · rfl

theorem afterTargets_some {before : State} {found : Token × Option TargetList} {kind : Token.Kind}
    {list : TargetList} {op : AssignOp} (h : tupleOp? found.2 kind = some (list, op)) :
    afterTargets g before found kind = destructure g found.1 list op := by
  rw [afterTargets, h]

theorem run_afterTargets_none {before : State} {found : Token × Option TargetList}
    {kind : Token.Kind} (h : tupleOp? found.2 kind = none) :
    run (afterTargets g before found kind) st
      = run (simpleStatement g) { st with tokens := before.tokens } := by
  rw [afterTargets, h]
  exact run_bind_ok (run_modify st _) _

theorem reads_parenthesized (hg : g.Sound) (hat : At st t) (ht : t.kind = .lparen) :
    Reads st (parenthesized g) fun S us s _ => ReadClosed S us s := by
  refine (reads_destructuring hg hat ht).bind fun found us st hfound => ?_
  cases found with
  | some s => exact .pure fun S _ h => by simpa using h.2 s rfl
  | none =>
    obtain rfl := hfound.1 rfl
    exact (reads_simpleStatement hg).mono fun S us s _ h _ => h

/-- A statement that starts with a parenthesis has the one that closes it, so a list of targets that
    starts there is bounded. -/
theorem exists_unlisted {s : Stmt} {us vs : List Token} (ht : t.kind = .lparen)
    (h : Derives True us (.stmt s)) (hus : us <+: t :: vs) : ∃ u ∈ vs, isListed u.kind = false := by
  by_contra hall
  obtain ⟨us, rfl⟩ : ∃ us', us = t :: us' := by
    rcases us with _ | ⟨u, us⟩
    · exact absurd rfl (h.ne_nil rfl)
    · obtain ⟨rfl, -⟩ := List.cons_prefix_cons.1 hus
      exact ⟨us, rfl⟩
  have hplain : ∀ u ∈ us, Bracket.isBracket u.kind = false := by
    intro u hu
    have hlisted : isListed u.kind = true := by
      by_contra hnot
      exact hall ⟨u, (List.cons_prefix_cons.1 hus).2.subset hu, by simpa using hnot⟩
    generalize u.kind = kind at hlisted
    cases kind <;> first | rfl | cases hlisted
  have hscan : ∀ us : List Token, (∀ u ∈ us, Bracket.isBracket u.kind = false) →
      ∀ scan : Bracket.Scan, us.foldl Bracket.Scan.step scan = scan := by
    intro us
    induction us with
    | nil => exact fun _ _ => rfl
    | cons u us ih =>
      intro hus scan
      rw [List.foldl_cons, Bracket.step_of_plain (hus u (by simp))]
      exact ih (fun v hv => hus v (by simp [hv])) scan
  -- the parenthesis stays open
  have hbalanced := (h.sits trivial ⟨[], .start⟩).balanced [] []
  rw [List.foldl_cons, hscan us hplain] at hbalanced
  simp [Bracket.Scan.step, ht, Bracket.closer?] at hbalanced

/-- The statement behind the targets. -/
theorem follows_destructure (hg : g.Joins) (hnesting : st.nesting = 0) {u : Token} (hat : At st u)
    (hu : (destructuringOp? u.kind).isSome = true) (opening : Token) (list : TargetList)
    (op : AssignOp) :
    Follows j d st (destructure g opening list op) (destructure g (opening.lowered j.lines)
      (list.lowered j.lines) op) (Stmt.lowered j.lines) := by
  unfold destructure
  have hstars : (list.lowered j.lines).stars[1]? = list.stars[1]?.map (Token.lowered j.lines) := by
    simp [TargetList.lowered]
  rw [hstars]
  rcases list.stars[1]? with _ | second
  · refine .advance_bind hat (fun heof => ?_) fun st₁ hnesting₁ => ?_
    · simp [heof, destructuringOp?, AssignOp.ofKind?] at hu
    exact (hg.expr (fun h => by omega) _).bind fun value _ _ => .pure rfl
  · exact .fail rfl

/-- What stands behind the targets is the same on both sides, but for the end of the text, which is
    no operator, and a line feed, which is none either. -/
theorem tupleOp?_state (hst : st.EndsOnce) (list : Option TargetList) :
    tupleOp? (list.map (TargetList.lowered j.lines)) (j.state st).current.kind
      = (tupleOp? list st.current.kind).map (Prod.map (TargetList.lowered j.lines) id) := by
  rw [tupleOp?_lowered]
  by_cases hkind : j.tail.isSome = true → st.current.kind ≠ .eof
  · rw [Junction.current_state hst hkind, Token.kind_lowered]
  · obtain ⟨htail, heof⟩ := Classical.not_imp.1 hkind
    obtain ⟨tail, htail⟩ := Option.isSome_iff_exists.1 htail
    rw [Junction.current_state_end htail (not_not.1 heof), not_not.1 heof, tail.newline_kind]
    cases list <;> rfl

theorem reads_destructure (hg : g.Sound) (opening : Token) (list : TargetList) (op : AssignOp) :
    Reads st (destructure g opening list op) fun _ _ _ _ => True := by
  unfold destructure
  rcases list.stars[1]? with _ | second
  · refine Reads.advance.bind fun _ _ st _ => ?_
    exact (hg.expression _ _).bind fun _ _ st _ => .pure fun _ _ _ _ => trivial
  · exact .fail _ _

/-- Nothing that was reported is lost behind the targets. -/
theorem clean_of_afterTargets (hg : g.Sound) {before : State} {found : Token × Option TargetList}
    {kind : Token.Kind} (h : (run (afterTargets g before found kind) st).2.diagnostics = []) :
    st.diagnostics = [] := by
  rcases htuple : tupleOp? found.2 kind with _ | ⟨list, op⟩
  · rw [run_afterTargets_none htuple] at h
    have hreads : Reads { st with tokens := before.tokens } (simpleStatement g) _ :=
      reads_simpleStatement hg
    obtain ⟨used, hmoves⟩ := hreads.moves
    exact hmoves.clean h
  · rw [afterTargets_some htuple] at h
    have hreads : Reads st (destructure g found.1 list op) _ := reads_destructure hg found.1 list op
    obtain ⟨used, hmoves⟩ := hreads.moves
    exact hmoves.clean h

/-- Behind the targets both sides do the same, also where the cursor goes back. -/
theorem run_afterTargets_state (hg : g.Joins) {before : State} {found : Token × Option TargetList}
    (hbefore : before.EndsOnce) (hst : st.EndsOnce) (hnesting : st.nesting = 0)
    (hcounts : j.Counts d (run (afterTargets g before found st.current.kind) st)) :
    run (afterTargets g (j.state before) (Prod.map (Token.lowered j.lines)
        (Option.map (TargetList.lowered j.lines)) found) (j.state st).current.kind) (j.state st)
      = j.outcome (Stmt.lowered j.lines) (run (afterTargets g before found st.current.kind) st)
    ∧ ∀ e, (run (afterTargets g before found st.current.kind) st).1 = .error e →
      e.span.isSome = true := by
  obtain ⟨opening, list⟩ := found
  have hother := tupleOp?_state (j := j) hst list
  rcases htuple : tupleOp? list st.current.kind with _ | ⟨targets, op⟩ <;>
    rw [htuple] at hother
  · -- there are no targets, so the statement is read again from its parenthesis
    have hleft : run (afterTargets g before (opening, list) st.current.kind) st = _ :=
      run_afterTargets_none htuple
    rw [hleft] at hcounts ⊢
    rw [run_afterTargets_none hother]
    have hsimple : Follows j d { st with tokens := before.tokens } (simpleStatement g)
        (simpleStatement g) (Stmt.lowered j.lines) :=
      follows_simpleStatement hg fun h => absurd h (by simp [hnesting])
    exact (hsimple hbefore).2 hcounts
  · have hleft : afterTargets g before (opening, list) st.current.kind = _ :=
      afterTargets_some htuple
    rw [hleft] at hcounts ⊢
    rw [afterTargets_some hother]
    have hop : (destructuringOp? st.current.kind).isSome = true := by
      rcases list with _ | list
      · cases htuple
      · cases hop : destructuringOp? st.current.kind with
        | none => simp [tupleOp?, hop] at htuple
        | some op => rfl
    have hat : At st st.current := ⟨by rw [State.settle, if_neg (by omega)], rfl⟩
    exact (follows_destructure hg hnesting hat hop opening targets op hst).2 hcounts

theorem follows_parenthesized (hg : g.Joins) (hnesting : st.nesting = 0) (hat : At st t)
    (ht : t.kind = .lparen) :
    Follows j d st (parenthesized g) (parenthesized g) (Stmt.lowered j.lines) := by
  have hreads := reads_parenthesized hg.sound hat ht
  intro hst
  refine ⟨hreads.moves, fun hcounts => ?_⟩
  have hbounded : j.Bounded st.dropToken.tokens := by
    intro htail
    obtain ⟨⟨s, hs⟩, hclean, -⟩ := hcounts htail
    obtain ⟨used, hmoves, hread⟩ := hreads.read (Prod.ext hs rfl)
    have hcontent := (hat.moves (by simp [ht])).content
    rw [hmoves.content, significant_singleton (by simp [ht])] at hcontent
    exact exists_unlisted ht (hread True fun _ => hclean).1 ⟨_, hcontent⟩
  have hfollows : Follows j d st (parenthesized g) (parenthesized g) (Stmt.lowered j.lines) := by
    have hmoves := hreads.moves
    rw [parenthesized_eq, run_bind_ok (run_get st)] at hmoves
    rw [parenthesized_eq]
    have hsettle (st : State) (h : st.nesting = 0) : st.settle = st := by
      rw [State.settle, if_neg (by omega)]
    refine .get_bind (.bind_back hmoves (follows_openTargets hat ht hbounded) ?_ ?_)
    · intro found st₁ hclean
      rw [run_bind_ok (run_currentKind st₁)] at hclean
      obtain ⟨us, hsettled, -⟩ := Moves.settle st₁
      exact hsettled.clean (clean_of_afterTargets hg.sound hclean)
    · intro found st₁ used hused _ _ hcounts
      have hnesting₁ : st₁.nesting = 0 := hused.nesting.trans hnesting
      rw [run_bind_ok (run_currentKind st₁), hsettle st₁ hnesting₁] at hcounts ⊢
      rw [run_bind_ok (run_currentKind _), hsettle (j.state st₁) hnesting₁]
      exact run_afterTargets_state hg hst (hused.endsOnce hst) hnesting₁ hcounts
  exact (hfollows hst).2 hcounts

/-! ## Conditions -/

theorem follows_condition (hg : g.Joins) (word : String) :
    Follows j d st (condition g word) (condition g word) (Expr.lowered j.lines) := by
  refine .expect_bind (by decide) (by decide) fun _ st _ _ => (Closes.nested ?_).free
  refine .bind (hg.expr (fun _ => trivial) _) fun test st _ => ?_
  exact .expect_bind (by decide) (by decide) fun _ _ _ => .pure rfl

theorem follows_branch (hg : g.Joins) (hnesting : st.nesting = 0) (after : String) :
    Follows j d st (branch g after) (branch g after) (Stmt.lowered j.lines) := by
  refine .of_reads (reads_branch hg.sound after) (fun us s st' h => h.1.ne_nil rfl) ?_
  intro hregular
  refine .skipNewlines_bind hregular ?_
  refine .current_bind hregular.dropNewlines fun t st' _ hnesting' _ _ => ?_
  rw [Token.kind_lowered]
  split
  · exact .fail rfl
  · exact .fail rfl
  · exact .fail rfl
  · exact .fail rfl
  · exact (hg.statement j st' (hnesting'.trans hnesting)).weaken False.elim

/-- Where a word follows behind line feeds, something follows. -/
theorem regular_of_nextAfterNewlinesIs {kind : Token.Kind} (heof : kind ≠ .eof)
    (hnewline : kind ≠ .newline) (h : st.nextAfterNewlinesIs kind = true) : j.Regular st.tokens := by
  obtain ⟨word, hat, hword⟩ := at_of_nextAfterNewlinesIs h
  intro _
  rw [← content_dropNewlines, (hat.moves (hword ▸ heof)).content,
    significant_singleton (hword ▸ hnewline)]
  simp

theorem follows_cond (hg : g.Joins) (hnesting : st.nesting = 0) (hat : At st t)
    (ht : t.kind = .kwIf) : Follows j d st (cond g) (cond g) (Stmt.lowered j.lines) := by
  refine .advance_bind hat (by simp [ht]) fun st₁ hnesting₁ => ?_
  refine (follows_condition hg _).bind fun test st₂ hnesting₂ => ?_
  have hnesting₂ : st₂.nesting = 0 := hnesting₂.trans (hnesting₁.trans hnesting)
  refine (follows_branch hg hnesting₂ _).bind fun thenS st₃ hnesting₃ => ?_
  intro hst
  refine Follows.get_bind ?_ hst
  -- the look behind line feeds may leave the first text, but the other one does not start with `else`
  rw [Junction.nextAfterNewlinesIs_apart hst (.inl rfl)]
  split
  next helse =>
    have hregular : j.Regular st₃.tokens :=
      regular_of_nextAfterNewlinesIs (by decide) (by decide) helse
    obtain ⟨word, hword, hkind⟩ := at_of_nextAfterNewlinesIs helse
    refine .skipNewlines_bind hregular (.advance_bind hword (by simp [hkind]) fun st₄ hnesting₄ => ?_)
    have hnesting₄ : st₄.nesting = 0 := hnesting₄.trans (hnesting₃.trans hnesting₂)
    exact (follows_branch hg hnesting₄ _).bind fun elseS _ _ => .pure rfl
  next => exact .pure rfl

theorem follows_whileLoop (hg : g.Joins) (hat : At st t) (ht : t.kind = .kwWhile) :
    Follows j d st (whileLoop g) (whileLoop g) (Stmt.lowered j.lines) := by
  refine .advance_bind hat (by simp [ht]) fun st _ => ?_
  refine (follows_condition hg _).bind fun test st _ => ?_
  exact (follows_body hg).bind fun body _ _ => .pure rfl

/-! ## Loops -/

namespace ForShape

/-- The kinds that forms with names are made of. -/
def isLooked (kind : Token.Kind) : Bool :=
  kind = .lparen || kind = .rparen || kind = .ident || kind = .comma || kind = .kwIn

/-- A beginning of the kinds of a header that are looked at. -/
def Looked (us ks : List Token.Kind) : Prop := us <+: ks ∧ ∀ k ∈ us, isLooked k = true

theorem Looked.cons {us ks : List Token.Kind} {k : Token.Kind} (h : Looked us ks)
    (hk : isLooked k = true) : Looked (k :: us) (k :: ks) := by
  refine ⟨List.cons_prefix_cons.2 ⟨rfl, h.1⟩, fun u hu => ?_⟩
  rcases List.mem_cons.1 hu with rfl | hu
  · exact hk
  · exact h.2 u hu

/-- What is looked at ends in front of a kind that is not. -/
theorem Looked.front {us ks xs : List Token.Kind} {stop : Token.Kind}
    (h : Looked us (ks ++ stop :: xs)) (hstop : isLooked stop = false) : us <+: ks := by
  have hleft : ks ++ [stop] <+: ks ++ stop :: xs := ⟨xs, by simp⟩
  have hnot : stop ∉ us := fun hmem => by simp [h.2 stop hmem] at hstop
  rcases List.prefix_or_prefix_of_prefix h.1 hleft with hus | hus
  · rcases List.prefix_concat_iff.1 hus with rfl | hus
    · simp at hnot
    · exact hus
  · exact absurd (hus.subset (by simp)) hnot

theorem skipPairs_looked {ks rest : List Token.Kind}
    (h : afterNames.skipPairs ks = .rparen :: .kwIn :: rest) :
    ∃ us, Looked us ks ∧ ∀ ys, ∃ zs, afterNames.skipPairs (us ++ ys) = .rparen :: .kwIn :: zs := by
  fun_induction afterNames.skipPairs ks with
  | case1 ks ih =>
    obtain ⟨us, hus, hskip⟩ := ih h
    exact ⟨.comma :: .ident :: us, (hus.cons rfl).cons rfl, fun ys => hskip ys⟩
  | case2 ks _ =>
    subst h
    exact ⟨[.rparen, .kwIn], ⟨⟨rest, rfl⟩, by decide⟩, fun ys => ⟨ys, rfl⟩⟩

theorem namesThenIn_looked {ks : List Token.Kind} (h : namesThenIn ks = true) :
    ∃ us, Looked (.ident :: us) ks ∧ ∀ ys, namesThenIn (.ident :: (us ++ ys)) = true := by
  unfold namesThenIn afterNames at h
  split at h
  next rest hrest =>
    split at hrest
    next ks =>
      obtain ⟨us, hus, hskip⟩ := skipPairs_looked (Option.some.inj hrest)
      refine ⟨us, hus.cons rfl, fun ys => ?_⟩
      obtain ⟨zs, hzs⟩ := hskip ys
      simp [namesThenIn, afterNames, hzs]
    next => cases hrest
  next => cases h

/-- A form with names shows in kinds that are looked at, whatever stands behind them. -/
theorem ofKinds_looked {ks : List Token.Kind} (h : ofKinds ks ≠ .clauses) :
    ∃ us, Looked us ks ∧ ∀ ys, ofKinds (us ++ ys) = ofKinds ks := by
  unfold ofKinds at h
  split at h
  next rest => exact ⟨[.ident, .kwIn], ⟨⟨rest, rfl⟩, by decide⟩, fun _ => rfl⟩
  next rest =>
    split at h
    next hnames =>
      obtain ⟨us, hus, hskip⟩ := namesThenIn_looked hnames
      refine ⟨_, (hus.cons rfl).cons rfl, fun ys => ?_⟩
      simp [ofKinds, hnames, hskip ys]
    next => exact absurd rfl h
  next rest => exact ⟨[.lparen, .ident, .kwIn], ⟨⟨rest, rfl⟩, by decide⟩, fun _ => rfl⟩
  next rest hparen hin =>
    split at h
    next hnames =>
      obtain ⟨us, hus, hskip⟩ := namesThenIn_looked hnames
      refine ⟨_, hus.cons rfl, fun ys => ?_⟩
      have hright : ofKinds (.lparen :: rest) = .outside := by
        rw [ofKinds, if_pos hnames]
        · exact hparen
        · exact hin
      rw [hright]
      rcases us with _ | ⟨k, us⟩
      · cases hskip []
      · have hk : k ≠ .kwIn := by
          rintro rfl
          obtain ⟨zs, hzs⟩ := hus.1
          exact hin _ hzs.symm
        simp only [List.cons_append] at hskip ⊢
        simp [ofKinds, hk, hskip ys]
    next => exact absurd rfl h
  next => exact absurd rfl h

/-- A kind that is not looked at hides what stands behind it. -/
theorem ofKinds_stop {stop : Token.Kind} (h : isLooked stop = false) (ks xs ys : List Token.Kind) :
    ofKinds (ks ++ stop :: xs) = ofKinds (ks ++ stop :: ys) := by
  have hkeep (xs ys : List Token.Kind) (hshape : ofKinds (ks ++ stop :: xs) ≠ .clauses) :
      ofKinds (ks ++ stop :: ys) = ofKinds (ks ++ stop :: xs) := by
    obtain ⟨us, hus, hsame⟩ := ofKinds_looked hshape
    obtain ⟨zs, rfl⟩ := hus.front h
    rw [← hsame (zs ++ stop :: ys), List.append_assoc]
  -- a form with names on one side shows on the other, so clauses on one side are clauses on both
  by_cases hxs : ofKinds (ks ++ stop :: xs) = .clauses
  · by_cases hys : ofKinds (ks ++ stop :: ys) = .clauses
    · rw [hxs, hys]
    · exact hkeep ys xs hys
  · exact (hkeep xs ys hxs).symm

/-- A form with names that shows in front of the end shows in front of anything. -/
theorem ofKinds_of_end {ks : List Token.Kind} (h : ofKinds (ks ++ [Token.Kind.eof]) ≠ .clauses)
    (ys : List Token.Kind) : ofKinds (ks ++ ys) = ofKinds (ks ++ [Token.Kind.eof]) := by
  obtain ⟨us, hus, hsame⟩ := ofKinds_looked h
  obtain ⟨zs, rfl⟩ := hus.front rfl
  rw [← hsame (zs ++ ys), List.append_assoc]

/-- The first kinds of a header decide its form if it is one with names or has a semicolon. -/
theorem ofKinds_take {n : Nat} {ks : List Token.Kind}
    (h : ofKinds (List.take n (ks ++ [Token.Kind.eof])) ≠ .clauses ∨ Token.Kind.semicolon ∈ ks)
    (ys : List Token.Kind) :
    ofKinds (List.take n (ks ++ ys)) = ofKinds (List.take n (ks ++ [Token.Kind.eof])) := by
  -- the look may end inside of the first text
  by_cases hlong : n ≤ ks.length
  · rw [List.take_append_of_le_length hlong, List.take_append_of_le_length hlong]
  · have htake : List.take n (ks ++ ys) = ks ++ ys.take (n - ks.length) := by
      rw [List.take_append, List.take_of_length_le (by omega)]
    have hend : List.take n (ks ++ [Token.Kind.eof]) = ks ++ [Token.Kind.eof] := by
      rw [List.take_of_length_le]
      simp only [List.length_append, List.length_singleton]
      omega
    rw [hend] at h ⊢
    rw [htake]
    rcases h with hshape | hmem
    · exact ofKinds_of_end hshape _
    · obtain ⟨us, vs, rfl⟩ := List.append_of_mem hmem
      have hstop : isLooked .semicolon = false := rfl
      simpa using ofKinds_stop hstop us (vs ++ ys.take _) (vs ++ [Token.Kind.eof])

end ForShape

/-- The kinds of a header. -/
def headerKinds (ts : List Token) : List Token.Kind := (ts.map (·.kind)).filter (· ≠ .newline)

theorem headerKinds_append (ts us : List Token) :
    headerKinds (ts ++ us) = headerKinds ts ++ headerKinds us := by
  simp [headerKinds]

theorem headerKinds_lowered (n : Nat) (ts : List Token) :
    headerKinds (ts.map (Token.lowered n)) = headerKinds ts := by
  rw [headerKinds, List.map_map]
  rfl

theorem headerKinds_beforeEnd (ts : List Token) :
    headerKinds (Token.beforeEnd ts) = (content ts).map (·.kind) := List.filter_map

/-- A header has the same form on both sides if it is one with names or has a semicolon. -/
theorem forShape_state (hst : st.EndsOnce) (h : j.tail.isSome = true →
      forShape st ≠ .clauses ∨ ∃ t ∈ content st.tokens, t.kind = .semicolon) :
    forShape (j.state st) = forShape st := by
  obtain ⟨lines, tail⟩ := j
  cases tail with
  | none =>
    exact congrArg (fun ks => ForShape.ofKinds (List.take forLookahead ks))
      (headerKinds_lowered lines st.tokens)
  | some tail =>
    obtain ⟨last, hlast, htokens⟩ := hst.split
    have hleft : forShape st = .ofKinds
        (List.take forLookahead ((content st.tokens).map (·.kind) ++ [Token.Kind.eof])) := by
      have hkinds : headerKinds st.tokens
          = (content st.tokens).map (·.kind) ++ [Token.Kind.eof] := by
        rw [htokens, headerKinds_append, ← htokens, headerKinds_beforeEnd]
        simp [headerKinds, hlast]
      rw [← hkinds]
      rfl
    have hright : forShape (Junction.state ⟨lines, some tail⟩ st) = .ofKinds (List.take forLookahead
        ((content st.tokens).map (·.kind) ++ headerKinds tail.tokens)) := by
      rw [← headerKinds_beforeEnd, ← headerKinds_lowered lines, ← headerKinds_append]
      rfl
    rw [hleft] at h
    rw [hleft, hright]
    refine ForShape.ofKinds_take ((h rfl).imp_right ?_) _
    rintro ⟨t, ht, hkind⟩
    exact hkind ▸ List.mem_map_of_mem ht

/-- Three clauses are read with a semicolon. -/
theorem reads_clauses_semicolon (hg : g.Sound) (pos : Position) :
    Reads st (clauses g pos) fun _ us _ _ => ∃ sep ∈ us, sep.kind = .semicolon := by
  refine .expect_bind (by decide) (by decide) fun _ st _ => ?_
  refine Reads.bind (R := fun _ us _ _ => ∃ sep ∈ us, sep.kind = .semicolon)
    (.nested fun st => ?_) fun parts us st _ => ?_
  · have hsimple (st : State) : Reads st (simpleStatement g) fun _ _ _ _ => True :=
      (reads_simpleStatement hg).mono fun _ _ _ _ _ => trivial
    refine .unless_bind (O := fun _ _ _ => True) (fun _ => trivial) hsimple fun init ts st => ?_
    refine .expect_bind (by decide) (by decide) fun sep st hsep => ?_
    refine .unless_bind (O := fun _ _ _ => True) (fun _ => trivial)
      (fun st => (hg.expression _ st).mono fun _ _ _ _ _ => trivial) fun test vs st => ?_
    refine .expect_bind (by decide) (by decide) fun _ st _ => ?_
    refine .unless_bind (O := fun _ _ _ => True) (fun _ => trivial) hsimple fun post ws st => ?_
    refine .expect_bind (by decide) (by decide) fun _ st _ => .pure fun S _ _ _ _ => ?_
    exact ⟨sep, by simp, hsep⟩
  · refine (reads_body hg).bind fun body vs st _ => .pure fun S _ _ hparts => ?_
    obtain ⟨sep, hmem, hsep⟩ := hparts
    exact ⟨sep, by simp [hmem], hsep⟩

theorem follows_clauses (hg : g.Joins) (pos : Position) :
    Follows j d st (clauses g pos) (clauses g (pos.lowered j.lines)) (Stmt.lowered j.lines) := by
  refine .expect_bind (by decide) (by decide) fun _ st _ _ => ?_
  refine Follows.bind (φ := Prod.map (Option.map (Stmt.lowered j.lines))
    (Prod.map (Option.map (Expr.lowered j.lines)) (Option.map (Stmt.lowered j.lines))))
    (Closes.nested ?_).free fun parts st _ => ?_
  · refine .unless_bind (fun st => follows_simpleStatement hg fun _ => trivial) fun init st => ?_
    refine .bind (.expect (by decide) (by decide)) fun _ st _ => ?_
    refine .unless_bind (fun st => hg.expr (fun _ => trivial) _) fun test st => ?_
    refine .bind (.expect (by decide) (by decide)) fun _ st _ => ?_
    refine .unless_bind (fun st => follows_simpleStatement hg fun _ => trivial) fun post st => ?_
    exact .expect_bind (by decide) (by decide) fun _ _ _ => .pure rfl
  · obtain ⟨init, test, post⟩ := parts
    exact (follows_body hg).bind fun body _ _ => .pure (by simp [Stmt.lowered])

theorem follows_forSequence (hg : g.Joins) (hd : 0 < st.nesting → d) :
    Follows j d st (forSequence g) (forSequence g) (Expr.lowered j.lines) :=
  .expect_bind (by decide) (by decide) fun _ _ _ hnesting => hg.expr (fun h => hd (hnesting ▸ h)) _

theorem closes_forTargets :
    Closes j st forTargets forTargets (List.map (Ident.lowered j.lines)) := by
  refine .bind (.commaSeparated (fun _ => trivial) (fun st => (reads_expectIdent _).moves)
    fun st _ => .expectIdent) fun targets st _ => ?_
  exact .expect_bind (by decide) (by decide) fun _ _ _ => .pure rfl

theorem follows_checkTargets {α β : Type} {ψ : α → β} {f : Unit → Parse α} {f' : Unit → Parse β}
    (pos : Position) (targets : List Ident)
    (h : ∀ st', st'.nesting = st.nesting → Follows j d st' (f ()) (f' ()) ψ) :
    Follows j d st (checkTargets pos targets >>= f)
      (checkTargets (pos.lowered j.lines) (targets.map (Ident.lowered j.lines)) >>= f') ψ := by
  unfold checkTargets
  rw [List.length_map]
  split
  · have hstart : ((targets.map (Ident.lowered j.lines)).head?.map (·.pos)).getD (pos.lowered j.lines)
        = ((targets.head?.map (·.pos)).getD pos).lowered j.lines := by
      cases targets <;> rfl
    rw [hstart]
    exact .record_bind rfl fun st _ hnesting => h st hnesting
  · simpa using h st rfl

theorem follows_finishForIn (hg : g.Joins) (pos : Position) (targets : List Ident) (seq : Expr) :
    Follows j d st (finishForIn g pos targets seq) (finishForIn g (pos.lowered j.lines)
      (targets.map (Ident.lowered j.lines)) (seq.lowered j.lines)) (Stmt.lowered j.lines) := by
  refine (follows_body hg).bind fun body _ _ => .pure ?_
  cases targets <;> simp [Stmt.lowered, Ident.lowered]

/-- A loop behind the word `for`, by the form of its header. -/
def forRest (g : Grammar) (pos : Position) : ForShape → Parse Stmt
  | .clauses => clauses g pos
  | .bare => do
    let key ← expectIdent "after 'for'"
    let seq ← forSequence g
    finishForIn g pos [key] seq
  | .inParens => do
    let _ ← expect .lparen "after 'for'"
    let (key, seq) ← nested do
      let key ← expectIdent "after 'for'"
      let seq ← forSequence g
      let _ ← expect .rparen "after for-in header"
      return (key, seq)
    finishForIn g pos [key] seq
  | .grouped => do
    let _ ← expect .lparen "after 'for'"
    let (targets, seq) ← nested do
      let _ ← expect .lparen ""
      let targets ← forTargets
      let seq ← forSequence g
      let _ ← expect .rparen "after for-in header"
      return (targets, seq)
    checkTargets pos targets
    finishForIn g pos targets seq
  | .outside => do
    let _ ← expect .lparen "after 'for'"
    let targets ← nested forTargets
    checkTargets pos targets
    let seq ← forSequence g
    finishForIn g pos targets seq

theorem forLoop_eq (g : Grammar) :
    forLoop g = advance >>= fun word => get >>= fun st => forRest g word.pos (forShape st) := by
  unfold forLoop
  refine bind_congr fun word => bind_congr fun st => ?_
  cases forShape st <;> rfl

theorem follows_forRest (hg : g.Joins) (hnesting : st.nesting = 0) (pos : Position)
    (shape : ForShape) : Follows j d st (forRest g pos shape)
      (forRest g (pos.lowered j.lines) shape) (Stmt.lowered j.lines) := by
  cases shape with
  | clauses => exact follows_clauses hg pos
  | bare =>
    refine .expectIdent_bind fun key st₁ hnesting₁ => ?_
    refine (follows_forSequence hg fun h => by omega).bind fun seq st₂ _ => ?_
    exact follows_finishForIn hg pos [key] seq
  | inParens =>
    refine .expect_bind (by decide) (by decide) fun _ st₁ _ _ => ?_
    refine Follows.bind (φ := Prod.map (Ident.lowered j.lines) (Expr.lowered j.lines))
      (Closes.nested ?_).free fun header st₂ _ => follows_finishForIn hg pos [header.1] header.2
    refine .bind .expectIdent fun key st _ => ?_
    refine .bind (follows_forSequence hg fun _ => trivial) fun seq st _ => ?_
    exact .expect_bind (by decide) (by decide) fun _ _ _ => .pure rfl
  | grouped =>
    refine .expect_bind (by decide) (by decide) fun _ st₁ _ _ => ?_
    refine Follows.bind (φ := Prod.map (List.map (Ident.lowered j.lines)) (Expr.lowered j.lines))
      (Closes.nested ?_).free fun header st₂ _ => ?_
    · refine .bind (.expect (by decide) (by decide)) fun _ st _ => ?_
      refine .bind closes_forTargets.free fun targets st _ => ?_
      refine .bind (follows_forSequence hg fun _ => trivial) fun seq st _ => ?_
      exact .expect_bind (by decide) (by decide) fun _ _ _ => .pure rfl
    · exact follows_checkTargets pos header.1 fun st _ => follows_finishForIn hg pos header.1 header.2
  | outside =>
    refine .expect_bind (by decide) (by decide) fun _ st₁ _ hnesting₁ => ?_
    refine (Closes.nested closes_forTargets).free.bind fun targets st₂ hnesting₂ => ?_
    refine follows_checkTargets pos targets fun st₃ hnesting₃ => ?_
    refine (follows_forSequence hg fun h => by omega).bind fun seq st _ => ?_
    exact follows_finishForIn hg pos targets seq

theorem follows_forLoop (hg : g.Joins) (hnesting : st.nesting = 0) (hat : At st t)
    (ht : t.kind = .kwFor) : Follows j d st (forLoop g) (forLoop g) (Stmt.lowered j.lines) := by
  rw [forLoop_eq]
  refine .advance_bind hat (by simp [ht]) fun st₁ hnesting₁ hst => ?_
  by_cases hdecided : j.tail.isSome = true →
      forShape st₁ ≠ .clauses ∨ ∃ t ∈ content st₁.tokens, t.kind = .semicolon
  · refine Follows.get_bind ?_ hst
    rw [forShape_state hst hdecided]
    exact follows_forRest hg (hnesting₁.trans hnesting) t.pos _
  · -- the clauses lack a semicolon, so they cannot be read
    obtain ⟨htail, hundecided⟩ := Classical.not_imp.1 hdecided
    obtain ⟨hclauses, hsemicolon⟩ := not_or.1 hundecided
    have hrun : run (get >>= fun st => forRest g t.pos (forShape st)) st₁
        = run (clauses g t.pos) st₁ := by
      rw [run_bind_ok (run_get st₁), not_not.1 hclauses]
      rfl
    have hreads : Reads st₁ (clauses g t.pos) _ := reads_clauses_semicolon hg.sound t.pos
    refine Follows.of_void (by rw [hrun]; exact hreads.moves) (fun s hs => ?_)
      (fun hnone => by simp [hnone] at htail) hst
    rw [hrun] at hs
    obtain ⟨used, hmoves, hread⟩ := hreads.read (Prod.ext hs rfl)
    obtain ⟨sep, hmem, hsep⟩ := hread False (by simp)
    refine absurd ⟨sep, ?_, hsep⟩ hsemicolon
    rw [hmoves.content]
    exact List.mem_append_left _ hmem

/-! ## Switch and try -/

/-- A token that may stand on a later line. -/
theorem follows_expectBelow {kind : Token.Kind} {context : String} (heof : kind ≠ .eof)
    (hnewline : kind ≠ .newline) :
    Follows j d st (skipNewlines >>= fun _ => expect kind context)
      (skipNewlines >>= fun _ => expect kind context) (Token.lowered j.lines) := by
  have hreads : Reads st (skipNewlines >>= fun _ => expect kind context)
      fun _ us t _ => us = [t] ∧ t.kind = kind := .skipNewlines_bind (.expect heof hnewline)
  refine .of_reads hreads (fun us t st' h => by simp [h.1]) fun hregular => ?_
  exact .skipNewlines_bind hregular (.expect heof hnewline)

theorem follows_switch (hg : g.Joins) (hat : At st t) (ht : t.kind = .kwSwitch) :
    Follows j d st (switch g) (switch g) (Stmt.lowered j.lines) := by
  refine .advance_bind hat (by simp [ht]) fun st _ => ?_
  refine (follows_condition hg _).bind fun value st _ => ?_
  rw [← bind_assoc, ← bind_assoc]
  refine (follows_expectBelow (by decide) (by decide)).bind fun _ st _ => (Closes.asStatements ?_).free
  refine (closes_arms (φ := SwitchCase.lowered j.lines) (ψ := Block.lowered j.lines)
    (fun word st => ?_)
    (fun st => (reads_body hg.sound).moves) (fun word st _ => ?_)
    fun st _ => follows_body hg).then_bind fun arms st _ => ?_
  · refine Reads.moves (R := fun _ _ _ _ => True) ((reads_caseValues hg.sound).bind fun _ _ st _ => ?_)
    exact (reads_body hg.sound).bind fun _ _ st _ => .pure fun _ _ _ _ => trivial
  · refine (follows_caseValues hg fun _ => trivial).bind fun values st _ => ?_
    exact (follows_body hg).bind fun body st _ => .pure (by simp [SwitchCase.lowered])
  · exact .pure (by simp [Stmt.lowered])

/-- A handler in a place where something follows. -/
theorem follows_handler (hg : g.Joins) (hnesting : st.nesting = 0) (hregular : j.Regular st.tokens) :
    Follows j d st (handler g) (handler g) (Option.map (CatchClause.lowered j.lines)) := by
  intro hst
  refine Follows.get_bind ?_ hst
  rw [Junction.nextAfterNewlinesIs_state hst hregular]
  split
  next => exact .pure rfl
  next hcatch =>
    obtain ⟨word, hat, hword⟩ := at_of_nextAfterNewlinesIs (by simpa using hcatch)
    refine .skipNewlines_bind hregular (.advance_bind hat (by simp [hword]) fun st₁ hnesting₁ => ?_)
    have hnesting₁ : st₁.nesting = 0 := hnesting₁.trans hnesting
    refine .eat_bind (fun h => by omega) (by decide) (by decide) (fun st₂ _ => ?_) fun st₂ _ => ?_
    · refine Follows.bind (φ := Option.map (Ident.lowered j.lines)) (Closes.nested ?_).free
        fun name st _ => ?_
      · refine .bind .expectIdent fun name st _ => ?_
        exact .expect_bind (by decide) (by decide) fun _ _ _ => .pure rfl
      · exact (follows_body hg).bind fun body st _ => .pure rfl
    · exact (follows_body hg).bind fun body st _ => .pure rfl

theorem follows_finalizer (hg : g.Joins) :
    Follows j d st (finalizer g) (finalizer g) (Option.map (Block.lowered j.lines)) := by
  intro hst
  refine Follows.get_bind ?_ hst
  rw [Junction.nextAfterNewlinesIs_apart hst (.inr rfl)]
  split
  next => exact .pure rfl
  next hfinally =>
    have hfinally : st.nextAfterNewlinesIs .kwFinally = true := by simpa using hfinally
    have hregular : j.Regular st.tokens :=
      regular_of_nextAfterNewlinesIs (by decide) (by decide) hfinally
    obtain ⟨word, hat, hword⟩ := at_of_nextAfterNewlinesIs hfinally
    refine .skipNewlines_bind hregular (.advance_bind hat (by simp [hword]) fun st _ => ?_)
    exact (follows_body hg).bind fun body st _ => .pure rfl

/-- What a `try` statement has behind its body. -/
def tryClauses (g : Grammar) (pos : Position) (body : Block) : Parse Stmt := do
  let handler ← handler g
  let finalizer ← finalizer g
  if handler.isNone && finalizer.isNone then return ← fail .noHandler (← current)
  return .tryCatch pos body handler finalizer

theorem reads_tryClauses (hg : g.Sound) (pos : Position) (body : Block) :
    Reads st (tryClauses g pos body) fun _ us _ _ => us ≠ [] := by
  refine (reads_handler hg).bind fun handler us st _ => ?_
  refine (reads_finalizer hg).bind fun finalizer vs st _ => ?_
  split
  next => exact .current_bind fun _ st _ => .fail _ _
  next hsome =>
    refine .pure fun S _ hfinalizer hhandler => ?_
    cases hhandler with
    | handlerNone =>
      cases hfinalizer with
      | finalizerNone => simp at hsome
      | finalizerSome => simp
    | handlerPlain => simp
    | handlerNamed => simp

theorem follows_tryCatch (hg : g.Joins) (hnesting : st.nesting = 0) (hat : At st t)
    (ht : t.kind = .kwTry) : Follows j d st (tryCatch g) (tryCatch g) (Stmt.lowered j.lines) := by
  refine .advance_bind hat (by simp [ht]) fun st₁ hnesting₁ => ?_
  refine (follows_body hg).bind fun body st₂ hnesting₂ => ?_
  -- a statement without a handler and a final block fails, so there is something behind the body
  refine .of_reads (reads_tryClauses hg.sound t.pos body) (fun _ _ _ h => h) fun hregular => ?_
  refine (follows_handler hg (hnesting₂.trans (hnesting₁.trans hnesting)) hregular).bind
    fun handler st _ => ?_
  refine (follows_finalizer hg).bind fun finalizer st _ => ?_
  rw [Option.isNone_map, Option.isNone_map]
  split
  · exact .current_fail fun _ => rfl
  · exact .pure (by simp [Stmt.lowered])

/-! ## Declarations and jumps -/

theorem follows_funcStatement (hg : g.Joins) (hat : At st t) (ht : t.kind = .kwFunc) :
    Follows j d st (funcStatement g) (funcStatement g) (Stmt.lowered j.lines) := by
  refine .advance_bind hat (by simp [ht]) fun st _ => ?_
  refine .expectIdent_bind fun name st _ => ?_
  refine follows_params.bind fun names st _ => ?_
  exact (follows_body hg).bind fun body st _ => .pure (by simp [Stmt.lowered])

theorem follows_ret (hg : g.Joins) (hnesting : st.nesting = 0) (hat : At st t)
    (ht : t.kind = .kwReturn) : Follows j d st (ret g) (ret g) (Stmt.lowered j.lines) := by
  refine .advance_bind hat (by simp [ht]) fun st₁ hnesting₁ => ?_
  have hnesting₁ : st₁.nesting = 0 := hnesting₁.trans hnesting
  refine .currentKind_bind (fun h => by omega) (fun u st₂ _ hnesting₂ => ?_) fun _ _ => .pure rfl
  have houtside : ¬0 < st₂.nesting := by omega
  split
  · exact .pure rfl
  · exact .pure rfl
  · exact .pure rfl
  · exact .pure rfl
  · exact .pure rfl
  · exact (follows_caseValues hg fun h => absurd h houtside).bind fun values st _ =>
      .pure (by simp [Stmt.lowered])

theorem follows_raise (hg : g.Joins) (hnesting : st.nesting = 0) (hat : At st t)
    (ht : t.kind = .kwThrow) : Follows j d st (raise g) (raise g) (Stmt.lowered j.lines) := by
  refine .advance_bind hat (by simp [ht]) fun st₁ hnesting₁ => ?_
  exact (hg.expr (fun h => by omega) _).bind fun value st _ => .pure rfl

theorem isCall_lowered (n : Nat) (e : Expr) : (e.lowered n).isCall = e.isCall := by
  cases e <;> rfl

theorem follows_defer (hg : g.Joins) (hnesting : st.nesting = 0) (hat : At st t)
    (ht : t.kind = .kwDefer) : Follows j d st (defer g) (defer g) (Stmt.lowered j.lines) := by
  refine .advance_bind hat (by simp [ht]) fun st₁ hnesting₁ => ?_
  refine (hg.expr (fun h => by omega) _).bind fun call st _ => ?_
  rw [isCall_lowered]
  split
  · exact .pure rfl
  · exact .fail rfl

theorem follows_asName (hnesting : st.nesting = 0) :
    Follows j d st asName asName (Option.map (Ident.lowered j.lines)) := by
  refine .eat_bind (fun h => by omega) (by decide) (by decide) (fun st _ => ?_) fun _ _ => .pure rfl
  exact Follows.expectIdent.mapSome

theorem follows_importPath (context : String) :
    Follows j d st (importPath context) (importPath context) (ImportPath.lowered j.lines) :=
  .expect_bind (by decide) (by decide) fun _ _ _ _ => .pure rfl

theorem follows_importAs (hnesting : st.nesting = 0) (hat : At st t) (ht : t.kind = .kwImport) :
    Follows j d st importAs importAs (Stmt.lowered j.lines) := by
  refine .advance_bind hat (by simp [ht]) fun st₁ hnesting₁ => ?_
  refine (follows_importPath _).bind fun path st₂ hnesting₂ => ?_
  exact (follows_asName (hnesting₂.trans (hnesting₁.trans hnesting))).bind fun name _ _ => .pure rfl

theorem follows_importFrom (hnesting : st.nesting = 0) (hat : At st t) (ht : t.kind = .kwFrom) :
    Follows j d st importFrom importFrom (Stmt.lowered j.lines) := by
  refine .advance_bind hat (by simp [ht]) fun st₁ hnesting₁ => ?_
  refine (follows_importPath _).bind fun path st₂ hnesting₂ => ?_
  refine .expect_bind (by decide) (by decide) fun _ st₃ _ hnesting₃ => ?_
  have hnesting₃ : st₃.nesting = 0 :=
    hnesting₃.trans (hnesting₂.trans (hnesting₁.trans hnesting))
  refine (Follows.commaSeparated (φ := ImportItem.lowered j.lines) (fun h => by omega) (fun st => ?_)
    fun st₄ hnesting₄ => ?_).bind fun items st _ => .pure rfl
  · refine Reads.moves (R := fun _ _ _ _ => True) ((reads_expectIdent _).bind fun _ _ st _ => ?_)
    exact reads_asName.bind fun _ _ st _ => .pure fun _ _ _ _ => trivial
  · refine .expectIdent_bind fun name st₅ hnesting₅ => ?_
    exact (follows_asName (hnesting₅.trans (hnesting₄.trans hnesting₃))).bind fun as _ _ => .pure rfl

theorem isExportable_lowered (n : Nat) (s : Stmt) : isExportable (s.lowered n) = isExportable s := by
  cases s <;> rfl

theorem follows_exported (hg : g.Joins) (hnesting : st.nesting = 0) (hat : At st t)
    (ht : t.kind = .kwExport) : Follows j d st (exported g) (exported g) (Stmt.lowered j.lines) := by
  refine .advance_bind hat (by simp [ht]) fun st₁ hnesting₁ => ?_
  refine .current_bind_or_fail (fun t ht => ⟨.noStatement "export", by simp [ht]⟩)
    fun next st₂ _ hnesting₂ _ => ?_
  rw [Token.kind_lowered]
  split
  · exact .fail rfl
  · exact .fail rfl
  · exact .fail rfl
  · have hnesting₂ : st₂.nesting = 0 := hnesting₂.trans (hnesting₁.trans hnesting)
    refine ((hg.statement j st₂ hnesting₂).weaken False.elim).bind fun s st _ => ?_
    rw [isExportable_lowered]
    split
    · exact .pure rfl
    · exact .fail rfl

/-! ## Statements -/

theorem follows_statement (hg : g.Joins) (hnesting : st.nesting = 0) :
    Follows j d st (statement g) (statement g) (Stmt.lowered j.lines) := by
  refine .currentKind_bind (fun h => by omega) (fun t st' hat hnesting' => ?_) fun st' hnesting' => ?_
  · replace hnesting : st'.nesting = 0 := hnesting'.trans hnesting
    have hsimple : Follows j d st' (simpleStatement g) (simpleStatement g) (Stmt.lowered j.lines) :=
      follows_simpleStatement hg fun h => by omega
    split
    next ht =>
      refine .nextKind_bind_outside hnesting hat (by simp [ht]) (fun kind => ?_) hsimple
      split
      · exact follows_funcStatement hg hat ht
      · exact hsimple
    next ht => exact follows_ret hg hnesting hat ht
    next ht => exact .advance_bind hat (by simp [ht]) fun _ _ => .pure rfl
    next ht => exact .advance_bind hat (by simp [ht]) fun _ _ => .pure rfl
    next ht => exact .advance_bind hat (by simp [ht]) fun _ _ => .pure rfl
    next ht => exact follows_cond hg hnesting hat ht
    next ht => exact follows_whileLoop hg hat ht
    next ht => exact follows_forLoop hg hnesting hat ht
    next ht => exact follows_switch hg hat ht
    next ht => exact follows_tryCatch hg hnesting hat ht
    next ht => exact follows_raise hg hnesting hat ht
    next ht => exact follows_defer hg hnesting hat ht
    next ht => exact follows_importAs hnesting hat ht
    next ht => exact follows_importFrom hnesting hat ht
    next ht => exact follows_exported hg hnesting hat ht
    next ht => exact (follows_block hg).bind fun body _ _ => .pure rfl
    next ht => exact follows_parenthesized hg hnesting hat ht
    next => exact hsimple
  · exact follows_simpleStatement hg fun h => by omega

/-- The parsers of every depth do the same on both sides of every junction. -/
theorem Grammar.joins_ofDepth (depth : Nat) : (Grammar.ofDepth depth).Joins := by
  induction depth with
  | zero =>
    exact ⟨Grammar.sound_ofDepth 0, fun _ _ _ => .current_fail fun _ => rfl,
      fun _ _ _ => .current_fail fun _ => rfl⟩
  | succ depth ih =>
    exact ⟨Grammar.sound_ofDepth (depth + 1), fun _ level _ => follows_expression ih level id,
      fun _ _ hnesting => follows_statement ih hnesting⟩

end Welle.Parser
