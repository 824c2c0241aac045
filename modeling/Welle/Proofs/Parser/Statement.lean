import Welle.Proofs.Parser.Expression

set_option autoImplicit false

/-! # Programs are read as the grammar says

The parsers of statements read what the grammar derives, and so do the parsers of every depth. The
theorem for whole programs is `derives_parse`. -/

namespace Welle

namespace Parser

open Welle.Grammar (Derives Item Phrase identOf content)

variable {g : Grammar} {st : State} {t : Token}

/-- The tokens are read as a statement to which no `else` can be added. -/
def ReadClosed (S : Prop) (us : List Token) (s : Stmt) : Prop :=
  Derives S us (.stmt s) ∧ s.endsOpen = false

/-! ## Simple statements -/

theorem endsOpen_toStmt (start : Position) (e : Expr) : (toStmt start e).endsOpen = false := by
  unfold toStmt
  split <;> rfl

theorem reads_simpleStatement (hg : g.Sound) : Reads st (simpleStatement g) fun S us s _ =>
    ReadClosed S us s := by
  refine .current_bind fun t st _ => ?_
  refine (reads_expression hg _).bind fun e us st _ => .pure fun S _ he => ?_
  exact ⟨by simpa using Derives.simple he, endsOpen_toStmt t.pos e⟩

theorem reads_scanTarget : Reads st scanTarget fun S us found _ =>
    ∀ target star, found = some (target, star) → Derives S us (.item (.target target))
      ∧ star.toList.length = ([target].filter (·.isStarred)).length := by
  refine Reads.advance.bind fun t us st _ => ?_
  split
  next ht =>
    refine Reads.advance.bind fun name vs st _ => ?_
    split
    next hname =>
      refine .pure fun S _ hvs hus target star h => ?_
      obtain ⟨rfl, rfl⟩ := Prod.mk.inj (Option.some.inj h)
      rw [hus (by simp [ht]) (by simp [ht]), hvs (by simp [hname]) (by simp [hname])]
      exact ⟨.targetStarred ht hname, rfl⟩
    next => exact .pure fun S _ _ _ _ _ h => by cases h
  next ht =>
    split
    next hdiscard =>
      refine .pure fun S _ hus target star h => ?_
      obtain ⟨rfl, rfl⟩ := Prod.mk.inj (Option.some.inj h)
      rw [hus (by simp [ht]) (by simp [ht])]
      exact ⟨.targetDiscard ht hdiscard, rfl⟩
    next hname =>
      refine .pure fun S _ hus target star h => ?_
      obtain ⟨rfl, rfl⟩ := Prod.mk.inj (Option.some.inj h)
      rw [hus (by simp [ht]) (by simp [ht])]
      exact ⟨.targetName ht hname, rfl⟩
  next => exact .pure fun S _ _ _ _ h => by cases h

/-- Items behind a comma follow other items. -/
theorem derives_more {S : Prop} {comma : Token} {ts : List Token} {is : List Item}
    (hcomma : comma.kind = .comma) (his : is ≠ []) (h : Derives S ts (.items is)) :
    Derives S (comma :: ts) (.more is) := by
  cases h with
  | itemsNil => exact absurd rfl his
  | itemsCons hi hmore => exact .moreCons hcomma hi hmore

/-- Targets up to a closing parenthesis, with the stars in front of them. -/
def TargetsRead (S : Prop) (us : List Token) (list : TargetList) : Prop :=
  ∃ ts, ∃ r : Token, us = ts ++ [r] ∧ r.kind = .rparen ∧ list.targets ≠ []
    ∧ Derives S ts (.items (list.targets.map .target))
    ∧ list.stars.length = (list.targets.filter (·.isStarred)).length

theorem reads_scanTargets (limit : Nat) : Reads st (scanTargets limit) fun S us found _ =>
    ∀ list, found = some list → TargetsRead S us list := by
  induction limit generalizing st with
  | zero => exact .pure fun S _ list h => by cases h
  | succ limit ih =>
    refine reads_scanTarget.bind fun found us st _ => ?_
    rcases found with _ | ⟨target, star⟩
    · exact .pure fun S _ _ list h => by cases h
    refine Reads.advance.bind fun t vs st _ => ?_
    split
    -- the parenthesis ends the list
    next ht =>
      refine .pure fun S _ hvs htarget list h => ?_
      obtain rfl := Option.some.inj h
      obtain ⟨htarget, hstar⟩ := htarget target star rfl
      rw [hvs (by simp [ht]) (by simp [ht])]
      have hall : Derives S us (.items ([target].map .target)) := by
        simpa using Derives.itemsCons htarget .moreNil
      exact ⟨us, t, rfl, ht, by simp, hall, hstar⟩
    -- behind a comma the list may end or go on
    next ht =>
      refine .eat_bind (by decide) (by decide) (fun r st hr => ?_) (fun _ st _ _ => ?_)
      · refine .pure fun S _ hvs htarget list h => ?_
        obtain rfl := Option.some.inj h
        obtain ⟨htarget, hstar⟩ := htarget target star rfl
        rw [hvs (by simp [ht]) (by simp [ht])]
        have hall : Derives S (us ++ [t]) (.items ([target].map .target)) :=
          .itemsCons htarget (.moreTrailing ht)
        exact ⟨us ++ [t], r, by simp, hr, by simp, hall, hstar⟩
      · refine ih.bind fun rest ws st _ => ?_
        cases rest with
        | none => exact .pure fun S _ _ _ _ list h => by cases h
        | some rest =>
          refine .pure fun S _ hrest hvs htarget list h => ?_
          obtain rfl := Option.some.inj h
          obtain ⟨htarget, hstar⟩ := htarget target star rfl
          obtain ⟨ts, r, rfl, hr, hne, hrest, hstars⟩ := hrest rest rfl
          rw [hvs (by simp [ht]) (by simp [ht])]
          have hmore := derives_more ht (by simpa using hne) hrest
          refine ⟨us ++ t :: ts, r, by simp, hr, by simp, .itemsCons htarget hmore, ?_⟩
          rw [List.length_append, hstar, hstars, ← List.length_append, ← List.filter_append]
          rfl
    next => exact .pure fun S _ _ _ list h => by cases h

/-- What `destructuring` reads before it decides: the parenthesis, the target list, if it is one, and
    the kind of the token behind it. -/
def destructuringHeader : Parse (Token × Option TargetList × Token.Kind) := do
  let opening ← advance
  let list ← nested (do scanTargets (← get).tokens.length)
  return (opening, list, ← currentKind)

/-- What `destructuring` does behind its header. -/
def finishDestructuring (g : Grammar) (before : State) (opening : Token) (list : Option TargetList)
    (kind : Token.Kind) : Parse (Option Stmt) := do
  match list, destructuringOp? kind with
  | some list, some op =>
    if list.isTuple then
      if let some second := list.stars[1]? then return ← fail .severalStars second
      let _ ← advance
      return some (.destructure opening.pos list.targets op (← g.expression .lowest))
  | _, _ => pure ()
  modify fun st => { st with tokens := before.tokens }
  return none

theorem destructuring_eq (g : Grammar) : destructuring g = get >>= fun before =>
    destructuringHeader >>= fun found => finishDestructuring g before found.1 found.2.1 found.2.2 := by
  simp only [destructuringHeader, bind_assoc, pure_bind]
  rfl

theorem reads_destructuringHeader (hat : At st t) (ht : t.kind = .lparen) :
    Reads st destructuringHeader fun S us found st' => ∃ vs u, us = t :: vs ∧ found.1 = t
      ∧ At st' u ∧ found.2.2 = u.kind
      ∧ ∀ list, found.2.1 = some list → TargetsRead S vs list := by
  refine .advance_bind hat (by simp [ht]) (by simp [ht]) fun st => ?_
  refine Reads.bind (R := fun S vs found _ => ∀ list, found = some list → TargetsRead S vs list)
    (.nested fun st => .get_bind (reads_scanTargets _)) fun list vs st _ => ?_
  refine .currentKind_bind fun u st hu => .pure fun S _ hlist => ?_
  exact ⟨vs, u, by simp, rfl, hu, rfl, hlist⟩

/-- A destructuring assignment is read whole or not at all. -/
theorem reads_destructuring (hg : g.Sound) (hat : At st t) (ht : t.kind = .lparen) :
    Reads st (destructuring g) fun S us found _ =>
      (found = none → us = []) ∧ ∀ s, found = some s → ReadClosed S us s := by
  rw [destructuring_eq]
  refine .get_bind ?_
  have hheader := reads_destructuringHeader hat ht
  refine hheader.bind_back fun found used st' hmoves hfound => ?_
  obtain ⟨opening, list, kind⟩ := found
  obtain ⟨vs, u, hused, hopening, hu, hkind, -⟩ := hfound False (by simp)
  obtain rfl : opening = t := hopening
  obtain rfl : kind = u.kind := hkind
  -- if it is none after all, the tokens are those from before
  have hback : Read (fun S us found _ => (found = none → us = []) ∧ ∀ s, found = some s →
      ReadClosed S us s) st none { st' with tokens := st.tokens } :=
    ⟨[], ⟨rfl, by simp, hmoves.nesting, hmoves.diagnostics⟩, fun S _ => ⟨fun _ => rfl, by simp⟩⟩
  unfold finishDestructuring
  rcases list with _ | list
  · exact hback
  dsimp only
  rcases hop : destructuringOp? u.kind with _ | op
  · exact hback
  dsimp only
  by_cases htuple : list.isTuple
  · refine Reads.behind hmoves hfound ?_
    rw [if_pos htuple]
    rcases hstars : list.stars[1]? with _ | second
    · refine .advance_bind hu (fun h => ?_) (fun h => ?_) fun st => ?_
      · simp [h, destructuringOp?, AssignOp.ofKind?] at hop
      · simp [h, destructuringOp?, AssignOp.ofKind?] at hop
      refine (hg.expression _ _).bind fun value ws st _ => .pure fun S _ hvalue hread => ?_
      obtain ⟨vs', u', hused', -, -, -, htargets⟩ := hread
      obtain ⟨ts, r, rfl, hr, hne, htargets, hcount⟩ := htargets list rfl
      refine ⟨by simp, fun s hs => ?_⟩
      obtain rfl := Option.some.inj hs
      have hfew : (list.targets.filter (·.isStarred)).length ≤ 1 := by
        rw [← hcount]
        simpa using hstars
      refine ⟨?_, rfl⟩
      rw [hused']
      simpa using Derives.destructure ht hr hop hne hfew htargets hvalue
    · exact .fail _ _
  · rw [if_neg htuple]
    exact hback

/-! ## Conditions and loops -/

theorem reads_condition (hg : g.Sound) (word : String) : Reads st (condition g word) fun S us e _ =>
    Derives S us (.condition e) := by
  refine .expect_bind (by decide) (by decide) fun l st hl => .nested fun st => ?_
  refine (hg.expression _ _).bind fun e us st _ => ?_
  refine .expect_bind (by decide) (by decide) fun r st hr => .pure fun S _ he => ?_
  exact .condition hl hr he

theorem reads_branch (hg : g.Sound) (after : String) : Reads st (branch g after) fun S us s st' =>
    Derives S us (.stmt s) ∧ (s.endsOpen = true → st'.nextAfterNewlinesIs .kwElse = false) := by
  refine .skipNewlines_bind (.current_bind fun t st _ => ?_)
  split
  · exact .fail _ _
  · exact .fail _ _
  · exact .fail _ _
  · exact .fail _ _
  · exact hg.statement st

/-- A word that follows behind line feeds is read next. -/
theorem at_of_nextAfterNewlinesIs {kind : Token.Kind}
    (h : st.nextAfterNewlinesIs kind = true) : ∃ t, At st.dropNewlines t ∧ t.kind = kind := by
  have hsettled : st.dropNewlines.settle = st.dropNewlines := by
    unfold State.settle
    split
    · simp only [State.dropNewlines, List.dropWhile_idempotent]
    · rfl
  have hfind : st.tokens.find? (·.kind ≠ .newline) = st.dropNewlines.tokens.head? := by
    simpa [State.dropNewlines] using st.tokens.find?_not_eq_head?_dropWhile (·.kind = .newline)
  rw [State.nextAfterNewlinesIs, hfind] at h
  refine ⟨_, ⟨hsettled, rfl⟩, ?_⟩
  unfold State.current
  cases htokens : st.dropNewlines.tokens with
  | nil => simp [htokens] at h
  | cons u us => simpa [htokens] using h

theorem reads_cond (hg : g.Sound) (hat : At st t) (ht : t.kind = .kwIf) :
    Reads st (cond g) fun S us s st' =>
      Derives S us (.stmt s) ∧ (s.endsOpen = true → st'.nextAfterNewlinesIs .kwElse = false) := by
  refine .advance_bind hat (by simp [ht]) (by simp [ht]) fun st => ?_
  refine (reads_condition hg _).bind fun test us st _ => ?_
  refine (reads_branch hg _).bind fun thenS vs st hthen => .get_bind ?_
  split
  next helse =>
    obtain ⟨word, hword, hkind⟩ := at_of_nextAfterNewlinesIs helse
    have hclosed : thenS.endsOpen = false := by
      by_contra hopen
      rw [hthen.2 (by simpa using hopen)] at helse
      cases helse
    refine .skipNewlines_bind (.advance_bind hword (by simp [hkind]) (by simp [hkind]) fun st => ?_)
    refine (reads_branch hg _).bind fun elseS ws st _ => .pure fun S _ helse hthen htest => ⟨?_, ?_⟩
    · simpa using Derives.condElse ht hkind hclosed htest hthen.1 helse.1
    · simpa [Stmt.endsOpen] using helse.2
  next hnone =>
    refine .pure fun S _ hthen htest => ⟨?_, fun _ => by simpa using hnone⟩
    simpa using Derives.cond ht htest hthen.1

theorem reads_whileLoop (hg : g.Sound) (hat : At st t) (ht : t.kind = .kwWhile) :
    Reads st (whileLoop g) fun S us s _ => ReadClosed S us s := by
  refine .advance_bind hat (by simp [ht]) (by simp [ht]) fun st => ?_
  refine (reads_condition hg _).bind fun test us st _ => ?_
  refine (reads_body hg).bind fun body vs st _ => .pure fun S _ hbody htest => ?_
  exact ⟨by simpa using Derives.whileLoop ht htest hbody, rfl⟩

/-- The body of a loop over a sequence, behind what its header derives. -/
theorem reads_finishForIn (hg : g.Sound) {pos : Position} {key : Ident} {others : List Ident}
    {seq : Expr} : Reads st (finishForIn g pos (key :: others) seq) fun S us s _ =>
      ∃ body, s = .forIn pos key others.head? seq body ∧ Derives S us (.block body) := by
  refine (reads_body hg).bind fun body us st _ => .pure fun S _ hbody => ?_
  refine ⟨body, ?_, by simpa using hbody⟩
  cases others <;> rfl

theorem reads_clause (hg : g.Sound) : Reads st (simpleStatement g) fun S us s _ =>
    Derives S us (.clause (some s)) := by
  refine .current_bind fun t st _ => ?_
  refine (reads_expression hg _).bind fun e us st _ => .pure fun S _ he => ?_
  simpa using Derives.clauseSome he

theorem reads_clauses (hg : g.Sound) (ht : t.kind = .kwFor) :
    Reads st (clauses g t.pos) fun S us s _ => ReadClosed S (t :: us) s := by
  refine .expect_bind (by decide) (by decide) fun l st hl => ?_
  refine Reads.bind (R := fun S us (parts : Option Stmt × Option Expr × Option Stmt) _ =>
    ∃ sep sep' r : Token, ∃ ts vs ws, us = ts ++ sep :: (vs ++ sep' :: (ws ++ [r]))
      ∧ sep.kind = .semicolon ∧ sep'.kind = .semicolon ∧ r.kind = .rparen
      ∧ Derives S ts (.clause parts.1) ∧ Derives S vs (.part parts.2.1)
      ∧ Derives S ws (.clause parts.2.2))
    (.nested fun st => ?_) fun parts us st _ => ?_
  · refine .unless_bind (O := fun S us s => Derives S us (.clause s)) (fun S => .clauseNone)
      (fun st => reads_clause hg) fun init ts st => ?_
    refine .expect_bind (by decide) (by decide) fun sep st hsep => ?_
    refine .unless_bind (O := fun S us test => Derives S us (.part test)) (fun S => .partNone)
      (fun st => (hg.expression _ _).mono fun S us e _ he => .partSome he) fun test vs st => ?_
    refine .expect_bind (by decide) (by decide) fun sep' st hsep' => ?_
    refine .unless_bind (O := fun S us s => Derives S us (.clause s)) (fun S => .clauseNone)
      (fun st => reads_clause hg) fun post ws st => ?_
    refine .expect_bind (by decide) (by decide) fun r st hr => ?_
    refine .pure fun S _ hpost htest hinit => ?_
    exact ⟨sep, sep', r, ts, vs, ws, by simp, hsep, hsep', hr, hinit, htest, hpost⟩
  · obtain ⟨init, test, post⟩ := parts
    refine (reads_body hg).bind fun body vs st _ => .pure fun S _ hbody hparts => ?_
    obtain ⟨sep, sep', r, ts, us, ws, rfl, hsep, hsep', hr, hinit, htest, hpost⟩ := hparts
    exact ⟨by simpa using Derives.forLoop ht hl hsep hsep' hr hinit htest hpost hbody, rfl⟩

theorem reads_forTargets : Reads st forTargets fun S us ids _ => ∃ ts, ∃ r : Token,
    us = ts ++ [r] ∧ r.kind = .rparen ∧ ids ≠ [] ∧ Derives S ts (.items (ids.map .name)) := by
  refine (reads_commaSeparated fun st => reads_expectIdent _).bind fun ids us st _ => ?_
  refine .expect_bind (by decide) (by decide) fun r st hr => .pure fun S _ hids => ?_
  exact ⟨us, r, rfl, hr, hids.1, hids.2⟩

theorem reads_forSequence (hg : g.Sound) : Reads st (forSequence g) fun S us e _ => ∃ word ts,
    us = word :: ts ∧ word.kind = .kwIn ∧ Derives S ts (.expr e) := by
  refine .expect_bind (by decide) (by decide) fun word st hword => ?_
  exact (hg.expression _ _).mono fun S us e _ he => ⟨word, us, rfl, hword, he⟩

/-- A list of names other than a key and a value is reported. -/
theorem reads_checkTargets (pos : Position) (ids : List Ident) :
    Reads st (checkTargets pos ids) fun S us _ _ => us = [] ∧ (S → ids.length = 2) := by
  unfold checkTargets
  split
  · exact (Reads.record _).mono fun S us _ _ h => ⟨h.1, fun hS => absurd hS h.2⟩
  next hlength => exact .pure fun S _ => ⟨rfl, fun _ => by simpa using hlength⟩

theorem reads_forLoop (hg : g.Sound) (hat : At st t) (ht : t.kind = .kwFor) :
    Reads st (forLoop g) fun S us s _ => ReadClosed S us s := by
  refine .advance_bind hat (by simp [ht]) (by simp [ht]) fun st => .get_bind ?_
  -- the forms of a header: clauses, a name, and a name or more names in parentheses
  split
  · exact reads_clauses hg ht
  · refine .expectIdent_bind fun key st hkey => ?_
    refine (reads_forSequence hg).bind fun seq us st _ => ?_
    refine (reads_finishForIn hg).mono ?_
    rintro S vs s _ ⟨body, rfl, hbody⟩ ⟨word, ts, rfl, hword, hseq⟩
    exact ⟨by simpa using Derives.forBare ht hkey hword hseq hbody, rfl⟩
  · refine .expect_bind (by decide) (by decide) fun l st hl => ?_
    refine Reads.bind (R := fun S us (header : Ident × Expr) _ => ∃ key word r : Token, ∃ ts,
      us = key :: word :: (ts ++ [r]) ∧ key.kind = .ident ∧ word.kind = .kwIn ∧ r.kind = .rparen
        ∧ header.1 = identOf key ∧ Derives S ts (.expr header.2)) (.nested fun st => ?_)
      fun header us st _ => ?_
    · refine .expectIdent_bind fun key st hkey => ?_
      refine (reads_forSequence hg).bind fun seq us st _ => ?_
      refine .expect_bind (by decide) (by decide) fun r st hr => .pure fun S _ hseq => ?_
      obtain ⟨word, ts, rfl, hword, hseq⟩ := hseq
      exact ⟨key, word, r, ts, rfl, hkey, hword, hr, rfl, hseq⟩
    · obtain ⟨id, seq⟩ := header
      refine (reads_finishForIn hg).mono ?_
      rintro S vs s _ ⟨body, rfl, hbody⟩ ⟨key, word, r, ts, rfl, hkey, hword, hr, rfl, hseq⟩
      exact ⟨by simpa using Derives.forParens ht hl hkey hword hr hseq hbody, rfl⟩
  · refine .expect_bind (by decide) (by decide) fun l st hl => ?_
    refine Reads.bind (R := fun S us (header : List Ident × Expr) _ =>
      ∃ l' r' word r : Token, ∃ ts vs, us = l' :: (ts ++ r' :: word :: (vs ++ [r]))
        ∧ l'.kind = .lparen ∧ r'.kind = .rparen ∧ word.kind = .kwIn ∧ r.kind = .rparen
        ∧ header.1 ≠ []
        ∧ Derives S ts (.items (header.1.map .name)) ∧ Derives S vs (.expr header.2))
      (.nested fun st => ?_) fun header us st hheader => ?_
    · refine .expect_bind (by decide) (by decide) fun l' st hl' => ?_
      refine reads_forTargets.bind fun ids us st _ => ?_
      refine (reads_forSequence hg).bind fun seq vs st _ => ?_
      refine .expect_bind (by decide) (by decide) fun r st hr => .pure fun S _ hseq hids => ?_
      obtain ⟨word, vs, rfl, hword, hseq⟩ := hseq
      obtain ⟨ts, r', rfl, hr', hne, hids⟩ := hids
      exact ⟨l', r', word, r, ts, vs, by simp, hl', hr', hword, hr, hne, hids, hseq⟩
    · obtain ⟨ids, seq⟩ := header
      obtain ⟨key, others, rfl⟩ : ∃ key others, ids = key :: others := by
        obtain ⟨-, -, -, -, -, -, -, -, -, -, -, hne, -⟩ := hheader
        exact List.exists_cons_of_ne_nil hne
      refine (reads_checkTargets _ _).bind fun _ vs st _ => ?_
      refine (reads_finishForIn hg).mono ?_
      rintro S ws s _ ⟨body, rfl, hbody⟩ ⟨rfl, hcount⟩
        ⟨l', r', word, r, ts, vs, rfl, hl', hr', hword, hr, -, hids, hseq⟩
      have hcount : S → others.length = 1 := fun hS => by simpa using hcount hS
      exact ⟨by simpa using Derives.forGrouped ht hl hl' hr' hword hr hcount hids hseq hbody, rfl⟩
  · refine .expect_bind (by decide) (by decide) fun l st hl => ?_
    refine Reads.bind (.nested fun st => reads_forTargets) fun ids us st hids => ?_
    obtain ⟨key, others, rfl⟩ : ∃ key others, ids = key :: others := by
      obtain ⟨-, -, -, -, hne, -⟩ := hids
      exact List.exists_cons_of_ne_nil hne
    refine (reads_checkTargets _ _).bind fun _ vs st _ => ?_
    refine (reads_forSequence hg).bind fun seq ws st _ => ?_
    refine (reads_finishForIn hg).mono ?_
    rintro S xs s _ ⟨body, rfl, hbody⟩ ⟨word, vs, rfl, hword, hseq⟩ ⟨rfl, hcount⟩
      ⟨ts, r, rfl, hr, -, hids⟩
    have hcount : S → others.length = 1 := fun hS => by simpa using hcount hS
    exact ⟨by simpa using Derives.forOutside ht hl hr hword hcount hids hseq hbody, rfl⟩

/-! ## Switch and try -/

theorem reads_switch (hg : g.Sound) (hat : At st t) (ht : t.kind = .kwSwitch) :
    Reads st (switch g) fun S us s _ => ReadClosed S us s := by
  refine .advance_bind hat (by simp [ht]) (by simp [ht]) fun st => ?_
  refine (reads_condition hg _).bind fun value us st _ => .skipNewlines_bind ?_
  refine .expect_bind (by decide) (by decide) fun lb st hlb => .asStatements fun st => ?_
  refine (reads_arms (I := fun S us found => Derives S us (.switchArms found)) (fun S => .switchNil)
    (fun hsep hfound => .switchSeparator hsep hfound) (fun word st hword => ?_)
    (fun word st hword => ?_)).bind fun arms vs st _ => ?_
  · refine (reads_caseValues hg).bind fun values us st _ => ?_
    refine (reads_body hg).bind fun body vs st _ => .pure fun S _ hbody hvalues ws found hfound => ?_
    simpa using Derives.switchCase hword hvalues.1 hvalues.2 hbody hfound
  · exact (reads_body hg).mono fun S us b _ hb vs found hfound => .switchDefault hword hb hfound
  · refine .pure fun S _ harms hvalue => ?_
    obtain ⟨ts, r, found, rfl, hr, hfound, rfl⟩ := harms
    exact ⟨by simpa using Derives.switch ht hlb hr hvalue hfound, rfl⟩

theorem reads_handler (hg : g.Sound) : Reads st (handler g) fun S us found _ =>
    Derives S us (.handler found) := by
  refine .get_bind ?_
  split
  next => exact .pure fun S _ => .handlerNone
  next hcatch =>
    obtain ⟨word, hat, hword⟩ := at_of_nextAfterNewlinesIs (by simpa using hcatch)
    refine .skipNewlines_bind (.advance_bind hat (by simp [hword]) (by simp [hword]) fun st => ?_)
    refine .eat_bind (by decide) (by decide) (fun l st hl => ?_) (fun _ st _ _ => ?_)
    · refine Reads.bind (R := fun S us name _ => ∃ n r : Token, us = [n, r] ∧ n.kind = .ident
        ∧ r.kind = .rparen ∧ name = some (identOf n)) (.nested fun st => ?_) fun name us st _ => ?_
      · refine .expectIdent_bind fun n st hn => ?_
        refine .expect_bind (by decide) (by decide) fun r st hr => .pure fun S _ => ?_
        exact ⟨n, r, rfl, hn, hr, rfl⟩
      · refine (reads_body hg).bind fun body vs st _ => .pure fun S _ hbody hname => ?_
        obtain ⟨n, r, rfl, hn, hr, rfl⟩ := hname
        simpa using Derives.handlerNamed hword hl hn hr hbody
    · refine (reads_body hg).bind fun body vs st _ => .pure fun S _ hbody => ?_
      simpa using Derives.handlerPlain hword hbody

theorem reads_finalizer (hg : g.Sound) : Reads st (finalizer g) fun S us found _ =>
    Derives S us (.finalizer found) := by
  refine .get_bind ?_
  split
  next => exact .pure fun S _ => .finalizerNone
  next hfinally =>
    obtain ⟨word, hat, hword⟩ := at_of_nextAfterNewlinesIs (by simpa using hfinally)
    refine .skipNewlines_bind (.advance_bind hat (by simp [hword]) (by simp [hword]) fun st => ?_)
    refine (reads_body hg).bind fun body vs st _ => .pure fun S _ hbody => ?_
    simpa using Derives.finalizerSome hword hbody

theorem reads_tryCatch (hg : g.Sound) (hat : At st t) (ht : t.kind = .kwTry) :
    Reads st (tryCatch g) fun S us s _ => ReadClosed S us s := by
  refine .advance_bind hat (by simp [ht]) (by simp [ht]) fun st => ?_
  refine (reads_body hg).bind fun body us st _ => ?_
  refine (reads_handler hg).bind fun handler vs st _ => ?_
  refine (reads_finalizer hg).bind fun finalizer ws st _ => ?_
  split
  next => exact .current_bind fun _ st _ => .fail _ _
  next hsome =>
    have hsome : (handler.isSome || finalizer.isSome) = true := by
      cases handler <;> cases finalizer <;> simp_all
    refine .pure fun S _ hfinalizer hhandler hbody => ?_
    exact ⟨by simpa using Derives.tryCatch ht hsome hbody hhandler hfinalizer, rfl⟩

/-! ## Declarations and jumps -/

theorem reads_funcStatement (hg : g.Sound) (hat : At st t) (ht : t.kind = .kwFunc) :
    Reads st (funcStatement g) fun S us s _ => ReadClosed S us s := by
  refine .advance_bind hat (by simp [ht]) (by simp [ht]) fun st => ?_
  refine .expectIdent_bind fun name st hname => ?_
  refine reads_params.bind fun ids us st _ => ?_
  refine (reads_body hg).bind fun body vs st _ => .pure fun S _ hbody hids => ?_
  exact ⟨by simpa using Derives.funcStmt ht hname hids hbody, rfl⟩

theorem reads_ret (hg : g.Sound) (hat : At st t) (ht : t.kind = .kwReturn) :
    Reads st (ret g) fun S us s _ => ReadClosed S us s := by
  refine .advance_bind hat (by simp [ht]) (by simp [ht]) fun st => ?_
  have hnone : ∀ st, Reads st (pure (Stmt.ret t.pos [])) fun S us s _ =>
      ReadClosed S (t :: us) s := by
    intro st
    refine .pure fun S _ => ?_
    have hvalues : Derives S [] (.items (([] : List Expr).map .expr)) := .itemsNil
    exact ⟨.ret ht hvalues, rfl⟩
  refine .currentKind_bind fun u st _ => ?_
  split
  · exact hnone st
  · exact hnone st
  · exact hnone st
  · exact hnone st
  · exact hnone st
  · refine (reads_commaSeparated (hg.expression _)).bind fun values us st _ => .pure fun S _ h => ?_
    exact ⟨by simpa using Derives.ret ht h.2, rfl⟩

theorem reads_raise (hg : g.Sound) (hat : At st t) (ht : t.kind = .kwThrow) :
    Reads st (raise g) fun S us s _ => ReadClosed S us s := by
  refine .advance_bind hat (by simp [ht]) (by simp [ht]) fun st => ?_
  refine (hg.expression _ _).bind fun value us st _ => .pure fun S _ hvalue => ?_
  exact ⟨by simpa using Derives.raise ht hvalue, rfl⟩

theorem reads_defer (hg : g.Sound) (hat : At st t) (ht : t.kind = .kwDefer) :
    Reads st (defer g) fun S us s _ => ReadClosed S us s := by
  refine .advance_bind hat (by simp [ht]) (by simp [ht]) fun st => ?_
  refine (hg.expression _ _).bind fun call us st _ => ?_
  split
  next hcall => exact .pure fun S _ h => ⟨by simpa using Derives.defer ht hcall h, rfl⟩
  next => exact .fail _ _

theorem reads_asName : Reads st asName fun S us name _ => Derives S us (.asName name) := by
  refine .eat_bind (by decide) (by decide) (fun word st hword => ?_) (fun _ st _ _ => ?_)
  · refine .map ?_
    rw [← bind_pure (expectIdent _)]
    exact .expectIdent_bind fun n st hn => .pure fun S _ => .asSome hword hn
  · exact .pure fun S _ => .asNone

theorem reads_importPath (context : String) : Reads st (importPath context) fun _ us path _ =>
    ∃ u, us = [u] ∧ u.kind = .str ∧ path = ⟨u.literal, u.pos⟩ := by
  refine .expect_bind (by decide) (by decide) fun u st hu => .pure fun S _ => ?_
  exact ⟨u, rfl, hu, rfl⟩

theorem reads_importAs (hat : At st t) (ht : t.kind = .kwImport) :
    Reads st importAs fun S us s _ => ReadClosed S us s := by
  refine .advance_bind hat (by simp [ht]) (by simp [ht]) fun st => ?_
  refine (reads_importPath _).bind fun path us st _ => ?_
  refine reads_asName.bind fun name vs st _ => .pure fun S _ hname hpath => ?_
  obtain ⟨u, rfl, hu, rfl⟩ := hpath
  exact ⟨by simpa using Derives.importAs ht hu hname, rfl⟩

theorem reads_importFrom (hat : At st t) (ht : t.kind = .kwFrom) :
    Reads st importFrom fun S us s _ => ReadClosed S us s := by
  refine .advance_bind hat (by simp [ht]) (by simp [ht]) fun st => ?_
  refine (reads_importPath _).bind fun path us st _ => ?_
  refine .expect_bind (by decide) (by decide) fun word st hword => ?_
  refine (@reads_commaSeparated st _ _ Item.imported fun st => ?_).bind fun items vs st _ => ?_
  · refine .expectIdent_bind fun n st hn => ?_
    refine reads_asName.bind fun name us st _ => .pure fun S _ hname => ?_
    simpa using Derives.imported hn hname
  · refine .pure fun S _ hitems hpath => ?_
    obtain ⟨u, rfl, hu, rfl⟩ := hpath
    exact ⟨by simpa using Derives.importFrom ht hu hword hitems.1 hitems.2, rfl⟩

theorem reads_exported (hg : g.Sound) (hat : At st t) (ht : t.kind = .kwExport) :
    Reads st (exported g) fun S us s _ => ReadClosed S us s := by
  refine .advance_bind hat (by simp [ht]) (by simp [ht]) fun st => ?_
  refine .current_bind fun next st _ => ?_
  split
  · exact .fail _ _
  · exact .fail _ _
  · exact .fail _ _
  · refine (hg.statement st).bind fun s us st _ => ?_
    split
    next hs => exact .pure fun S _ h => ⟨by simpa using Derives.exported ht hs h.1, rfl⟩
    next => exact .fail _ _

/-! ## Statements -/

theorem reads_statement (hg : g.Sound) : Reads st (statement g) fun S us s st' =>
    Derives S us (.stmt s) ∧ (s.endsOpen = true → st'.nextAfterNewlinesIs .kwElse = false) := by
  have hclosed {p : Parse Stmt} {st : State} (h : Reads st p fun S us s _ => ReadClosed S us s) :
      Reads st p fun S us s st' =>
        Derives S us (.stmt s) ∧ (s.endsOpen = true → st'.nextAfterNewlinesIs .kwElse = false) :=
    h.mono fun S us s st' h => ⟨h.1, fun hopen => by simp [h.2] at hopen⟩
  refine .currentKind_bind fun t st hat => ?_
  split
  next ht =>
    refine .nextKind_bind fun kind st hkeep => ?_
    split
    · exact hclosed (reads_funcStatement hg (hkeep t hat) ht)
    · exact hclosed (reads_simpleStatement hg)
  next ht => exact hclosed (reads_ret hg hat ht)
  next ht =>
    refine .advance_bind hat (by simp [ht]) (by simp [ht]) fun st => .pure fun S _ => ?_
    exact ⟨.brk ht, by simp [Stmt.endsOpen]⟩
  next ht =>
    refine .advance_bind hat (by simp [ht]) (by simp [ht]) fun st => .pure fun S _ => ?_
    exact ⟨.cont ht, by simp [Stmt.endsOpen]⟩
  next ht =>
    refine .advance_bind hat (by simp [ht]) (by simp [ht]) fun st => .pure fun S _ => ?_
    exact ⟨.pass ht, by simp [Stmt.endsOpen]⟩
  next ht => exact reads_cond hg hat ht
  next ht => exact hclosed (reads_whileLoop hg hat ht)
  next ht => exact hclosed (reads_forLoop hg hat ht)
  next ht => exact hclosed (reads_switch hg hat ht)
  next ht => exact hclosed (reads_tryCatch hg hat ht)
  next ht => exact hclosed (reads_raise hg hat ht)
  next ht => exact hclosed (reads_defer hg hat ht)
  next ht => exact hclosed (reads_importAs hat ht)
  next ht => exact hclosed (reads_importFrom hat ht)
  next ht => exact hclosed (reads_exported hg hat ht)
  next ht =>
    refine (reads_block hg).bind fun body us st _ => .pure fun S _ hbody => ?_
    exact ⟨by simpa using Derives.blockStmt hbody, by simp [Stmt.endsOpen]⟩
  next ht =>
    refine hclosed ((reads_destructuring hg hat ht).bind fun found us st hfound => ?_)
    cases found with
    | some s => exact .pure fun S _ h => by simpa using h.2 s rfl
    | none =>
      obtain rfl := hfound.1 rfl
      exact (reads_simpleStatement hg).mono fun S us s _ h _ => h
  next => exact hclosed (reads_simpleStatement hg)

/-- The parsers of every depth read what the grammar derives. -/
theorem Grammar.sound_ofDepth (depth : Nat) : (Grammar.ofDepth depth).Sound := by
  induction depth with
  | zero => exact ⟨fun _ st => .current_bind fun _ _ _ => .fail _ _,
      fun st => .current_bind fun _ _ _ => .fail _ _⟩
  | succ depth ih => exact ⟨fun level st => reads_expression ih level, fun st => reads_statement ih⟩

/-! ## Programs -/

/-- A parser that succeeds on every state. -/
def Total {α : Type} (p : Parse α) : Prop := ∀ st, ∃ a st', run p st = (.ok a, st')

theorem Total.bind {α β : Type} {p : Parse α} {f : α → Parse β} (hp : Total p)
    (hf : ∀ a, Total (f a)) : Total (p >>= f) := by
  intro st
  obtain ⟨a, st', hrun⟩ := hp st
  rw [run_bind_ok hrun]
  exact hf a st'

theorem Total.collect {α : Type} {step : Parse (Option α)} (h : Total step) (limit : Nat) :
    Total (collect step limit) := by
  induction limit with
  | zero => exact fun st => ⟨_, _, rfl⟩
  | succ limit ih =>
    refine h.bind ?_
    rintro (_ | a)
    · exact fun st => ⟨_, _, rfl⟩
    · exact ih.bind fun as st => ⟨_, _, rfl⟩

theorem total_advance : Total advance := by
  intro st
  unfold advance
  rw [run_bind_ok (run_current st)]
  split <;> exact ⟨_, _, rfl⟩

/-- A list of statements is read to its end: what fails is reported. -/
theorem total_listedStatement (g : Grammar) (stop : Token.Kind) : Total (listedStatement g stop) := by
  have hnone : Total (advance >>= fun _ => pure (some none : Option (Option Stmt))) :=
    total_advance.bind fun _ st => ⟨_, _, rfl⟩
  have hkind : ∀ kind, Total (atKind kind) := fun kind st => ⟨_, _, rfl⟩
  have hget : Total (get : Parse State) := fun st => ⟨_, _, rfl⟩
  have hpure : ∀ found, Total (pure found : Parse (Option (Option Stmt))) := fun _ st => ⟨_, _, rfl⟩
  refine Total.bind (fun st => ⟨_, _, rfl⟩) fun _ => (hkind stop).bind fun stopped => ?_
  split
  · exact hpure _
  refine (hkind .eof).bind fun ended => ?_
  split
  · exact hpure _
  refine hget.bind fun before => Total.bind (fun st => ⟨_, _, run_observing st _⟩) ?_
  rintro (e | s)
  · refine Total.bind (fun st => ⟨_, _, run_record st e⟩) fun _ => hget.bind fun st => ?_
    split
    · exact hnone
    · refine (hkind stop).bind fun stopped => ?_
      split
      · exact hnone
      · exact hpure _
  · exact hpure _

theorem total_parseProgram : Total parseProgram := by
  refine Total.bind (fun st => ⟨_, _, run_get st⟩) fun st => Total.bind ?_ fun ss st => ⟨_, _, rfl⟩
  refine Total.bind (Total.bind (fun st => ⟨_, _, run_get st⟩) fun st => ?_)
    fun found st => ⟨_, _, rfl⟩
  exact (total_listedStatement _ _).collect _

theorem reads_parseProgram : Reads st parseProgram fun S us program _ =>
    Derives S us (.stmts program.stmts) := by
  refine .get_bind ?_
  refine (reads_statementsUntil (Grammar.sound_ofDepth _) _).bind
    fun ss us st _ => .pure fun S _ hss => ?_
  simpa using hss

end Parser

/-- A program is read from a beginning of its tokens as the grammar says, and nothing is left out
    where nothing is reported. -/
theorem Program.derives_ofTokens (tokens : List Token) :
    ∃ used, used <+: (Parser.State.ofTokens tokens).tokens ∧
      ∀ S : Prop, (S → (Program.ofTokens tokens).diagnostics = []) →
        Grammar.Derives S (Parser.significant used)
          (.stmts (Program.ofTokens tokens).program.stmts) := by
  obtain ⟨program, st, hrun⟩ := Parser.total_parseProgram (.ofTokens tokens)
  obtain ⟨used, hmoves, hread⟩ := Parser.reads_parseProgram.read hrun
  have hparsed : Program.ofTokens tokens = ⟨program, st.diagnostics⟩ := by
    unfold Program.ofTokens
    rw [hrun]
  rw [hparsed]
  exact ⟨used, ⟨_, hmoves.tokens.symm⟩, hread⟩

end Welle
