import Welle.Proofs.Grammar
import Welle.Proofs.Parser.Reads

set_option autoImplicit false

/-! # Expressions are read as the grammar says

Every parser of an expression or of a part of one reads tokens that the grammar derives its value
from, given that the parsers one level down do. -/

namespace Welle.Parser

open Welle.Grammar (Derives Item Phrase identOf content)

/-- The two recursive parsers read what the grammar derives. Behind a statement that could take an
    `else` there is none. -/
structure Grammar.Sound (g : Grammar) : Prop where
  expression : ∀ level st, Reads st (g.expression level) fun S us e _ => Derives S us (.expr e)
  statement : ∀ st, Reads st g.statement fun S us s st' =>
    Derives S us (.stmt s) ∧ (s.endsOpen = true → st'.nextAfterNewlinesIs .kwElse = false)

variable {g : Grammar} {st : State}

/-! ## Lists -/

section Lists

variable {α : Type} {item : Parse α} {toItem : α → Item}

theorem reads_furtherItems
    (hitem : ∀ st, Reads st item fun S us a _ => Derives S us (.item (toItem a))) :
    Reads st (furtherItems item) fun S us as _ => Derives S us (.more (as.map toItem)) := by
  refine Reads.many (I := fun S us as => Derives S us (.more (as.map toItem)))
    (fun S => .moreNil) fun st => ?_
  refine Reads.eat_bind (by decide) (by decide) (fun t st' ht => ?_) (fun t st' _ _ => ?_)
  · exact .map ((hitem st').mono fun S us a _ ha vs as has => .moreCons ht ha has)
  · exact .pure fun S _ => .moreNil

theorem reads_commaSeparated
    (hitem : ∀ st, Reads st item fun S us a _ => Derives S us (.item (toItem a))) :
    Reads st (commaSeparated item) fun S us as _ =>
      as ≠ [] ∧ Derives S us (.items (as.map toItem)) := by
  refine (hitem st).bind fun a us st' _ => ?_
  refine (reads_furtherItems hitem).bind fun as vs st'' _ => .pure fun S _ has ha => ?_
  exact ⟨by simp, by simpa using Derives.itemsCons ha has⟩

theorem reads_furtherItemsUntil {close : Token.Kind}
    (hitem : ∀ st, Reads st item fun S us a _ => Derives S us (.item (toItem a))) :
    Reads st (furtherItemsUntil close item) fun S us as _ =>
      Derives S us (.more (as.map toItem)) := by
  refine Reads.many (I := fun S us as => Derives S us (.more (as.map toItem)))
    (fun S => .moreNil) fun st => ?_
  refine Reads.eat_bind (by decide) (by decide) (fun t st' ht => ?_) (fun t st' _ _ => ?_)
  · refine Reads.atKind_bind (fun _ st'' _ _ => ?_) (fun _ st'' _ _ => ?_)
    · exact .pure fun S _ => .moreTrailing ht
    · exact .map ((hitem st'').mono fun S us a _ ha vs as has => .moreCons ht ha has)
  · exact .pure fun S _ => .moreNil

theorem reads_itemsUntil {close : Token.Kind}
    (hitem : ∀ st, Reads st item fun S us a _ => Derives S us (.item (toItem a))) :
    Reads st (itemsUntil close item) fun S us as _ => Derives S us (.items (as.map toItem)) := by
  refine Reads.atKind_bind (fun _ st' _ _ => .pure fun S _ => .itemsNil) (fun _ st' _ _ => ?_)
  refine (hitem st').bind fun a us st'' _ => ?_
  refine (reads_furtherItemsUntil hitem).bind fun as vs _ _ => .pure fun S _ has ha => ?_
  simpa using Derives.itemsCons ha has

end Lists

/-- A name as an item. -/
theorem reads_expectIdent (context : String) :
    Reads st (expectIdent context) fun S us id _ => Derives S us (.item (.name id)) := by
  rw [← bind_pure (expectIdent context)]
  exact .expectIdent_bind fun t st' ht => .pure fun S _ => .name ht

theorem reads_params : Reads st params fun S us ids _ => Derives S us (.params ids) := by
  refine Reads.expect_bind (by decide) (by decide) fun l st' hl => ?_
  refine .nested fun st => ?_
  refine (reads_itemsUntil fun st => reads_expectIdent _).bind fun ids us st' _ => ?_
  refine .expect_bind (by decide) (by decide) fun r st'' hr => .pure fun S _ h => ?_
  exact .params hl hr h

/-! ## Templates -/

/-- A parser that stands in front of the end of the text has read all of it. -/
theorem content_of_moves {st st' : State} {used : List Token} {t : Token} (h : Moves st used st')
    (hat : At st' t) (heof : t.kind = .eof) : content st.tokens = significant used := by
  have hbehind : st'.tokens.takeWhile (·.kind ≠ .eof) = [] := by
    have hcurrent := hat.current
    unfold State.current at hcurrent
    cases htokens : st'.tokens with
    | nil => rfl
    | cons u us =>
      simp only [htokens, List.headD_cons] at hcurrent
      simp [hcurrent, heof]
  have hbefore : Token.beforeEnd st.tokens = used := by
    rw [Token.beforeEnd, h.tokens, List.takeWhile_append_of_pos (by simpa using h.inside), hbehind,
      List.append_nil]
  rw [content, hbefore, significant]

/-- The end that a list of tokens is given is no part of its content. -/
theorem content_ofTokens (tokens : List Token) :
    content (State.ofTokens tokens).tokens = content tokens := by
  have hadd (pos : Position) : Token.beforeEnd (tokens ++ [Token.endOfText pos])
      = Token.beforeEnd tokens := by
    unfold Token.beforeEnd
    induction tokens with
    | nil => rfl
    | cons t ts ih => simp only [List.cons_append, List.takeWhile_cons, ih]
  unfold State.ofTokens
  split
  next h => simp_all [content, Token.beforeEnd, Token.endOfText]
  next last h =>
    split
    · rfl
    · rw [content, hadd, content]

theorem reads_holeExpression (hg : g.Sound) (opening : Position) :
    Reads st (holeExpression g opening) fun S us e st' =>
      Derives S us (.expr e) ∧ ∃ t, At st' t ∧ t.kind = .eof := by
  refine .atKind_bind (fun _ st' _ _ => .throw _) (fun _ st' _ _ => ?_)
  refine (hg.expression _ _).bind fun e us st' _ => ?_
  refine .atKind_bind (fun t st'' hat ht => ?_) (fun _ st'' _ _ => ?_)
  · refine .pure fun S _ h => ⟨?_, t, hat, ht⟩
    rwa [List.append_nil]
  · exact .current_bind fun t _ _ => .fail _ _

/-- The source of an interpolation is read to its end; nothing of the tokens around the template is
    read with it. -/
theorem reads_hole (hg : g.Sound) (source : String) (origin opening : Position) :
    Reads st (hole g source origin opening) fun S us e _ =>
      us = [] ∧ Derives S (content (Token.tokenizeAt source origin)) (.expr e) := by
  let inner : State := { State.ofTokens (Token.tokenizeAt source origin) with nesting := 1 }
  have hinner : Reads inner (holeExpression g opening) _ := reads_holeExpression hg opening
  have hrun : run (hole g source origin opening) st
      = ((run (holeExpression g opening) inner).1,
        { st with diagnostics :=
            st.diagnostics ++ (run (holeExpression g opening) inner).2.diagnostics }) := by
    unfold hole
    rw [run_bind, run_modify]
    exact run_liftExcept _ _
  have hmoves : Moves st [] { st with diagnostics :=
      st.diagnostics ++ (run (holeExpression g opening) inner).2.diagnostics } :=
    ⟨rfl, by simp, rfl, List.prefix_append ..⟩
  refine .intro (fun e st' h => ?_) (fun e st' h => ?_) <;> rw [hrun] at h <;>
    obtain ⟨hresult, rfl⟩ := Prod.mk.inj h
  · refine ⟨[], hmoves, fun S hS => ⟨rfl, ?_⟩⟩
    obtain ⟨used, hused, hread⟩ := hinner.read (Prod.ext hresult rfl)
    obtain ⟨hderives, t, hat, heof⟩ := hread S fun h => (List.append_eq_nil_iff.1 (hS h)).2
    rw [← content_of_moves hused hat heof] at hderives
    rwa [← content_ofTokens]
  · exact ⟨[], hmoves⟩

theorem firstError_cons {α : Type} {result : Except SyntaxError α}
    {results : List (Except SyntaxError α)} {as : List α}
    (h : firstError (result :: results) = .ok as) :
    ∃ a bs, result = .ok a ∧ firstError results = .ok bs ∧ as = a :: bs := by
  unfold firstError at h ⊢
  rw [List.mapM_cons] at h
  rcases result with e | a
  · cases h
  · rcases hresults : results.mapM id with e | bs
    · rw [hresults] at h; cases h
    · rw [hresults] at h
      exact ⟨a, bs, rfl, rfl, (Except.ok.inj h).symm⟩

/-- The interpolations of a template are read one by one; the tree needs all of them. -/
theorem reads_holes (hg : g.Sound) (segments : List Template.Segment) :
    Reads st (segments.filterMapM fun
        | .text _ => Pure.pure none
        | .hole source origin opening => some <$> observing (hole g source origin opening))
      fun S us results _ => ∀ es, firstError results = .ok es →
        us = [] ∧ Derives S [] (.holes segments es) := by
  induction segments generalizing st with
  | nil =>
    refine .pure fun S _ es hes => ⟨rfl, ?_⟩
    obtain rfl : [] = es := by simpa [firstError, Pure.pure, Except.pure] using hes
    exact .holesNil
  | cons segment segments ih =>
    rw [List.filterMapM_cons]
    cases segment with
    | text value =>
      refine Reads.mono (R := fun S us results _ => ∀ es, firstError results = .ok es →
        us = [] ∧ Derives S [] (.holes segments es)) ?_ fun S us results _ h es hes => ?_
      · simpa using ih
      · exact ⟨(h es hes).1, .holesText (h es hes).2⟩
    | hole source origin opening =>
      simp only [map_eq_pure_bind, bind_assoc, pure_bind]
      refine (reads_hole hg source origin opening).observing.bind fun result us st' _ => ?_
      refine ih.bind fun results vs st'' _ => .pure fun S _ hresults hresult es hes => ?_
      obtain ⟨e, es, rfl, hes', rfl⟩ := firstError_cons hes
      obtain ⟨rfl, he⟩ := hresult e rfl
      obtain ⟨rfl, hholes⟩ := hresults es hes'
      exact ⟨rfl, .holesHole he hholes⟩

theorem reads_template (hg : g.Sound) (token : Token) (tag : Option Expr) :
    Reads st (template g token tag) fun S us e _ => us = [] ∧ ∃ es,
      e = .template token.pos tag
        (Template.texts (Template.split token.literal (token.pos.shifted 2))) es
      ∧ Derives S [] (.holes (Template.split token.literal (token.pos.shifted 2)) es) := by
  refine (reads_holes hg _).bind fun results us st' _ => ?_
  refine Reads.bind (.liftExcept (R := fun S vs es _ => vs = [] ∧ firstError results = .ok es)
    fun S es _ h => ⟨rfl, h⟩) fun es vs st'' _ => .pure fun S _ hes hresults => ?_
  obtain ⟨rfl, hes⟩ := hes
  obtain ⟨rfl, hderives⟩ := hresults es hes
  exact ⟨rfl, es, rfl, hderives⟩

/-! ## Operands -/

theorem reads_number {t : Token} (ht : t.kind = .int ∨ t.kind = .float) :
    Reads st (number t) fun S us e _ => us = [] ∧ Derives S [t] (.expr e) := by
  unfold number
  split
  next value h => exact .pure fun S _ => ⟨rfl, .int ht h⟩
  next value h => exact .pure fun S _ => ⟨rfl, .float ht h⟩
  next => exact .fail _ _

theorem reads_grouped (hg : g.Sound) {t : Token} (hat : At st t) (ht : t.kind = .lparen) :
    Reads st (grouped g) fun S us e _ => Derives S us (.expr e) := by
  refine .advance_bind hat (by simp [ht]) (by simp [ht]) fun st => .nested fun st => ?_
  refine .eat_bind (by decide) (by decide) (fun r st hr => ?_) (fun _ st _ _ => ?_)
  · have hnone (S : Prop) : Derives S [] (.items (([] : List Expr).map .expr)) := .itemsNil
    exact .pure fun S _ => by simpa using Derives.tuple ht hr (hnone S)
  refine (hg.expression _ _).bind fun first us st _ => ?_
  refine .atKind_bind (fun _ st _ _ => ?_) (fun _ st _ _ => ?_)
  · refine (reads_furtherItemsUntil (hg.expression _)).bind fun items vs st _ => ?_
    refine .expect_bind (by decide) (by decide) fun r st hr => .pure fun S _ hitems hfirst => ?_
    have hall : Derives S (us ++ vs) (.items ((first :: items).map .expr)) :=
      .itemsCons hfirst hitems
    simpa using Derives.tuple ht hr hall
  · refine .expect_bind (by decide) (by decide) fun r st hr => .pure fun S _ hfirst => ?_
    exact .group ht hr hfirst

theorem reads_list (hg : g.Sound) {t : Token} (hat : At st t) (ht : t.kind = .lbracket) :
    Reads st (list g) fun S us e _ => Derives S us (.expr e) := by
  refine .advance_bind hat (by simp [ht]) (by simp [ht]) fun st => .nested fun st => ?_
  refine .eat_bind (by decide) (by decide) (fun r st hr => ?_) (fun _ st _ _ => ?_)
  · have hnone (S : Prop) : Derives S [] (.items (([] : List Expr).map .expr)) := .itemsNil
    exact .pure fun S _ => by simpa using Derives.list ht hr (hnone S)
  refine (hg.expression _ _).bind fun first us st _ => ?_
  refine .eat_bind (by decide) (by decide) (fun word st hword => ?_) (fun _ st _ _ => ?_)
  · refine .expectIdent_bind fun var st hvar => ?_
    refine .expect_bind (by decide) (by decide) fun inWord st hin => ?_
    refine (hg.expression _ _).bind fun seq vs st _ => ?_
    refine .eat_bind (by decide) (by decide) (fun ifWord st hif => ?_) (fun _ st _ _ => ?_)
    · refine (Reads.map (T := fun S ws filter _ => Derives S (ifWord :: ws) (.filter filter))
        ((hg.expression _ _).mono fun S ws e _ he => .filterSome hif he)).bind fun filter ws st _ => ?_
      refine .expect_bind (by decide) (by decide) fun r st hr => .pure fun S _ hfilter hseq hfirst => ?_
      simpa using Derives.comprehension ht hword hvar hin hr hfirst hseq hfilter
    · refine .expect_bind (by decide) (by decide) fun r st hr => .pure fun S _ hseq hfirst => ?_
      simpa using Derives.comprehension ht hword hvar hin hr hfirst hseq .filterNone
  · refine (reads_furtherItemsUntil (hg.expression _)).bind fun items vs st _ => ?_
    refine .expect_bind (by decide) (by decide) fun r st hr => .pure fun S _ hitems hfirst => ?_
    have hall : Derives S (us ++ vs) (.items ((first :: items).map .expr)) :=
      .itemsCons hfirst hitems
    simpa using Derives.list ht hr hall

theorem reads_dictEntry (hg : g.Sound) :
    Reads st (dictEntry g) fun S us entry _ => Derives S us (.item (.entry entry)) := by
  have hpair : ∀ st, Reads st (do
      let key ← g.expression .lowest
      let _ ← expect .colon "after dict key"
      return .pair key (← g.expression .lowest))
      fun S us entry _ => Derives S us (.item (.entry entry)) := by
    intro st
    refine (hg.expression _ _).bind fun key us st _ => ?_
    refine .expect_bind (by decide) (by decide) fun colon st hcolon => ?_
    refine (hg.expression _ _).bind fun value vs st _ => .pure fun S _ hvalue hkey => ?_
    simpa using Derives.pair hcolon hkey hvalue
  have hentry : ∀ st (short : Bool), Reads st (if short = true then do
        return .shorthand (← expectIdent "")
      else do
        let key ← g.expression .lowest
        let _ ← expect .colon "after dict key"
        return .pair key (← g.expression .lowest))
      fun S us entry _ => Derives S us (.item (.entry entry)) := by
    intro st short
    cases short with
    | true => exact .expectIdent_bind fun t st ht => .pure fun S _ => .shorthand ht
    | false => exact hpair st
  refine .atKind_bind (fun _ st _ _ => ?_) (fun _ st _ _ => ?_)
  · exact .nextKind_bind fun kind st _ => hentry st _
  · exact .nextKind_bind fun kind st _ => hentry st _

theorem reads_dict (hg : g.Sound) {t : Token} (hat : At st t) (ht : t.kind = .hash) :
    Reads st (dict g) fun S us e _ => Derives S us (.expr e) := by
  refine .advance_bind hat (by simp [ht]) (by simp [ht]) fun st => ?_
  refine .expect_bind (by decide) (by decide) fun l st hl => .nested fun st => ?_
  refine (reads_itemsUntil fun st => reads_dictEntry hg).bind fun entries us st _ => ?_
  refine .expect_bind (by decide) (by decide) fun r st hr => .pure fun S _ hentries => ?_
  exact .dict ht hl hr hentries

/-! ## Blocks -/

/-- Line feeds and semicolons at the cursor are passed over; the semicolons count. -/
theorem reads_skipSeparators : Reads st skipSeparators fun _ us _ _ =>
    ∀ t ∈ us, t.kind = .semicolon := by
  refine ⟨_, Moves.dropWhile st _ fun t ht heof => ?_, fun S _ t ht => ?_⟩
  · simp [heof, Token.Kind.isSeparator] at ht
  · obtain ⟨ht, hnewline⟩ := List.mem_filter.1 ht
    have hsep := List.mem_takeWhile_imp ht
    generalize t.kind = kind at hsep hnewline ⊢
    cases kind <;> simp_all [Token.Kind.isSeparator]

theorem derives_separators {S : Prop} {us vs : List Token} {ss : List Stmt}
    (hus : ∀ t ∈ us, t.kind = .semicolon) (h : Derives S vs (.stmts ss)) :
    Derives S (us ++ vs) (.stmts ss) := by
  induction us with
  | nil => exact h
  | cons t us ih =>
    exact .stmtsSeparator (hus t (by simp)) (ih fun u hu => hus u (List.mem_cons_of_mem t hu))

/-- A step over a list of statements reads one statement, or reports what it leaves out. -/
theorem reads_listedStatement (hg : g.Sound) (stop : Token.Kind) :
    Reads st (listedStatement g stop) fun S us next _ =>
      match next with
      | none => Derives S us (.stmts [])
      | some found => ∀ vs ss, Derives S vs (.stmts ss) →
        Derives S (us ++ vs) (.stmts (found.toList ++ ss)) := by
  refine reads_skipSeparators.bind fun _ us st _ => ?_
  refine .atKind_bind (fun _ st _ _ => ?_) (fun _ st _ _ => ?_)
  · refine .pure fun S _ hus => ?_
    exact derives_separators hus .stmtsNil
  refine .atKind_bind (fun _ st _ _ => ?_) (fun _ st _ _ => ?_)
  · refine .pure fun S _ hus => ?_
    exact derives_separators hus .stmtsNil
  refine .get_bind ?_
  refine (hg.statement st).observing.bind fun result ts st' _ => ?_
  cases result with
  | ok s =>
    refine .pure fun S _ hs hus vs ss hss => ?_
    have hcons := Derives.stmtsCons (hs s rfl).1 hss
    simpa using derives_separators hus hcons
  | error e =>
    -- something is reported, so any tokens may be left out
    refine (Reads.record e).bind fun _ _ st _ => .get_bind ?_
    refine Reads.mono (R := fun _ _ next _ => next = some none) ?_ ?_
    · have hadvance : ∀ st, Reads st (advance >>= fun _ => pure (some none))
          fun _ _ (next : Option (Option Stmt)) _ => next = some none :=
        fun st => Reads.advance.bind fun _ vs st _ => .pure fun _ _ _ => rfl
      split
      · exact hadvance st
      · exact .atKind_bind (fun _ st _ _ => .pure fun _ _ => rfl) (fun _ st _ _ => hadvance st)
    · rintro S vs next _ rfl ⟨-, hS⟩ _ _ ws ss hss
      exact .stmtsSkip hS hss

theorem reads_statementsUntil (hg : g.Sound) (stop : Token.Kind) :
    Reads st (statementsUntil g stop) fun S us ss _ => Derives S us (.stmts ss) := by
  refine (Reads.many (I := fun S us found => Derives S us (.stmts (found.filterMap id)))
    (fun S => .stmtsNil) fun st => ?_).bind fun found us st _ => .pure fun S _ h => ?_
  · refine (reads_listedStatement hg stop).mono ?_
    rintro S us (_ | found) _ h
    · exact h
    · intro vs ss hss
      cases found with
      | none => exact h vs _ hss
      | some s => exact h vs _ hss
  · simpa using h

theorem reads_block (hg : g.Sound) : Reads st (block g) fun S us body _ =>
    Derives S us (.block body) := by
  refine .expect_bind (by decide) (by decide) fun l st hl => .asStatements fun st => ?_
  refine (reads_statementsUntil hg _).bind fun ss us st _ => ?_
  refine (Reads.expect (by decide) (by decide)).observing.bind fun result vs st _ => ?_
  cases result with
  | ok r =>
    refine .pure fun S _ hr hss => ?_
    obtain ⟨rfl, hkind⟩ := hr r rfl
    simpa using Derives.block hl hkind hss
  | error e =>
    refine (Reads.record e).bind fun _ _ st _ => .pure fun S _ hrecord _ hss => ?_
    exact .openBlock hrecord.2 hl hss

theorem reads_body (hg : g.Sound) : Reads st (body g) fun S us body _ =>
    Derives S us (.block body) := by
  refine .get_bind ?_
  split
  · exact .skipNewlines_bind (reads_block hg)
  · exact reads_block hg

/-! ## Functions and `match` -/

theorem reads_funcLiteral (hg : g.Sound) {t : Token} (hat : At st t) (ht : t.kind = .kwFunc) :
    Reads st (funcLiteral g) fun S us e _ => Derives S us (.expr e) := by
  refine .advance_bind hat (by simp [ht]) (by simp [ht]) fun st => ?_
  refine reads_params.bind fun ids us st _ => ?_
  refine (reads_block hg).bind fun body vs st _ => .pure fun S _ hbody hids => ?_
  simpa using Derives.func ht hids hbody

theorem reads_caseValues (hg : g.Sound) : Reads st (caseValues g) fun S us values _ =>
    values ≠ [] ∧ Derives S us (.items (values.map .expr)) :=
  reads_commaSeparated (hg.expression _)

/-- The cases between braces. `I` relates the tokens to the cases and the defaults found. -/
theorem reads_arms {α β : Type} {I : Prop → List Token → List (α ⊕ β) → Prop} {construct : String}
    {caseArm : Token → Parse α} {defaultArm : Parse β} (hnil : ∀ S, I S [] [])
    (hsep : ∀ {S t ts found}, t.kind = .semicolon → I S ts found → I S (t :: ts) found)
    (hcase : ∀ word st, word.kind = .kwCase → Reads st (caseArm word) fun S us a _ =>
      ∀ vs found, I S vs found → I S (word :: (us ++ vs)) (.inl a :: found))
    (hdefault : ∀ word st, word.kind = .kwDefault → Reads st defaultArm fun S us b _ =>
      ∀ vs found, I S vs found → I S (word :: (us ++ vs)) (.inr b :: found)) :
    Reads st (arms construct caseArm defaultArm) fun S us arms _ => ∃ ts, ∃ r : Token, ∃ found,
      us = ts ++ [r] ∧ r.kind = .rbrace ∧ I S ts found
      ∧ arms = (found.filterMap Sum.getLeft?, (found.filterMap Sum.getRight?).getLast?) := by
  have hskip {S us vs found} (hus : ∀ t ∈ us, t.kind = .semicolon) (h : I S vs found) :
      I S (us ++ vs) found := by
    induction us with
    | nil => exact h
    | cons t us ih => exact hsep (hus t (by simp)) (ih fun u hu => hus u (List.mem_cons_of_mem t hu))
  refine (Reads.many hnil fun st => ?_).bind fun found us st _ => ?_
  · refine reads_skipSeparators.bind fun _ us st _ => .currentKind_bind fun t st hat => ?_
    split
    next => exact .pure fun S _ hus => hskip hus (hnil S)
    next ht =>
      refine .advance_bind hat (by simp [ht]) (by simp [ht]) fun st => ?_
      refine (hcase t st ht).bind fun a vs st _ => .pure fun S _ ha hus ws found hfound => ?_
      simpa using hskip hus (ha ws found hfound)
    next ht =>
      refine .advance_bind hat (by simp [ht]) (by simp [ht]) fun st => ?_
      refine (hdefault t st ht).bind fun b vs st _ => .pure fun S _ hb hus ws found hfound => ?_
      simpa using hskip hus (hb ws found hfound)
    next => exact .current_bind fun _ st _ => .fail _ _
  · refine .expect_bind (by decide) (by decide) fun r st hr => .pure fun S _ hfound => ?_
    exact ⟨us, r, found, rfl, hr, hfound, rfl⟩

theorem reads_matchResult (hg : g.Sound) : Reads st (matchResult g) fun S us e _ =>
    Derives S us (.result e) := by
  refine .expect_bind (by decide) (by decide) fun l st hl => ?_
  refine reads_skipSeparators.bind fun _ us st _ => ?_
  refine (hg.expression _ _).bind fun e vs st _ => ?_
  refine reads_skipSeparators.bind fun _ ws st _ => ?_
  refine .expect_bind (by decide) (by decide) fun r st hr => .pure fun S _ hws he hus => ?_
  have hall : ∀ t ∈ us ++ ws, t.kind = .semicolon := by
    intro t ht
    exact (List.mem_append.1 ht).elim (hus t) (hws t)
  exact .result hl hr hall he

theorem reads_select (hg : g.Sound) {t : Token} (hat : At st t) (ht : t.kind = .kwMatch) :
    Reads st (select g) fun S us e _ => Derives S us (.expr e) := by
  refine .advance_bind hat (by simp [ht]) (by simp [ht]) fun st => ?_
  refine .expect_bind (by decide) (by decide) fun l st hl => ?_
  refine Reads.bind (R := fun S us value _ => Derives S (l :: us) (.condition value))
    (.nested fun st => ?_) fun value us st _ => ?_
  · refine (hg.expression _ _).bind fun e us st _ => ?_
    exact .expect_bind (by decide) (by decide) fun r st hr => .pure fun S _ he => .condition hl hr he
  refine .expect_bind (by decide) (by decide) fun lb st hlb => .asStatements fun st => ?_
  refine (reads_arms (I := fun S us found => Derives S us (.matchArms found)) (fun S => .matchNil)
    (fun hsep hfound => .matchSeparator hsep hfound) (fun word st hword => ?_)
    (fun word st hword => ?_)).bind fun arms vs st _ => ?_
  · refine (reads_caseValues hg).bind fun values us st _ => ?_
    refine (reads_matchResult hg).bind fun e vs st _ => .pure fun S _ he hvalues ws found hfound => ?_
    simpa using Derives.matchCase hword hvalues.1 hvalues.2 he hfound
  · exact (reads_matchResult hg).mono fun S us e _ he vs found hfound => .matchDefault hword he hfound
  · refine .pure fun S _ harms hvalue => ?_
    obtain ⟨ts, r, found, rfl, hr, hfound, rfl⟩ := harms
    simpa using Derives.select ht hlb hr hvalue hfound

theorem reads_prefixed (hg : g.Sound) {t : Token} {op : PrefixOp} (hat : At st t)
    (hop : PrefixOp.ofKind? t.kind = some op) :
    Reads st (do
        let _ ← advance
        let value ← g.expression .prefixOp
        match PrefixOp.ofKind? t.kind with
        | some op => return .unary t.pos op value
        | none => fail .strayPrefixOp t)
      fun S us e _ => Derives S us (.expr e) := by
  refine .advance_bind hat (fun h => ?_) (fun h => ?_) fun st => ?_
  · simp [h, PrefixOp.ofKind?] at hop
  · simp [h, PrefixOp.ofKind?] at hop
  refine (hg.expression _ _).bind fun e us st _ => ?_
  rw [hop]
  exact .pure fun S _ he => by simpa using Derives.unary hop he

theorem reads_operand (hg : g.Sound) : Reads st (operand g) fun S us e _ =>
    Derives S us (.expr e) := by
  refine .current_bind fun t st hat => ?_
  have hnumber (ht : t.kind = .int ∨ t.kind = .float) :
      Reads st (advance >>= fun _ => number t) fun S us e _ => Derives S us (.expr e) := by
    refine .advance_bind hat (by rcases ht with h | h <;> simp [h])
      (by rcases ht with h | h <;> simp [h]) fun st => ?_
    refine (reads_number ht).mono ?_
    rintro S us e _ ⟨rfl, he⟩
    exact he
  split
  next ht =>
    refine .advance_bind hat (by simp [ht]) (by simp [ht]) fun st => ?_
    exact .pure fun S _ => .ident ht
  next ht => exact hnumber (.inl ht)
  next ht => exact hnumber (.inr ht)
  next ht =>
    refine .advance_bind hat (by simp [ht]) (by simp [ht]) fun st => ?_
    exact .pure fun S _ => .str ht
  next ht =>
    refine .advance_bind hat (by simp [ht]) (by simp [ht]) fun st => ?_
    refine (reads_template hg t none).mono ?_
    rintro S us e _ ⟨rfl, es, rfl, hes⟩
    exact .template ht hes
  next ht =>
    refine .advance_bind hat (by simp [ht]) (by simp [ht]) fun st => ?_
    rw [decide_eq_true ht]
    exact .pure fun S _ => .bool (by simpa using ht)
  next ht =>
    refine .advance_bind hat (by simp [ht]) (by simp [ht]) fun st => ?_
    rw [decide_eq_false (by simp [ht])]
    exact .pure fun S _ => .bool (by simpa using ht)
  next ht =>
    refine .advance_bind hat (by simp [ht]) (by simp [ht]) fun st => ?_
    exact .pure fun S _ => .nil ht
  next ht => exact reads_prefixed hg hat (show _ = some .neg by rw [ht]; rfl)
  next ht => exact reads_prefixed hg hat (show _ = some .bang by rw [ht]; rfl)
  next ht => exact reads_prefixed hg hat (show _ = some .not by rw [ht]; rfl)
  next ht => exact reads_prefixed hg hat (show _ = some .bitNot by rw [ht]; rfl)
  next ht => exact reads_grouped hg hat ht
  next ht => exact reads_list hg hat ht
  next ht => exact reads_dict hg hat ht
  next ht => exact reads_funcLiteral hg hat ht
  next ht => exact reads_select hg hat ht
  next => exact .fail _ _
  next => exact .fail _ _
  next => exact .fail _ _

/-! ## Operators -/

theorem reads_argument (hg : g.Sound) : Reads st (argument g) fun S us e _ =>
    Derives S us (.item (.arg e)) := by
  refine .atKind_bind (fun t st hat ht => ?_) (fun _ st _ _ => ?_)
  · refine .advance_bind hat (by simp [ht]) (by simp [ht]) fun st => ?_
    refine (hg.expression _ _).bind fun e us st _ => .pure fun S _ he => ?_
    simpa using Derives.spread ht he
  · exact (hg.expression _ _).mono fun S us e _ he => .arg he

/-- What an operator and its operands on the right make of the expression on its left. -/
abbrev Extends (left : Expr) (S : Prop) (us : List Token) (e : Expr) (_ : State) : Prop :=
  ∀ ts, Derives S ts (.expr left) → Derives S (ts ++ us) (.expr e)

variable {left : Expr} {t : Token}

theorem reads_call (hg : g.Sound) (hat : At st t) (ht : t.kind = .lparen) :
    Reads st (call g left) (Extends left) := by
  refine .advance_bind hat (by simp [ht]) (by simp [ht]) fun st => .nested fun st => ?_
  refine (reads_itemsUntil fun st => reads_argument hg).bind fun args us st _ => ?_
  refine .expect_bind (by decide) (by decide) fun r st hr => .pure fun S _ hargs ts hleft => ?_
  exact .call ht hr hleft hargs

/-- The parts of a slice behind its first colon. -/
theorem reads_sliceTail (hg : g.Sound) {opening : Position} {low : Option Expr} :
    Reads st (sliceTail g opening left low) fun S us e _ => ∃ vs ws, ∃ r : Token, ∃ high step,
      us = vs ++ (ws ++ [r]) ∧ r.kind = .rbracket ∧ Derives S vs (.part high)
      ∧ Derives S ws (.step step) ∧ e = .slice opening left low high step := by
  have hstep : ∀ high st, Reads st (do
      let step ← if ← eat .colon then
          if ← atKind .rbracket then pure none else some <$> g.expression .lowest
        else pure none
      let _ ← expect .rbracket "to close slice"
      return Expr.slice opening left low high step)
      fun S us e _ => ∃ ws, ∃ r : Token, ∃ step, us = ws ++ [r] ∧ r.kind = .rbracket
        ∧ Derives S ws (.step step) ∧ e = .slice opening left low high step := by
    intro high st
    refine .eat_bind (by decide) (by decide) (fun colon st hcolon => ?_) (fun _ st _ _ => ?_)
    · refine .atKind_bind (fun _ st _ _ => ?_) (fun _ st _ _ => ?_)
      · refine .expect_bind (by decide) (by decide) fun r st hr => .pure fun S _ => ?_
        exact ⟨[colon], r, none, rfl, hr, .stepSome hcolon .partNone, rfl⟩
      · refine (Reads.map (T := fun S ws step _ => Derives S ws (.part step))
          ((hg.expression _ _).mono fun S ws e _ he => .partSome he)).bind fun step ws st _ => ?_
        refine .expect_bind (by decide) (by decide) fun r st hr => .pure fun S _ hstep => ?_
        exact ⟨colon :: ws, r, step, rfl, hr, .stepSome hcolon hstep, rfl⟩
    · refine .expect_bind (by decide) (by decide) fun r st hr => .pure fun S _ => ?_
      exact ⟨[], r, none, rfl, hr, .stepNone, rfl⟩
  have hlow : ∀ st, Reads st (do
      let step ← if ← eat .colon then
          if ← atKind .rbracket then pure none else some <$> g.expression .lowest
        else pure none
      let _ ← expect .rbracket "to close slice"
      return Expr.slice opening left low none step)
      fun S us e _ => ∃ vs ws, ∃ r : Token, ∃ high step, us = vs ++ (ws ++ [r])
        ∧ r.kind = .rbracket ∧ Derives S vs (.part high) ∧ Derives S ws (.step step)
        ∧ e = .slice opening left low high step := by
    intro st
    refine (hstep none st).mono ?_
    rintro S us e _ ⟨ws, r, step, rfl, hr, hws, rfl⟩
    exact ⟨[], ws, r, none, step, rfl, hr, .partNone, hws, rfl⟩
  refine .currentKind_bind fun t st hat => ?_
  split
  · exact hlow st
  · exact hlow st
  · refine (Reads.map (T := fun S vs high _ => Derives S vs (.part high))
      ((hg.expression _ _).mono fun S vs e _ he => .partSome he)).bind fun high vs st _ => ?_
    refine (hstep high st).mono ?_
    rintro S us e _ ⟨ws, r, step, rfl, hr, hws, rfl⟩ hvs
    exact ⟨vs, ws, r, high, step, rfl, hr, hvs, hws, rfl⟩

theorem reads_index (hg : g.Sound) (hat : At st t) (ht : t.kind = .lbracket) :
    Reads st (index g left) (Extends left) := by
  refine .advance_bind hat (by simp [ht]) (by simp [ht]) fun st => .nested fun st => ?_
  refine .eat_bind (by decide) (by decide) (fun colon st hcolon => ?_) (fun _ st _ _ => ?_)
  · refine (reads_sliceTail hg).mono ?_
    rintro S us e _ ⟨vs, ws, r, high, step, rfl, hr, hvs, hws, rfl⟩ ts hleft
    exact .slice ht hcolon hr hleft .partNone hvs hws
  refine (hg.expression _ _).bind fun low us st _ => ?_
  refine .eat_bind (by decide) (by decide) (fun colon st hcolon => ?_) (fun _ st _ _ => ?_)
  · refine (reads_sliceTail hg).mono ?_
    rintro S us e _ ⟨vs, ws, r, high, step, rfl, hr, hvs, hws, rfl⟩ hlow ts hleft
    exact .slice ht hcolon hr hleft (.partSome hlow) hvs hws
  · refine .expect_bind (by decide) (by decide) fun r st hr => .pure fun S _ hlow ts hleft => ?_
    exact .index ht hr hleft hlow

theorem reads_member (hat : At st t) (ht : t.kind = .dot) :
    Reads st (member left) (Extends left) := by
  refine .advance_bind hat (by simp [ht]) (by simp [ht]) fun st => ?_
  refine .current_bind fun name st hat => ?_
  split
  next hname =>
    have hname : name.kind = .ident ∨ name.kind.isKeyword = true := by simpa using hname
    have hplain : name.kind ≠ .eof ∧ name.kind ≠ .newline := by
      constructor <;> intro h <;> simp [h, Token.Kind.isKeyword] at hname
    refine .advance_bind hat hplain.1 hplain.2 fun st => .pure fun S _ ts hleft => ?_
    exact .member ht hname hleft
  next => exact .fail _ _

theorem reads_operation (hg : g.Sound) (hat : At st t) (strength : Precedence)
    (htag : t.kind = .template → isTag left = true) :
    Reads st (operation g left strength) (Extends left) := by
  refine .current_bind_of_at hat ?_
  split
  next op hop =>
    split
    · exact .fail _ _
    next hassignable =>
    have hassignable : isAssignable op left = true := by simpa using hassignable
    refine .advance_bind hat (fun h => ?_) (fun h => ?_) fun st => ?_
    · simp [h, AssignOp.ofKind?] at hop
    · simp [h, AssignOp.ofKind?] at hop
    refine (hg.expression _ _).bind fun value us st _ => .pure fun S _ hvalue ts hleft => ?_
    simpa using Derives.assign hop hassignable hleft hvalue
  next =>
    split
    next ht =>
      refine .advance_bind hat (by simp [ht]) (by simp [ht]) fun st => ?_
      refine (hg.expression _ _).bind fun thenE us st _ => ?_
      refine .expect_bind (by decide) (by decide) fun colon st hcolon => ?_
      refine (hg.expression _ _).bind fun elseE vs st _ => .pure fun S _ helse hthen ts hleft => ?_
      simpa using Derives.ternary ht hcolon hleft hthen helse
    next ht =>
      refine .advance_bind hat (by simp [ht]) (by simp [ht]) fun st => ?_
      refine (hg.expression _ _).bind fun cond us st _ => ?_
      refine .expect_bind (by decide) (by decide) fun word st hword => ?_
      refine (hg.expression _ _).bind fun elseE vs st _ => .pure fun S _ helse hcond ts hleft => ?_
      simpa using Derives.conditional ht hword hleft hcond helse
    next ht => exact reads_call hg hat ht
    next ht => exact reads_index hg hat ht
    next ht => exact reads_member hat ht
    next ht =>
      refine .advance_bind hat (by simp [ht]) (by simp [ht]) fun st => ?_
      refine (reads_template hg t (some left)).mono ?_
      rintro S us e _ ⟨rfl, es, rfl, hes⟩ ts hleft
      exact .tagged ht (htag ht) hleft hes
    next =>
      split
      next op hop =>
        refine .advance_bind hat (fun h => ?_) (fun h => ?_) fun st => ?_
        · simp [h, InfixOp.ofKind?] at hop
        · simp [h, InfixOp.ofKind?] at hop
        refine (hg.expression _ _).bind fun right us st _ => .pure fun S _ hright ts hleft => ?_
        simpa using Derives.binary hop hleft hright
      next => exact .fail _ _

/-- Asking for an operator reads nothing. A template is one only behind a tag. -/
theorem reads_continuation (level : Precedence) :
    Reads st (continuation? level left) fun _ us found st' => us = [] ∧ (found.isSome = true →
      ∃ t, At st' t ∧ (t.kind = .template → isTag left = true)) := by
  refine .currentKind_bind fun t st hat => ?_
  split
  next => exact .pure fun _ _ => ⟨rfl, by simp⟩
  next strength _ =>
    split
    next => exact .pure fun _ _ => ⟨rfl, by simp⟩
    next =>
      split
      next => exact .pure fun _ _ => ⟨rfl, by simp⟩
      next htag => exact .pure fun _ _ => ⟨rfl, fun _ => ⟨t, hat, by simpa using htag⟩⟩

theorem reads_operations (hg : g.Sound) (level : Precedence) (limit : Nat) :
    Reads st (operations g level limit left) (Extends left) := by
  induction limit generalizing st left with
  | zero => exact .pure fun S _ ts hleft => by simpa using hleft
  | succ limit ih =>
    refine (reads_continuation level).bind fun found us st' hfound => ?_
    obtain ⟨rfl, hfound⟩ := hfound
    cases found with
    | none => exact .pure fun S _ _ ts hleft => by simpa using hleft
    | some strength =>
      obtain ⟨t, hat, htag⟩ := hfound rfl
      refine (reads_operation hg hat strength htag).bind fun e us st'' _ => ?_
      refine ih.mono fun S vs e' _ hrest hfirst _ ts hleft => ?_
      simpa using hrest _ (hfirst ts hleft)

theorem reads_expression (hg : g.Sound) (level : Precedence) :
    Reads st (expression g level) fun S us e _ => Derives S us (.expr e) := by
  refine (reads_operand hg).bind fun left us st' _ => .get_bind ?_
  exact (reads_operations hg level _).mono fun S vs e _ hrest hleft => hrest us hleft

end Welle.Parser
