import Welle.Proofs.Printing.Branches
import Welle.Proofs.Printing.Clauses

set_option autoImplicit false

/-! # Printed `for` loops are read back

The first tokens of a header decide its form. A clause does not start like the names of a loop over a
sequence: it starts with a parenthesis that holds no list in front of the word `in`, or with a name
that no comma, no parenthesis and no `in` follows. -/

namespace Welle.Parser

open Token (Shape mark shape nameToken)

variable {g : Grammar} {ts us rest : List Token} {r t next : Token} {e : Expr} {s : Stmt}

/-! ## The form of a header -/

theorem skipPairs_split (kinds : List Token.Kind) : ∃ names, kinds = names ++ afterNames.skipPairs kinds
    ∧ ∀ kind ∈ names, kind.isListed = true := by
  induction kinds using afterNames.skipPairs.induct with
  | case1 rest ih =>
    obtain ⟨names, heq, hnames⟩ := ih
    refine ⟨.comma :: .ident :: names, ?_, ?_⟩
    · rw [afterNames.skipPairs, List.cons_append, List.cons_append, ← heq]
    · simpa [Token.Kind.isListed] using hnames
  | case2 kinds hnot =>
    refine ⟨[], ?_, List.forall_mem_nil _⟩
    rw [afterNames.skipPairs.eq_def]
    split
    · exact absurd rfl (hnot _)
    · rfl

/-- Names that the word `in` follows. -/
theorem exists_of_namesThenIn {kinds : List Token.Kind} (h : namesThenIn kinds = true) :
    ∃ names behind : List Token.Kind, kinds = names ++ .rparen :: .kwIn :: behind
      ∧ ∀ kind ∈ names, kind.isListed = true := by
  match kinds, h with
  | .ident :: rest, h =>
    obtain ⟨names, heq, hnames⟩ := skipPairs_split rest
    rw [namesThenIn, afterNames] at h
    split at h
    next behind hbehind =>
      rw [Option.some.inj hbehind] at heq
      refine ⟨.ident :: names, behind, by rw [List.cons_append, ← heq], ?_⟩
      simpa [Token.Kind.isListed] using hnames
    · cases h

/-- Line feeds may stand between the names, which are a list in parentheses all the same. -/
theorem exists_listed {ss : List Shape} (k : Nat)
    (h : namesThenIn (((ss.map Prod.fst).filter (· ≠ .newline)).take k) = true) :
    ∃ listed, ∃ r : Shape, ∃ behind, ss = listed ++ r :: behind ∧ r.1 = .rparen
      ∧ (∀ s ∈ listed, s.1.isListed = true) ∧ ∃ s ∈ behind.head?, s.1.isSign = true := by
  obtain ⟨names, behind, heq, hnames⟩ := exists_of_namesThenIn h
  have hfilter : ((ss.filter (·.1 ≠ .newline)).take k).map Prod.fst
      = names ++ Token.Kind.rparen :: Token.Kind.kwIn :: behind := by
    rw [← heq, List.map_take, List.filter_map]
    rfl
  obtain ⟨listed, us, hsplit, rfl, hus⟩ := List.map_eq_append_iff.1 hfilter
  obtain ⟨r, us, rfl, hr, hus⟩ := List.map_eq_cons_iff.1 hus
  obtain ⟨word, us, rfl, hword, -⟩ := List.map_eq_cons_iff.1 hus
  have hall : ss.filter (·.1 ≠ .newline)
      = listed ++ r :: word :: (us ++ (ss.filter (·.1 ≠ .newline)).drop k) := by
    rw [← List.cons_append, ← List.cons_append, ← List.append_assoc, ← hsplit, List.take_append_drop]
  obtain ⟨ss₁, ss₂, rfl, hlisted, hbehind⟩ := List.filter_eq_append_iff.1 hall
  obtain ⟨gap, ss₃, rfl, hgap, -, hrest⟩ := List.filter_eq_cons_iff.1 hbehind
  obtain ⟨gap', ss₄, rfl, hgap', -, -⟩ := List.filter_eq_cons_iff.1 hrest
  refine ⟨ss₁ ++ gap, r, gap' ++ word :: ss₄, by simp, hr, fun s hs => ?_, ?_⟩
  · rcases List.mem_append.1 hs with hs | hs
    · by_cases hline : s.1 = .newline
      · rw [hline]
        rfl
      · exact hnames _ (List.mem_map_of_mem (hlisted ▸ List.mem_filter.2 ⟨hs, by simpa using hline⟩))
    · have hline : s.1 = .newline := by simpa using hgap s hs
      rw [hline]
      rfl
  · cases gap' with
    | nil => exact ⟨word, rfl, by rw [hword]; rfl⟩
    | cons s gap' =>
      have hline : s.1 = .newline := by simpa using hgap' s List.mem_cons_self
      exact ⟨s, rfl, by rw [hline]; rfl⟩

/-- A header whose first clause is missing. -/
theorem forShape_semicolon {st : State} {behind : List Shape}
    (h : st.tokens.map shape = mark .lparen :: mark .semicolon :: behind) :
    forShape st = .clauses := by
  have hkinds : st.tokens.map (·.kind) = .lparen :: .semicolon :: behind.map Prod.fst := by
    simpa [Function.comp_def, shape, mark] using congrArg (List.map Prod.fst) h
  rw [forShape, hkinds]
  simp [forLookahead, ForShape.ofKinds, namesThenIn, afterNames]

/-- A header that starts with a clause. -/
theorem forShape_clause {st : State} {ss behind : List Shape} (hstarts : Token.StartsClause ss)
    (hfenced : Token.Fenced ss)
    (h : st.tokens.map shape = mark .lparen :: (ss ++ mark .semicolon :: behind)) :
    forShape st = .clauses := by
  obtain ⟨s, tail, rfl, hs, hname, -⟩ := hstarts
  have hline : s.1 ≠ .newline := by
    intro heq
    rw [heq] at hs
    cases hs
  have hkinds : st.tokens.map (·.kind)
      = .lparen :: s.1 :: (tail ++ mark .semicolon :: behind).map Prod.fst := by
    simpa [Function.comp_def, shape, mark] using congrArg (List.map Prod.fst) h
  generalize hafter : tail ++ mark .semicolon :: behind = after at hkinds
  rw [forShape, hkinds, List.filter_cons_of_pos (by decide), List.filter_cons_of_pos (by simpa),
    forLookahead, List.take_succ_cons, List.take_succ_cons]
  by_cases hparen : s.1 = .lparen
  · -- names in the parentheses would be fenced
    have hnot : namesThenIn (((after.map Prod.fst).filter (· ≠ .newline)).take 62) = false := by
      rw [Bool.eq_false_iff]
      intro hnames
      obtain ⟨listed, r, rest, rfl, hr, hlisted, u, hu, hsign⟩ := exists_listed 62 hnames
      have hsemicolon : ∀ t ∈ (mark .semicolon :: behind).head?, t.1.isSign = false := by
        intro t ht
        rw [← Option.some.inj ht]
        rfl
      have hbehind := hfenced listed rest _ s r (by rw [List.cons_append, hafter]) hparen hr hlisted
        hsemicolon
      rw [hbehind u hu] at hsign
      cases hsign
    rw [hparen]
    simp only [ForShape.ofKinds, hnot, Bool.false_eq_true, if_false]
  by_cases hident : s.1 = .ident
  · -- the token behind the name goes on with no list
    have hnext : ∀ u ∈ after.head?, u.1 ∉ [.comma, .rparen, .kwIn, .newline] := by
      cases tail with
      | nil =>
        subst hafter
        intro u hu
        rw [← Option.some.inj hu]
        decide
      | cons u tail =>
        subst hafter
        exact hname hident
    obtain ⟨u, after, rfl⟩ : ∃ u us, after = u :: us := by
      cases tail with
      | nil => exact ⟨_, _, hafter.symm⟩
      | cons u tail => exact ⟨_, _, hafter.symm⟩
    have hu := hnext u rfl
    simp only [List.mem_cons, List.not_mem_nil, or_false, not_or] at hu
    rw [hident, List.map_cons, List.filter_cons_of_pos (by simpa using hu.2.2.2),
      List.take_succ_cons]
    simp [ForShape.ofKinds, namesThenIn, afterNames, afterNames.skipPairs, hu]
  · generalize s.1 = kind at hparen hident
    simp [ForShape.ofKinds, namesThenIn, afterNames, hparen, hident]

/-! ## Clauses -/

/-- A part of a header that may be missing, in front of the token that ends it. -/
theorem takes_part_bind {α β κ μ : Type} {view : α → κ} {view' : β → μ} {p : Parse α} {part : Option α}
    {tokens : α → List Shape} {value : α → α} {close : Token.Kind} {f : Option α → Parse β} {b : β}
    (hr : r.kind = close) (hclose : close ≠ .newline)
    (hstarts : ∀ a ∈ part, ∃ s tail, tokens a = s :: tail ∧ s.1 ≠ close ∧ s.1 ≠ .newline)
    (htakes : ∀ a ∈ part, ∀ ts rest, ts.map shape = tokens a →
      Takes view p ts (r :: rest) (value a))
    (hts : ts.map shape = part.elim [] tokens)
    (hf : ∀ found, found.map view = (part.map value).map view →
      Takes view' (f found) (r :: us) rest b) :
    Takes view' (atKind close >>= fun closes =>
      if closes = true then pure none >>= f else some <$> p >>= f) (ts ++ r :: us) rest b := by
  subst hr
  cases part with
  | none =>
    obtain rfl := List.map_eq_nil_iff.1 hts
    refine .atKind_bind hclose ?_
    simp only [List.nil_append, List.cons_append, headKind_cons, decide_true, if_true, pure_bind]
    exact hf none rfl
  | some a =>
    obtain ⟨s, tail, hs, hne, hline⟩ := hstarts a rfl
    have hhead : headKind ((ts ++ r :: us) ++ rest) = s.1 := by
      rw [List.append_assoc]
      exact headKind_of_map (hts.trans hs)
    refine .atKind_bind (hhead ▸ hline) ?_
    simp only [hhead, hne, decide_false, Bool.false_eq_true, if_false]
    have hsome : Takes (Option.map view) (some <$> p) ts (r :: us ++ rest) (some (value a)) :=
      (htakes a rfl ts (us ++ rest) hts).map fun a' ha' => congrArg some ha'
    exact .bind hsome hf

theorem IsClause.starts_ne (h : IsClause g s) {close : Token.Kind}
    (hclose : close.isOperandStart = false) :
    ∃ head tail, s.tokens = head :: tail ∧ head.1 ≠ close ∧ head.1 ≠ .newline := by
  obtain ⟨head, tail, htokens, hs, -⟩ := h.starts
  refine ⟨head, tail, htokens, ?_, ?_⟩
  · rintro rfl
    rw [hs] at hclose
    cases hclose
  · intro heq
    rw [heq] at hs
    cases hs

theorem tokensBehind_nil (s : Option Stmt) : Stmt.tokensBehind [] s = s.elim [] Stmt.tokens := by
  cases s <;> rfl

theorem tokensBetween_nil (e : Option Expr) : Expr.tokensBetween [] [] e = e.elim [] Expr.tokens := by
  cases e with
  | none => rfl
  | some e => exact List.append_nil _

/-- A loop with three clauses, each of which may be missing. -/
theorem isStated_forLoop {pos : Position} {init post : Option Stmt} {test : Option Expr} {body : Block}
    (hinit : ∀ s ∈ init, IsClause g s) (htest : ∀ e ∈ test, IsRead g e)
    (hpost : ∀ s ∈ post, IsClause g s) (hstmts : ∀ s ∈ body.stmts, IsStated g.statement s) :
    IsStated (statement g) (.forLoop pos init test post body) := by
  refine isStated_of_word rfl rfl fun {word next ts rest} hword hts _ => ?_
  rw [tokensBehind_nil, tokensBetween_nil, tokensBehind_nil] at hts
  -- the header is not one with names
  have hshape (n : Nat) (ds : List Diagnostic) : forShape ⟨ts ++ next :: rest, n, ds⟩ = .clauses := by
    have htokens := congrArg (· ++ (next :: rest).map shape) hts
    simp only [← List.map_append, List.cons_append, List.append_assoc] at htokens
    cases init with
    | none => exact forShape_semicolon htokens
    | some s => exact forShape_clause (hinit s rfl).starts (hinit s rfl).fences htokens
  obtain ⟨l, us, rfl, hl, hbody⟩ := List.map_eq_cons_iff.1 hts
  obtain ⟨ts, us, rfl, hinitTokens, hbehind⟩ := List.map_eq_append_iff.1 hbody
  obtain ⟨semicolon, us, rfl, hsemicolon, htestTokens⟩ := List.map_eq_cons_iff.1 hbehind
  obtain ⟨vs, us, rfl, hvs, hbehind⟩ := List.map_eq_append_iff.1 htestTokens
  obtain ⟨semicolon', us, rfl, hsemicolon', hpostTokens⟩ := List.map_eq_cons_iff.1 hbehind
  obtain ⟨ws, us, rfl, hws, hbehind⟩ := List.map_eq_append_iff.1 hpostTokens
  obtain ⟨r, us, rfl, hr, hbodyTokens⟩ := List.map_eq_cons_iff.1 hbehind
  have hl : l.kind = .lparen := congrArg Prod.fst hl
  have hsemicolon : semicolon.kind = .semicolon := congrArg Prod.fst hsemicolon
  have hsemicolon' : semicolon'.kind = .semicolon := congrArg Prod.fst hsemicolon'
  have hr : r.kind = .rparen := congrArg Prod.fst hr
  have hclause {s : Option Stmt} (hs : ∀ s' ∈ s, IsClause g s') {r : Token}
      (hstop : stops .lowest r.kind = true) : ∀ s' ∈ s, ∀ ts rest, ts.map shape = s'.tokens →
      Takes Stmt.unplaced (simpleStatement g) ts (r :: rest) s'.reread :=
    fun s' hs' ts rest hts => (hs s' hs').takes hts hstop
  change Takes Stmt.unplaced (forLoop g) _ _ _
  unfold forLoop
  refine .advance_bind (by rw [hword]; rfl) ?_
  refine .get_bind fun n ds => ?_
  rw [hshape]
  refine (?_ : Takes Stmt.unplaced (clauses g word.pos) _ (next :: rest) _) n ds
  unfold clauses
  refine .expect_bind hl rfl ?_
  have hsplit : ts ++ semicolon :: (vs ++ semicolon' :: (ws ++ r :: us))
      = (ts ++ semicolon :: (vs ++ semicolon' :: (ws ++ [r]))) ++ us := by simp
  rw [hsplit]
  refine .bind (?_ : Takes (fun parts => (parts.1.map Stmt.unplaced, parts.2.1.map Expr.unplaced,
      parts.2.2.map Stmt.unplaced)) _ _ _
    (init.map Stmt.reread, test.map Expr.reread, post.map Stmt.reread)) fun parts hparts => ?_
  · refine .nested ?_
    refine takes_part_bind hsemicolon (by decide) (fun s hs => (hinit s hs).starts_ne rfl)
      (hclause hinit (by rw [hsemicolon]; rfl)) hinitTokens fun init' hinit' => ?_
    refine .expect_bind hsemicolon rfl ?_
    refine takes_part_bind hsemicolon' (by decide)
      (fun e he => ((htest e he).isItem rfl rfl).starts) (fun e he ts rest hts =>
        (htest e he).takes hts (by decide) (by rw [hsemicolon']; rfl)) hvs fun test' htest' => ?_
    refine .expect_bind hsemicolon' rfl ?_
    refine takes_part_bind hr (by decide) (fun s hs => (hpost s hs).starts_ne rfl)
      (hclause hpost (by rw [hr]; rfl)) hws fun post' hpost' => ?_
    exact .expect_bind hr rfl (.pure (by rw [hinit', htest', hpost']))
  · obtain ⟨init', test', post'⟩ := parts
    simp only [Prod.mk.injEq] at hparts
    obtain ⟨hinit', htest', hpost'⟩ := hparts
    refine .bind_last (takes_body hstmts hbodyTokens) fun body' hbody' => ?_
    refine .pure ?_
    simp only [Stmt.unplaced, Stmt.reread, Stmt.optionUnplaced_eq, Stmt.optionReread_eq,
      Expr.optionUnplaced_eq, Expr.optionReread_eq, hinit', htest', hpost', hbody']

/-! ## Loops over sequences -/

theorem takes_forSequence (he : IsRead g e) (hts : ts.map shape = mark .kwIn :: e.tokens)
    (hr : r.kind = .rparen) :
    Takes Expr.unplaced (forSequence g) ts (r :: rest) e.reread := by
  obtain ⟨word, us, rfl, hword, hus⟩ := List.map_eq_cons_iff.1 hts
  unfold forSequence
  refine .expect_bind (congrArg Prod.fst hword) rfl ?_
  exact he.takes hus (by decide) (by rw [hr]; rfl)

/-- The body of a loop behind a key and perhaps a value. -/
theorem takes_finishForIn {pos p : Position} {key : Ident} {value : Option Ident}
    {targets : List Ident} {seq : Expr} {body : Block}
    (htargets : targets.map Ident.unplaced = (key :: value.toList).map Ident.unplaced)
    (he : seq.unplaced = e.reread.unplaced) (hstmts : ∀ s ∈ body.stmts, IsStated g.statement s)
    (hts : ts.map shape = body.tokens) :
    Takes Stmt.unplaced (finishForIn g p targets seq) ts rest
      (Stmt.forIn pos key value e body).reread := by
  obtain ⟨key', others, rfl, hkey, hothers⟩ := List.map_eq_cons_iff.1 htargets
  have hvalue : others[0]?.map Ident.unplaced = value.map Ident.unplaced := by
    rw [← List.getElem?_map, hothers]
    cases value <;> rfl
  unfold finishForIn
  refine .bind_last (takes_body hstmts hts) fun body' hbody' => ?_
  refine .pure ?_
  simp only [Stmt.unplaced, Stmt.reread, List.headD_cons, List.getElem?_cons_succ, hkey, hvalue, he,
    hbody']

theorem takes_forTargets {names : List Ident} (hne : names ≠ [])
    (hts : ts.map shape = Token.commas (names.map fun id => [nameToken id]))
    (hr : r.kind = .rparen) :
    Takes (List.map Ident.unplaced) forTargets (ts ++ [r]) rest names := by
  have hitem (id : Ident) : IsItem Ident.unplaced (expectIdent "in for-in targets") .rparen
      [nameToken id] id := by
    refine ⟨⟨_, [], rfl, Token.Kind.noConfusion, Token.Kind.noConfusion⟩, fun hts _ => ?_⟩
    obtain ⟨t, rfl, ht⟩ := List.map_eq_singleton_iff.1 hts
    exact takes_expectIdent ht
  have hnames : Takes (List.map Ident.unplaced) (commaSeparated (expectIdent "in for-in targets")) ts
      ([r] ++ rest) (names.map id) :=
    takes_commaSeparated hr (by decide) (by decide) (fun id _ => hitem id) hne hts
  rw [List.map_id] at hnames
  unfold forTargets
  refine .bind hnames fun targets htargets => ?_
  exact .expect_bind hr rfl (.pure htargets)

/-- A loop over the values of a sequence. -/
theorem isStated_forKey {pos : Position} {key : Ident} {body : Block} (he : IsRead g e)
    (hstmts : ∀ s ∈ body.stmts, IsStated g.statement s) :
    IsStated (statement g) (.forIn pos key none e body) := by
  refine isStated_of_word rfl rfl fun {word next ts rest} hword hts _ => ?_
  obtain ⟨l, us, rfl, hl, hnames⟩ := List.map_eq_cons_iff.1 hts
  obtain ⟨t, us, rfl, ht, hin⟩ := List.map_eq_cons_iff.1 hnames
  have hin : us.map shape = (mark .kwIn :: e.tokens) ++ mark .rparen :: body.tokens := hin
  obtain ⟨ts, us, rfl, hseq, hbehind⟩ := List.map_eq_append_iff.1 hin
  obtain ⟨r, us, rfl, hr, hbody⟩ := List.map_eq_cons_iff.1 hbehind
  have hl : l.kind = .lparen := congrArg Prod.fst hl
  have hr : r.kind = .rparen := congrArg Prod.fst hr
  have hkind : t.kind = .ident := congrArg Prod.fst ht
  have hliteral : t.literal = key.name := congrArg Prod.snd ht
  have hshape (n : Nat) (ds : List Diagnostic) :
      forShape ⟨l :: t :: (ts ++ r :: us) ++ next :: rest, n, ds⟩ = .inParens := by
    obtain ⟨inWord, vs, rfl, hmark, -⟩ := List.map_eq_cons_iff.1 hseq
    have hin : inWord.kind = .kwIn := congrArg Prod.fst hmark
    simp [forShape, forLookahead, ForShape.ofKinds, hl, hkind, hin]
  change Takes Stmt.unplaced (forLoop g) _ _ _
  unfold forLoop
  refine .advance_bind (by rw [hword]; rfl) ?_
  refine .get_bind fun n ds => ?_
  rw [hshape]
  refine (?_ : Takes Stmt.unplaced _ _ (next :: rest) _) n ds
  refine .expect_bind hl rfl ?_
  have hsplit : t :: (ts ++ r :: us) = (t :: (ts ++ [r])) ++ us := by simp
  rw [hsplit]
  refine .bind (?_ : Takes (fun parts => (parts.1.unplaced, parts.2.unplaced)) _ _ _ (key, e.reread))
    fun parts hparts => ?_
  · refine .nested ?_
    refine .expectIdent_bind hkind ?_
    refine .bind (takes_forSequence he hseq hr) fun seq hseq => ?_
    refine .expect_bind hr rfl (.pure ?_)
    simp only [hseq, Ident.unplaced, hliteral]
  · obtain ⟨key', seq⟩ := parts
    obtain ⟨hkey, hseq⟩ := Prod.mk.inj hparts
    exact takes_finishForIn (congrArg (fun id => [id]) hkey) hseq hstmts hbody

theorem run_checkTargets_pair {targets : List Ident} (h : targets.length = 2) (p : Position)
    (st : State) : run (checkTargets p targets) st = (.ok (), st) := by
  rw [checkTargets, if_neg (by simp [h])]
  rfl

/-- A loop over the keys and values of a sequence. -/
theorem isStated_forPair {pos : Position} {key value : Ident} {body : Block} (he : IsRead g e)
    (hstmts : ∀ s ∈ body.stmts, IsStated g.statement s) :
    IsStated (statement g) (.forIn pos key (some value) e body) := by
  refine isStated_of_word rfl rfl fun {word next ts rest} hword hts _ => ?_
  have hts : ts.map shape = mark .lparen :: mark .lparen
      :: (Token.commas ([key, value].map fun id => [nameToken id])
        ++ mark .rparen :: ((mark .kwIn :: e.tokens) ++ mark .rparen :: body.tokens)) := hts
  obtain ⟨l, us, rfl, hl, hinner⟩ := List.map_eq_cons_iff.1 hts
  obtain ⟨l', us, rfl, hl', hnames⟩ := List.map_eq_cons_iff.1 hinner
  obtain ⟨ns, us, rfl, hns, hclose⟩ := List.map_eq_append_iff.1 hnames
  obtain ⟨r', us, rfl, hr', hin⟩ := List.map_eq_cons_iff.1 hclose
  obtain ⟨ts, us, rfl, hseq, hbehind⟩ := List.map_eq_append_iff.1 hin
  obtain ⟨r, us, rfl, hr, hbody⟩ := List.map_eq_cons_iff.1 hbehind
  have hl : l.kind = .lparen := congrArg Prod.fst hl
  have hl' : l'.kind = .lparen := congrArg Prod.fst hl'
  have hr : r.kind = .rparen := congrArg Prod.fst hr
  have hr' : r'.kind = .rparen := congrArg Prod.fst hr'
  -- the names in parentheses and the word decide the form
  have hshape (n : Nat) (ds : List Diagnostic) :
      forShape ⟨l :: l' :: (ns ++ r' :: (ts ++ r :: us)) ++ next :: rest, n, ds⟩ = .grouped := by
    obtain ⟨inWord, vs, rfl, hmark, -⟩ := List.map_eq_cons_iff.1 hseq
    obtain ⟨t, us', rfl, ht, hns⟩ := List.map_eq_cons_iff.1 hns
    obtain ⟨comma, us', rfl, hcomma, hns⟩ := List.map_eq_cons_iff.1 hns
    obtain ⟨t', rfl, ht'⟩ := List.map_eq_singleton_iff.1 hns
    have hin : inWord.kind = .kwIn := congrArg Prod.fst hmark
    have ht : t.kind = .ident := congrArg Prod.fst ht
    have hcomma : comma.kind = .comma := congrArg Prod.fst hcomma
    have ht' : t'.kind = .ident := congrArg Prod.fst ht'
    simp [forShape, forLookahead, ForShape.ofKinds, namesThenIn, afterNames, afterNames.skipPairs, hl,
      hl', ht, hcomma, ht', hr', hin]
  change Takes Stmt.unplaced (forLoop g) _ _ _
  unfold forLoop
  refine .advance_bind (by rw [hword]; rfl) ?_
  refine .get_bind fun n ds => ?_
  rw [hshape]
  refine (?_ : Takes Stmt.unplaced _ _ (next :: rest) _) n ds
  refine .expect_bind hl rfl ?_
  have hsplit : l' :: (ns ++ r' :: (ts ++ r :: us)) = (l' :: ((ns ++ [r']) ++ (ts ++ [r]))) ++ us := by
    simp
  rw [hsplit]
  refine .bind (?_ : Takes (fun parts => (parts.1.map Ident.unplaced, parts.2.unplaced)) _ _ _
    ([key, value], e.reread)) fun parts hparts => ?_
  · refine .nested ?_
    refine .expect_bind hl' rfl ?_
    refine .bind (takes_forTargets (by simp) hns hr') fun targets htargets => ?_
    refine .bind (takes_forSequence he hseq hr) fun seq hseq => ?_
    exact .expect_bind hr rfl (.pure (by rw [htargets, hseq]))
  · obtain ⟨targets, seq⟩ := parts
    obtain ⟨htargets, hseq⟩ := Prod.mk.inj hparts
    have hlength : targets.length = 2 := by simpa using congrArg List.length htargets
    refine .look_bind (fun n ds => run_checkTargets_pair hlength _ _) ?_
    exact takes_finishForIn htargets hseq hstmts hbody

end Welle.Parser
