import Welle.Proofs.Chains
import Welle.Proofs.Printing.RoundTrip

set_option autoImplicit false

/-! # Loops over a sequence with a list of names

A loop over a sequence takes a key and a value. Where its header lists any other number of names, the
loop is kept and the number is reported, as long as the word `in` behind the names is among the
tokens that decide the form of a header. A longer list is read as the first of three clauses, and the
header fails behind it. -/

namespace Welle

open Grammar (identOf)
open Token (Shape mark lex shape commas further IsName)

namespace ForHeader

/-! ## Texts -/

/-- A loop with no statements and its names in front of the header's word `in`. -/
def outside (names : List String) (seq : String) : String :=
  "for (" ++ Literal.commas names ++ ") in " ++ seq ++ " \x7b\x7d"

/-- A loop with no statements and its names inside of the header's parentheses. -/
def grouped (names : List String) (seq : String) : String :=
  "for ((" ++ Literal.commas names ++ ") in " ++ seq ++ ") \x7b\x7d"

/-- A text is read as one loop that has no statements, and all that is reported is the number of its
    names. -/
def ReportsNames (parsed : Parsed) (names : List String) (seq : String) : Prop :=
  ∃ pos key value id opening,
    parsed.program.stmts = [.forIn pos key value (.ident id) ⟨opening, []⟩]
      ∧ key.name = names.headD "" ∧ value.map (·.name) = names[1]? ∧ id.name = seq
      ∧ parsed.diagnostics
        = [.ofSyntaxError (.atPosition (Parser.Cause.forTargets names.length).message key.pos)]

/-- The tokens of names with commas between them. -/
def nameTokens (names : List String) : List Shape := commas (names.map fun name => [(.ident, name)])

theorem nameTokens_cons (name : String) (names : List String) :
    nameTokens (name :: names)
      = (.ident, name) :: further (names.map fun name => [(.ident, name)]) := rfl

theorem lexes_names {names : List String} (h : ∀ name ∈ names, IsName name) :
    Token.Lexes (Literal.commas names).toList (nameTokens names) := by
  have hnames : Token.Lexes (Literal.commas (names.map id)).toList (nameTokens names) :=
    Token.lexes_commas fun name hname rest hrest => by
      rw [id, Token.lex_word (h name hname).word hrest, (h name hname).kind]
      rfl
  rwa [List.map_id] at hnames

theorem lex_seq {seq : String} (h : IsName seq) {rest : List Char} (hrest : Token.Apart rest) :
    lex (seq.toList ++ rest) = (.ident, seq) :: lex rest := by
  rw [Token.lex_word h.word hrest, h.kind]

theorem lex_nil : lex [] = [(.eof, "")] := by
  rw [lex, Token.tokensFrom_nil]
  rfl

/-- The tokens of a body with no statements, at the end of a text. -/
def emptyBody : List Shape := [mark .lbrace, mark .rbrace, (.eof, "")]

theorem lex_emptyBody : lex [' ', '\x7b', '\x7d'] = emptyBody := by
  rw [Token.lex_space, Token.lex_lbrace, Token.lex_rbrace, lex_nil]
  rfl

/-- The tokens of the names and of what stands behind them. -/
def tokensTo (names : List String) (seq : String) (rest : List Shape) : List Shape :=
  nameTokens names ++ mark .rparen :: mark .kwIn :: (.ident, seq) :: rest

section Lex

variable {names : List String} {seq : String}

theorem lex_outside (hnames : ∀ name ∈ names, IsName name) (hseq : IsName seq) :
    lex (outside names seq).toList
      = mark .kwFor :: mark .lparen :: tokensTo names seq emptyBody := by
  simp only [outside, String.toList_append, String.reduceToList, List.append_assoc,
    List.cons_append, List.nil_append]
  rw [Token.lex_for, Token.lex_lparen, lexes_names hnames _ (Token.apart_cons rfl _),
    Token.lex_rparen, Token.lex_space, Token.lex_in, lex_seq hseq (Token.apart_cons rfl _),
    lex_emptyBody]
  rfl

theorem lex_grouped (hnames : ∀ name ∈ names, IsName name) (hseq : IsName seq) :
    lex (grouped names seq).toList = mark .kwFor :: mark .lparen :: mark .lparen
      :: tokensTo names seq (mark .rparen :: emptyBody) := by
  simp only [grouped, String.toList_append, String.reduceToList, List.append_assoc,
    List.cons_append, List.nil_append]
  rw [Token.lex_for, Token.lex_lparen, Token.lex_lparen,
    lexes_names hnames _ (Token.apart_cons rfl _), Token.lex_rparen, Token.lex_space, Token.lex_in,
    lex_seq hseq (Token.apart_cons rfl _), Token.lex_rparen, lex_emptyBody]
  rfl

end Lex

end ForHeader

/-! ## The form of the header -/

namespace Parser

open ForHeader (nameTokens tokensTo emptyBody outside grouped ReportsNames)

section Shape

variable {names : List String} {seq : String} {rest : List Shape}

/-- Whether the word `in` behind names is seen: each name behind the first one takes two tokens. -/
theorem skipPairs_take (names : List String) (rest : List Shape) (k : Nat) :
    namesThenIn (.ident :: ((further (names.map fun name => [(.ident, name)])
        ++ mark .rparen :: mark .kwIn :: rest).map Prod.fst).take k)
      = decide (2 * names.length + 2 ≤ k) := by
  induction names generalizing k with
  | nil =>
    match k with
    | 0 => rfl
    | 1 => rfl
    | k + 2 => simp [further, mark, namesThenIn, afterNames, afterNames.skipPairs]
  | cons name names ih =>
    match k with
    | 0 => rfl
    | 1 => rfl
    | k + 2 =>
      have hdrop : ∀ kinds, namesThenIn (.ident :: .comma :: .ident :: kinds)
          = namesThenIn (.ident :: kinds) := fun _ => rfl
      simp only [further, mark, List.map_cons, List.flatMap_cons, List.cons_append, List.nil_append,
        List.take_succ_cons] at ih ⊢
      rw [hdrop, ih k, List.length_cons, decide_eq_decide]
      omega

theorem namesThenIn_take (hne : names ≠ []) (k : Nat) :
    namesThenIn (((tokensTo names seq rest).map Prod.fst).take k)
      = decide (2 * names.length + 1 ≤ k) := by
  obtain ⟨name, names, rfl⟩ := List.exists_cons_of_ne_nil hne
  cases k with
  | zero => rfl
  | succ k =>
    rw [tokensTo, ForHeader.nameTokens_cons, List.cons_append, List.map_cons, List.take_succ_cons]
    refine (skipPairs_take names _ k).trans (decide_eq_decide.2 ?_)
    rw [List.length_cons]
    omega

theorem ne_newline_of_mem (h : ∀ s ∈ rest, s.1 ≠ .newline) :
    ∀ s ∈ tokensTo names seq rest, s.1 ≠ .newline := by
  have hnames : ∀ s ∈ nameTokens names, s.1 ≠ .newline := by
    cases names with
    | nil => simp [nameTokens, commas]
    | cons name names =>
      simp only [ForHeader.nameTokens_cons, further, List.mem_cons, List.mem_flatMap, List.mem_map]
      rintro s (rfl | ⟨_, ⟨name', -, rfl⟩, hs⟩)
      · simp
      · rcases hs with rfl | hs
        · simp [mark]
        · simp [List.mem_singleton.1 hs]
  simp only [tokensTo, List.mem_append, List.mem_cons]
  rintro s (hs | rfl | rfl | rfl | hs)
  · exact hnames s hs
  · simp [mark]
  · simp [mark]
  · simp
  · exact h s hs

/-- The form of a header depends on the kinds of the tokens at the cursor. -/
theorem forShape_eq {st : State} {ss : List Shape} (h : st.tokens.map shape = ss)
    (hline : ∀ s ∈ ss, s.1 ≠ .newline) :
    forShape st = .ofKinds ((ss.map Prod.fst).take forLookahead) := by
  have hkinds : st.tokens.map (·.kind) = ss.map Prod.fst := by
    rw [← h, List.map_map]
    rfl
  have hfilter : (ss.map Prod.fst).filter (· ≠ .newline) = ss.map Prod.fst := by
    refine List.filter_eq_self.2 fun kind hkind => ?_
    obtain ⟨s, hs, rfl⟩ := List.mem_map.1 hkind
    simpa using hline s hs
  rw [forShape, hkinds, hfilter]

/-- At most thirty-one names in front of the word `in` of a header are seen as such. -/
theorem forShape_outside {st : State} (hne : names ≠ [])
    (h : st.tokens.map shape = mark .lparen :: tokensTo names seq rest)
    (hrest : ∀ s ∈ rest, s.1 ≠ .newline) :
    forShape st = if names.length ≤ 31 then .outside else .clauses := by
  have hline : ∀ s ∈ mark .lparen :: tokensTo names seq rest, s.1 ≠ .newline :=
    List.forall_mem_cons.2 ⟨by simp [mark], ne_newline_of_mem hrest⟩
  have hkinds : ForShape.ofKinds (.lparen :: ((tokensTo names seq rest).map Prod.fst).take 63)
      = if namesThenIn (((tokensTo names seq rest).map Prod.fst).take 63) then .outside
        else .clauses := by
    obtain ⟨name, names, rfl⟩ := List.exists_cons_of_ne_nil hne
    cases names <;> rfl
  rw [forShape_eq h hline, List.map_cons, forLookahead, List.take_succ_cons]
  refine hkinds.trans ?_
  rw [namesThenIn_take hne]
  simp only [decide_eq_true_eq]
  exact if_congr (by omega) rfl rfl

/-- At most thirty names inside of a header's parentheses are seen as such. -/
theorem forShape_grouped {st : State} (hne : names ≠ [])
    (h : st.tokens.map shape = mark .lparen :: mark .lparen :: tokensTo names seq rest)
    (hrest : ∀ s ∈ rest, s.1 ≠ .newline) :
    forShape st = if names.length ≤ 30 then .grouped else .clauses := by
  have hline : ∀ s ∈ mark .lparen :: mark .lparen :: tokensTo names seq rest, s.1 ≠ .newline :=
    List.forall_mem_cons.2 ⟨by simp [mark],
      List.forall_mem_cons.2 ⟨by simp [mark], ne_newline_of_mem hrest⟩⟩
  rw [forShape_eq h hline, List.map_cons, List.map_cons, forLookahead, List.take_succ_cons,
    List.take_succ_cons]
  change (if namesThenIn (((tokensTo names seq rest).map Prod.fst).take 62) then ForShape.grouped
    else .clauses) = _
  rw [namesThenIn_take hne]
  simp only [decide_eq_true_eq]
  exact if_congr (by omega) rfl rfl

end Shape

/-! ## Reading the parts of a loop -/

section Parts

variable {g : Grammar} {names : List String} {ts rest : List Token} {n : Nat}
variable {ds : List Diagnostic} {level : Precedence} {t next : Token}

/-- A name in front of a token that continues no expression. -/
theorem run_expression_ident (g : Grammar) (level : Precedence) (ht : t.kind = .ident)
    (hnext : Precedence.ofKind? next.kind = none) (hline : next.kind ≠ .newline) (rest : List Token)
    (n : Nat) (ds : List Diagnostic) :
    run (expression g level) ⟨t :: next :: rest, n, ds⟩
      = (.ok (.ident (identOf t)), ⟨next :: rest, n, ds⟩) := by
  have hat := At.cons hline rest n ds
  have hstops : run (continuation? level (.ident (identOf t))) ⟨next :: rest, n, ds⟩
      = (.ok none, ⟨next :: rest, n, ds⟩) := by
    rw [run_continuation?_none (by rw [hat.settled, hat.current, hnext]), hat.settled]
  rw [expression, run_bind_ok (run_operand_ident g ht _ n ds), run_bind_ok (run_get _),
    List.length_cons, operations, run_bind_ok hstops]
  rfl

/-- The names of a header, in their order. -/
theorem run_forTargets (hne : names ≠ []) (hts : ts.map shape = nameTokens names)
    (ht : t.kind = .rparen) (rest : List Token) (n : Nat) (ds : List Diagnostic) :
    ∃ targets, targets.map (·.name) = names
      ∧ run forTargets ⟨ts ++ t :: rest, n, ds⟩ = (.ok targets, ⟨rest, n, ds⟩) := by
  have hids : ts.map shape
      = commas ((names.map (⟨·, .start⟩ : String → Ident)).map fun id => [Token.nameToken id]) := by
    rw [hts, nameTokens, List.map_map]
    rfl
  have htaken : Takes (List.map Ident.unplaced) forTargets (ts ++ [t]) rest
      (names.map (⟨·, .start⟩)) := takes_forTargets (by simpa using hne) hids ht
  obtain ⟨targets, htargets, hrun⟩ := htaken n ds
  rw [List.append_assoc, List.singleton_append] at hrun
  refine ⟨targets, ?_, hrun⟩
  have hnames := congrArg (List.map (·.name)) htargets
  rw [List.map_map, List.map_map, List.map_map] at hnames
  exact hnames.trans (List.map_id'' (fun _ => rfl) names)

/-- A list of statements ends in front of the token that closes it. -/
theorem run_statementsUntil_nil (g : Grammar) (ht : isSolid t.kind = true)
    (hseparator : t.kind.isSeparator = false) (rest : List Token) (n : Nat) (ds : List Diagnostic) :
    run (statementsUntil g t.kind) ⟨t :: rest, n, ds⟩ = (.ok [], ⟨t :: rest, n, ds⟩) := by
  have hat := At.cons (ne_newline_of_isSolid ht) rest n ds
  have hskip : State.dropSeparators ⟨t :: rest, n, ds⟩ = ⟨t :: rest, n, ds⟩ := by
    simp [State.dropSeparators, hseparator]
  have hkind : run (atKind t.kind) ⟨t :: rest, n, ds⟩ = (.ok true, ⟨t :: rest, n, ds⟩) := by
    rw [run_atKind, hat.settled, hat.current, decide_eq_true rfl]
  have hstops : run (listedStatement g t.kind) ⟨t :: rest, n, ds⟩
      = (.ok none, ⟨t :: rest, n, ds⟩) := by
    rw [listedStatement, run_bind_ok (run_skipSeparators _), hskip, run_bind_ok hkind]
    rfl
  rw [statementsUntil, many, bind_assoc, run_bind_ok (run_get _), List.length_cons, collect,
    bind_assoc, run_bind_ok hstops]
  rfl

/-- A body with no statements. -/
theorem run_body_empty (g : Grammar) (ht : t.kind = .lbrace) (hnext : next.kind = .rbrace)
    (rest : List Token) (n : Nat) (ds : List Diagnostic) :
    run (body g) ⟨t :: next :: rest, n, ds⟩ = (.ok ⟨t.pos, []⟩, ⟨rest, n, ds⟩) := by
  have hnil := run_statementsUntil_nil g (t := next) (by rw [hnext]; rfl) (by rw [hnext]; rfl) rest 0
    ds
  have hclose := run_expect "to close block" hnext rfl rest 0 ds
  have hlines : State.dropNewlines ⟨t :: next :: rest, n, ds⟩ = ⟨t :: next :: rest, n, ds⟩ := by
    simp [State.dropNewlines, ht]
  rw [body, run_bind_ok (run_get _)]
  simp only [State.nextAfterNewlinesIs, List.find?_cons, ht, ne_eq, reduceCtorEq, not_false_eq_true,
    decide_true, Option.any_some, if_true]
  rw [run_bind_ok (run_skipNewlines _), hlines, block, run_bind_ok (run_expect _ ht rfl _ n ds)]
  refine run_asStatements_ok ?_
  rw [hnext] at hnil
  rw [run_bind_ok hnil, run_bind_ok (run_observing _ _), hclose]
  rfl

/-- Any number of names but two is reported where the first one stands. -/
theorem run_checkTargets {targets : List Ident} (hne : targets ≠ []) (hlength : targets.length ≠ 2)
    (pos : Position) (st : State) : run (checkTargets pos targets) st
      = (.ok (), { st with diagnostics := st.diagnostics ++ [.ofSyntaxError
        (.atPosition (Cause.forTargets targets.length).message (targets.headD ⟨"_", pos⟩).pos)] }) := by
  obtain ⟨target, targets, rfl⟩ := List.exists_cons_of_ne_nil hne
  rw [checkTargets, if_pos hlength]
  rfl

end Parts

/-! ## Reading loops -/

section Loops

variable {g : Grammar} {names : List String} {seq : String} {ts : List Token} {w l : Token}

/-- A loop is read up to the end of the text, and the number of its names is reported. -/
def ReadsLoop (g : Grammar) (names : List String) (seq : String) (ts : List Token) : Prop :=
  ∃ pos id opening last, ∃ targets : List Ident, last.kind = .eof ∧ id.name = seq
    ∧ targets.map (·.name) = names ∧ targets ≠ []
    ∧ run (forLoop g) ⟨ts, 0, []⟩ = (.ok (.forIn pos (targets.headD ⟨"_", pos⟩) targets[1]?
        (.ident id) ⟨opening, []⟩),
      ⟨[last], 0, [.ofSyntaxError (.atPosition (Cause.forTargets targets.length).message
        (targets.headD ⟨"_", pos⟩).pos)]⟩)

theorem readsLoop_outside {depth : Nat} (hne : names ≠ []) (hlength : names.length ≠ 2)
    (hw : w.kind = .kwFor) (hl : l.kind = .lparen)
    (hts : ts.map shape = tokensTo names seq emptyBody)
    (hshape : forShape ⟨l :: ts, 0, []⟩ = .outside) :
    ReadsLoop (.ofDepth (depth + 1)) names seq (w :: l :: ts) := by
  obtain ⟨ns, ts, rfl, hns, hts⟩ := List.map_eq_append_iff.1 hts
  simp only [emptyBody, List.map_eq_cons_iff, List.map_eq_nil_iff] at hts
  obtain ⟨r, _, rfl, hr, i, _, rfl, hi, s, _, rfl, hs, o, _, rfl, ho, c, _, rfl, hc, last, _, rfl,
    hlast, rfl⟩ := hts
  have hr : r.kind = .rparen := congrArg Prod.fst hr
  have hi : i.kind = .kwIn := congrArg Prod.fst hi
  have hident : s.kind = .ident := congrArg Prod.fst hs
  have ho : o.kind = .lbrace := congrArg Prod.fst ho
  have hc : c.kind = .rbrace := congrArg Prod.fst hc
  obtain ⟨targets, rfl, hnames⟩ := run_forTargets hne hns hr (i :: s :: o :: c :: [last]) 1 []
  rw [List.length_map] at hlength
  replace hne : targets ≠ [] := by simpa using hne
  refine ⟨w.pos, identOf s, o.pos, last, targets, congrArg Prod.fst hlast, congrArg Prod.snd hs, rfl,
    hne, ?_⟩
  rw [forLoop, run_bind_ok (run_advance_cons (by rw [hw]; rfl) _ 0 []), run_bind_ok (run_get _),
    hshape]
  dsimp only
  rw [run_bind_ok (run_expect _ hl rfl _ 0 []), run_bind_ok (run_nested_ok hnames),
    run_bind_ok (run_checkTargets hne hlength _ _), forSequence, bind_assoc,
    run_bind_ok (run_expect _ hi rfl _ 0 _)]
  refine (run_bind_ok (run_expression_ident _ .lowest hident (by rw [ho]; rfl) (by simp [ho]) _ 0 _)
    _).trans ?_
  rw [finishForIn, run_bind_ok (run_body_empty _ ho hc _ 0 _)]
  rfl

theorem readsLoop_grouped {depth : Nat} {l' : Token} (hne : names ≠ []) (hlength : names.length ≠ 2)
    (hw : w.kind = .kwFor) (hl : l.kind = .lparen) (hl' : l'.kind = .lparen)
    (hts : ts.map shape = tokensTo names seq (mark .rparen :: emptyBody))
    (hshape : forShape ⟨l :: l' :: ts, 0, []⟩ = .grouped) :
    ReadsLoop (.ofDepth (depth + 1)) names seq (w :: l :: l' :: ts) := by
  obtain ⟨ns, ts, rfl, hns, hts⟩ := List.map_eq_append_iff.1 hts
  simp only [emptyBody, List.map_eq_cons_iff, List.map_eq_nil_iff] at hts
  obtain ⟨r, _, rfl, hr, i, _, rfl, hi, s, _, rfl, hs, r', _, rfl, hr', o, _, rfl, ho, c, _, rfl, hc,
    last, _, rfl, hlast, rfl⟩ := hts
  have hr : r.kind = .rparen := congrArg Prod.fst hr
  have hi : i.kind = .kwIn := congrArg Prod.fst hi
  have hident : s.kind = .ident := congrArg Prod.fst hs
  have hr' : r'.kind = .rparen := congrArg Prod.fst hr'
  have ho : o.kind = .lbrace := congrArg Prod.fst ho
  have hc : c.kind = .rbrace := congrArg Prod.fst hc
  obtain ⟨targets, rfl, hnames⟩ :=
    run_forTargets hne hns hr (i :: s :: r' :: o :: c :: [last]) 1 []
  rw [List.length_map] at hlength
  replace hne : targets ≠ [] := by simpa using hne
  refine ⟨w.pos, identOf s, o.pos, last, targets, congrArg Prod.fst hlast, congrArg Prod.snd hs, rfl,
    hne, ?_⟩
  -- the header: names in parentheses, the word and the sequence
  have hheader : run (do
        let _ ← expect .lparen ""
        let targets ← forTargets
        let seq ← forSequence (.ofDepth (depth + 1))
        let _ ← expect .rparen "after for-in header"
        return (targets, seq)) ⟨l' :: (ns ++ r :: i :: s :: r' :: o :: c :: [last]), 1, []⟩
      = (.ok (targets, .ident (identOf s)), ⟨o :: c :: [last], 1, []⟩) := by
    rw [run_bind_ok (run_expect _ hl' rfl _ 1 []), run_bind_ok hnames, forSequence, bind_assoc,
      run_bind_ok (run_expect _ hi rfl _ 1 [])]
    refine (run_bind_ok (run_expression_ident _ .lowest hident (by rw [hr']; rfl) (by simp [hr']) _ 1
      _) _).trans ?_
    rw [run_bind_ok (run_expect _ hr' rfl _ 1 [])]
    rfl
  rw [forLoop, run_bind_ok (run_advance_cons (by rw [hw]; rfl) _ 0 []), run_bind_ok (run_get _),
    hshape]
  dsimp only
  rw [run_bind_ok (run_expect _ hl rfl _ 0 [])]
  refine (run_bind_ok (run_nested_ok hheader) _).trans ?_
  dsimp only
  rw [run_bind_ok (run_checkTargets hne hlength _ _), finishForIn,
    run_bind_ok (run_body_empty _ ho hc _ 0 _)]
  rfl

/-- What is read behind an opening parenthesis as a clause must end in front of a semicolon. -/
theorem run_forLoop_clauses {us vs : List Token} {u v : Token} {init : Stmt} (hw : w.kind = .kwFor)
    (hl : l.kind = .lparen) (hshape : forShape ⟨l :: u :: us, 0, []⟩ = .clauses)
    (hline : u.kind ≠ .newline) (hu : u.kind ≠ .semicolon)
    (hinit : run (simpleStatement g) ⟨u :: us, 1, []⟩ = (.ok init, ⟨v :: vs, 1, []⟩))
    (hline' : v.kind ≠ .newline) (hv : v.kind ≠ .semicolon) :
    run (forLoop g) ⟨w :: l :: u :: us, 0, []⟩
      = (.error (.atToken (Cause.expected .semicolon "after for init" v).message v),
        ⟨v :: vs, 0, []⟩) := by
  have hat := At.cons hline us 1 []
  have hat' := At.cons hline' vs 1 []
  have hstarts : run (atKind .semicolon) ⟨u :: us, 1, []⟩ = (.ok false, ⟨u :: us, 1, []⟩) := by
    rw [run_atKind, hat.settled, hat.current, decide_eq_false hu]
  have hends : run (atKind .semicolon) ⟨v :: vs, 1, []⟩ = (.ok false, ⟨v :: vs, 1, []⟩) := by
    rw [run_atKind, hat'.settled, hat'.current, decide_eq_false hv]
  have hexpect : run (expect .semicolon "after for init") ⟨v :: vs, 1, []⟩
      = (.error (.atToken (Cause.expected .semicolon "after for init" v).message v),
        ⟨v :: vs, 1, []⟩) := by
    rw [expect, run_bind_ok hends, if_neg (by simp), run_bind_ok (run_current _), hat'.settled,
      hat'.current, run_fail]
  have hinit' : run (some <$> simpleStatement g) ⟨u :: us, 1, []⟩
      = (.ok (some init), ⟨v :: vs, 1, []⟩) := by
    rw [run_map, hinit]
    rfl
  rw [forLoop, run_bind_ok (run_advance_cons (by rw [hw]; rfl) _ 0 []), run_bind_ok (run_get _),
    hshape]
  dsimp only
  rw [clauses, run_bind_ok (run_expect _ hl rfl _ 0 [])]
  refine run_bind_error ?_ _
  rw [run_nested, run_bind_ok hstarts, if_neg (by simp), run_bind_ok hinit', run_bind_error hexpect]
  rfl

/-- A round of a list of statements that reads a loop, or fails over it. -/
theorem run_listedStatement_for (depth : Nat) (hw : w.kind = .kwFor) (ts : List Token) :
    match run (forLoop (.ofDepth depth)) ⟨w :: ts, 0, []⟩ with
    | (.ok stmt, st) => run (listedStatement (.ofDepth (depth + 1)) .eof) ⟨w :: ts, 0, []⟩
        = (.ok (some (some stmt)), st)
    | (.error e, st) => st.diagnostics ++ [.ofSyntaxError e]
        <+: (run (listedStatement (.ofDepth (depth + 1)) .eof) ⟨w :: ts, 0, []⟩).2.diagnostics := by
  have hat := At.cons (t := w) (by simp [hw]) ts 0 []
  have hskip : State.dropSeparators ⟨w :: ts, 0, []⟩ = ⟨w :: ts, 0, []⟩ := by
    have hseparator : w.kind.isSeparator = false := by rw [hw]; rfl
    simp [State.dropSeparators, hseparator]
  have hkind : run (atKind .eof) ⟨w :: ts, 0, []⟩ = (.ok false, ⟨w :: ts, 0, []⟩) := by
    rw [run_atKind, hat.settled, hat.current, hw]
    rfl
  have hstatement : run (Grammar.ofDepth (depth + 1)).statement ⟨w :: ts, 0, []⟩
      = run (forLoop (.ofDepth depth)) ⟨w :: ts, 0, []⟩ := by
    change run (statement (.ofDepth depth)) _ = _
    rw [statement, run_bind, run_currentKind, hat.settled, hat.current]
    simp only [hw]
  rw [listedStatement, run_bind_ok (run_skipSeparators _), hskip, run_bind_ok hkind,
    if_neg (by simp), run_bind_ok hkind, if_neg (by simp), run_bind_ok (run_get _),
    run_bind_ok (run_observing _ _), hstatement]
  rcases run (forLoop (.ofDepth depth)) ⟨w :: ts, 0, []⟩ with ⟨e | stmt, st⟩
  · dsimp only
    rw [run_bind_ok (run_record _ _)]
    -- what follows moves on, which keeps all reports
    obtain ⟨_, hused⟩ := moving_recovery .eof (w :: ts).length
      { st with diagnostics := st.diagnostics ++ [.ofSyntaxError e] }
    exact hused.diagnostics
  · rfl

/-- The first statement of a program is read with as many levels as there are tokens behind its first
    one. -/
theorem run_parseProgram_cons (w : Token) (ts : List Token) : ∃ depth, (w :: ts).length ≤ depth + 1
    ∧ run parseProgram ⟨w :: ts, 0, []⟩
      = run (parseWithin (depth + 1) (w :: ts).length) ⟨w :: ts, 0, []⟩ := by
  have hlength := length_le_weightOf (w :: ts)
  have hpos : 0 < (w :: ts).length := by simp
  refine ⟨weightOf (w :: ts) - 1, by omega, ?_⟩
  rw [run_parseProgram, Nat.sub_add_cancel (by omega)]
  rfl

theorem reportsNames_of_readsLoop {text : String} (hw : w.kind = .kwFor)
    (htokens : Token.tokenize text = w :: ts)
    (h : ∀ depth, (w :: ts).length ≤ depth + 1 → ReadsLoop (.ofDepth depth) names seq (w :: ts)) :
    ReportsNames (Program.parse text) names seq := by
  obtain ⟨st, hrun, hdiagnostics⟩ := Program.run_parse text
  obtain ⟨depth, hdepth, hprogram⟩ := run_parseProgram_cons w ts
  obtain ⟨pos, id, opening, last, targets, hlast, hid, htargets, hne, hloop⟩ := h depth hdepth
  have hround := run_listedStatement_for depth hw ts
  rw [hloop] at hround
  dsimp only at hround
  -- behind the loop stands only the end of the text
  have hend (limit : Nat) (ds : List Diagnostic) :
      run (collect (listedStatement (.ofDepth (depth + 1)) .eof) limit) ⟨[last], 0, ds⟩
        = (.ok [], ⟨[last], 0, ds⟩) := by
    cases limit with
    | zero => rfl
    | succ limit =>
      have hskip : State.dropSeparators ⟨[last], 0, ds⟩ = ⟨[last], 0, ds⟩ := by
        have hseparator : last.kind.isSeparator = false := by rw [hlast]; rfl
        simp [State.dropSeparators, hseparator]
      have hstops : run (listedStatement (.ofDepth (depth + 1)) .eof) ⟨[last], 0, ds⟩
          = (.ok none, State.dropSeparators ⟨[last], 0, ds⟩) :=
        run_listedStatement_end rfl (by rw [hskip]; exact hlast)
      rw [collect, run_bind_ok hstops, hskip]
      rfl
  rw [htokens, hprogram, parseWithin, List.length_cons, collect, bind_assoc, run_bind_ok hround] at hrun
  dsimp only at hrun
  rw [bind_assoc, run_bind_ok (hend _ _)] at hrun
  obtain ⟨hstmts, rfl⟩ := Prod.mk.inj hrun
  refine ⟨pos, targets.headD ⟨"_", pos⟩, targets[1]?, id, opening, ?_, ?_, ?_, hid, ?_⟩
  · rw [← Except.ok.inj hstmts]
    rfl
  · obtain ⟨target, targets, rfl⟩ := List.exists_cons_of_ne_nil hne
    rw [← htargets]
    rfl
  · rw [← htargets, List.getElem?_map]
  · have hcount : names.length = targets.length := by rw [← htargets, List.length_map]
    rw [hcount, ← hdiagnostics]

theorem message_expected_ne (kind : Token.Kind) (context : String) (found : Token) (count : Nat) :
    (Cause.expected kind context found).message ≠ (Cause.forTargets count).message := by
  have hexpected : (Cause.expected kind context found).message
      = "expected " ++ kind.describe ++ (if context.isEmpty then "" else " " ++ context)
        ++ ", found " ++ describe found := rfl
  have hcount : (Cause.forTargets count).message
      = "for-in destructuring expects exactly two targets, found " ++ toString count := rfl
  rw [hexpected, hcount]
  intro h
  have hhead := congrArg (·.toList.head?) h
  simp [String.toList_append] at hhead

/-- What a loop fails over is reported. -/
theorem not_reportsNames_of_fails {text : String} (hw : w.kind = .kwFor)
    (htokens : Token.tokenize text = w :: ts)
    (h : ∀ depth, (w :: ts).length ≤ depth + 1 → ∃ found st,
      run (forLoop (.ofDepth depth)) ⟨w :: ts, 0, []⟩
        = (.error (.atToken (Cause.expected .semicolon "after for init" found).message found), st)) :
    ¬ReportsNames (Program.parse text) names seq := by
  rintro ⟨pos, key, value, id, opening, -, -, -, -, honly⟩
  obtain ⟨st, hrun, hdiagnostics⟩ := Program.run_parse text
  obtain ⟨depth, hdepth, hprogram⟩ := run_parseProgram_cons w ts
  obtain ⟨found, st', hloop⟩ := h depth hdepth
  have hround := run_listedStatement_for depth hw ts
  rw [hloop] at hround
  dsimp only at hround
  have hall : (run (listedStatement (.ofDepth (depth + 1)) .eof) ⟨w :: ts, 0, []⟩).2.diagnostics
      <+: st.diagnostics := by
    rw [htokens, hprogram] at hrun
    obtain ⟨all, st₁, hall, hrun⟩ := run_bind_eq_ok hrun
    obtain ⟨-, rfl⟩ := Prod.mk.inj hrun
    rw [List.length_cons, collect] at hall
    obtain ⟨first, st₂, hfirst, hall⟩ := run_bind_eq_ok hall
    rw [hfirst]
    cases first with
    | none =>
      cases hall
      exact List.prefix_rfl
    | some first =>
      obtain ⟨others, st₃, hothers, hall⟩ := run_bind_eq_ok hall
      cases hall
      obtain ⟨used, hmoves⟩ := moving_collect (Grammar.sound_ofDepth _) _ st₂
      rw [hothers] at hmoves
      exact hmoves.diagnostics
  have hmem := hall.subset (hround.subset (List.mem_append_right _ (List.mem_singleton_self _)))
  rw [hdiagnostics, honly, List.mem_singleton] at hmem
  exact message_expected_ne _ _ _ _ (congrArg Diagnostic.message hmem)

/-- A list of names that is too long to be seen is read up to its first comma. -/
theorem fails_outside (g : Grammar) (hlength : 1 < names.length) (hw : w.kind = .kwFor)
    (hl : l.kind = .lparen) (hts : ts.map shape = tokensTo names seq emptyBody)
    (hshape : forShape ⟨l :: ts, 0, []⟩ = .clauses) : ∃ found st, run (forLoop g) ⟨w :: l :: ts, 0, []⟩
      = (.error (.atToken (Cause.expected .semicolon "after for init" found).message found), st) := by
  obtain ⟨name, name', names, rfl⟩ : ∃ name name' names', names = name :: name' :: names' := by
    match names, hlength with
    | name :: name' :: names, _ => exact ⟨name, name', names, rfl⟩
  simp only [tokensTo, ForHeader.nameTokens_cons, further, List.map_cons, List.flatMap_cons,
    List.cons_append] at hts
  obtain ⟨u, _, rfl, hu, hts⟩ := List.map_eq_cons_iff.1 hts
  obtain ⟨v, vs, rfl, hv, -⟩ := List.map_eq_cons_iff.1 hts
  have hu : u.kind = .ident := congrArg Prod.fst hu
  have hv : v.kind = .comma := congrArg Prod.fst hv
  have hinit : run (simpleStatement g) ⟨u :: v :: vs, 1, []⟩
      = (.ok (.expr u.pos (.ident (identOf u))), ⟨v :: vs, 1, []⟩) := by
    have hat := At.cons (t := u) (by simp [hu]) (v :: vs) 1 []
    rw [simpleStatement, run_bind, run_current, hat.settled, hat.current]
    exact run_bind_ok (run_expression_ident g .lowest hu (by rw [hv]; rfl) (by simp [hv]) vs 1 []) _
  exact ⟨v, _, run_forLoop_clauses hw hl hshape (by simp [hu]) (by simp [hu]) hinit (by simp [hv])
    (by simp [hv])⟩

/-- A list of names in parentheses that is too long to be seen is read as a tuple. -/
theorem fails_grouped {depth : Nat} {l' : Token} (hlength : 1 < names.length)
    (hw : w.kind = .kwFor) (hl : l.kind = .lparen) (hl' : shape l' = mark .lparen)
    (hts : ts.map shape = tokensTo names seq (mark .rparen :: emptyBody))
    (hshape : forShape ⟨l :: l' :: ts, 0, []⟩ = .clauses) :
    ∃ found st, run (forLoop (.ofDepth (depth + 1))) ⟨w :: l :: l' :: ts, 0, []⟩
      = (.error (.atToken (Cause.expected .semicolon "after for init" found).message found), st) := by
  obtain ⟨ns, ts, rfl, hns, hts⟩ := List.map_eq_append_iff.1 hts
  obtain ⟨r, _, rfl, hr, hts⟩ := List.map_eq_cons_iff.1 hts
  obtain ⟨v, vs, rfl, hv, -⟩ := List.map_eq_cons_iff.1 hts
  have hv : v.kind = .kwIn := congrArg Prod.fst hv
  let items : List Expr := names.map fun name => .ident ⟨name, .start⟩
  have hread : ∀ e ∈ items, IsRead (.ofDepth (depth + 1)) e := by
    refine List.forall_mem_map.2 fun name _ => ?_
    exact (isLed_ident _ _).isRead
  -- the names in their parentheses are the tokens of a tuple
  have htuple : (l' :: (ns ++ [r])).map shape
      = mark .lparen :: (Token.tupleTokens (items.map Expr.tokens) ++ [mark .rparen]) := by
    have hitems : items.map Expr.tokens = names.map fun name => [(.ident, name)] := by
      rw [List.map_map]
      exact List.map_congr_left fun name _ => by rw [Function.comp_apply, Expr.tokens]
    have hcommas : Token.tupleTokens (names.map fun name => [(.ident, name)])
        = nameTokens names := by
      rcases names with _ | ⟨name, _ | ⟨name', names⟩⟩
      · cases hlength
      · simp at hlength
      · rfl
    rw [hitems, hcommas, List.map_cons, List.map_append, hns, hl', List.map_singleton, hr]
  have htaken : Takes Expr.unplaced (expression (.ofDepth (depth + 1)) .lowest) (l' :: (ns ++ [r]))
      (v :: vs) (.tuple .start (items.map Expr.reread)) :=
    (Leads.of_operand (takes_tuple hread htuple)).takes (by rw [hv]; rfl)
  obtain ⟨e, -, hrun⟩ := htaken 1 []
  have hl' : l'.kind = .lparen := congrArg Prod.fst hl'
  have hinit : run (simpleStatement (.ofDepth (depth + 1))) ⟨l' :: (ns ++ r :: v :: vs), 1, []⟩
      = (.ok (toStmt l'.pos e), ⟨v :: vs, 1, []⟩) := by
    have hat := At.cons (t := l') (by simp [hl']) (ns ++ r :: v :: vs) 1 []
    rw [simpleStatement, run_bind, run_current, hat.settled, hat.current]
    rw [List.cons_append, List.append_assoc] at hrun
    exact run_bind_ok hrun _
  exact ⟨v, _, run_forLoop_clauses hw hl hshape (by simp [hl']) (by simp [hl']) hinit (by simp [hv])
    (by simp [hv])⟩

end Loops

end Parser

open ForHeader

namespace ForHeader

variable {names : List String} {seq : String}

/-- Names in front of the word `in` are counted if there are at most thirty-one of them. -/
theorem reportsNames_outside_iff (hne : names ≠ []) (hlength : names.length ≠ 2)
    (hnames : ∀ name ∈ names, IsName name) (hseq : IsName seq) :
    ReportsNames (Program.parse (outside names seq)) names seq ↔ names.length ≤ 31 := by
  have htokens := (Token.map_shape_tokensFrom .start _).trans (lex_outside hnames hseq)
  obtain ⟨w, _, htext, hw, htokens⟩ := List.map_eq_cons_iff.1 htokens
  obtain ⟨l, ts, rfl, hl, hts⟩ := List.map_eq_cons_iff.1 htokens
  have hw : w.kind = .kwFor := congrArg Prod.fst hw
  have hline : ∀ s ∈ emptyBody, s.1 ≠ .newline := by decide
  have hshape : Parser.forShape ⟨l :: ts, 0, []⟩ = if names.length ≤ 31 then .outside else .clauses :=
    Parser.forShape_outside hne (by rw [List.map_cons, hl, hts]) hline
  have hl : l.kind = .lparen := congrArg Prod.fst hl
  constructor
  · intro hreports
    by_contra hlong
    rw [if_neg hlong] at hshape
    exact Parser.not_reportsNames_of_fails hw htext
      (fun depth _ => Parser.fails_outside _ (by omega) hw hl hts hshape) hreports
  · intro hshort
    rw [if_pos hshort] at hshape
    refine Parser.reportsNames_of_readsLoop hw htext fun depth hdepth => ?_
    rw [List.length_cons, List.length_cons] at hdepth
    obtain ⟨depth, rfl⟩ : ∃ d, depth = d + 1 := ⟨depth - 1, by omega⟩
    exact Parser.readsLoop_outside hne hlength hw hl hts hshape

/-- Names inside of the header's parentheses are counted if there are at most thirty of them. -/
theorem reportsNames_grouped_iff (hne : names ≠ []) (hlength : names.length ≠ 2)
    (hnames : ∀ name ∈ names, IsName name) (hseq : IsName seq) :
    ReportsNames (Program.parse (grouped names seq)) names seq ↔ names.length ≤ 30 := by
  have htokens := (Token.map_shape_tokensFrom .start _).trans (lex_grouped hnames hseq)
  obtain ⟨w, _, htext, hw, htokens⟩ := List.map_eq_cons_iff.1 htokens
  obtain ⟨l, _, rfl, hl, htokens⟩ := List.map_eq_cons_iff.1 htokens
  obtain ⟨l', ts, rfl, hl', hts⟩ := List.map_eq_cons_iff.1 htokens
  have hw : w.kind = .kwFor := congrArg Prod.fst hw
  have hline : ∀ s ∈ mark .rparen :: emptyBody, s.1 ≠ .newline := by decide
  have hshape : Parser.forShape ⟨l :: l' :: ts, 0, []⟩
      = if names.length ≤ 30 then .grouped else .clauses :=
    Parser.forShape_grouped hne (by rw [List.map_cons, List.map_cons, hl, hl', hts]) hline
  have hl : l.kind = .lparen := congrArg Prod.fst hl
  constructor
  · intro hreports
    by_contra hlong
    rw [if_neg hlong] at hshape
    refine Parser.not_reportsNames_of_fails hw htext (fun depth hdepth => ?_) hreports
    rw [List.length_cons, List.length_cons, List.length_cons] at hdepth
    obtain ⟨depth, rfl⟩ : ∃ d, depth = d + 1 := ⟨depth - 1, by omega⟩
    exact Parser.fails_grouped (by omega) hw hl hl' hts hshape
  · intro hshort
    rw [if_pos hshort] at hshape
    have hl' : l'.kind = .lparen := congrArg Prod.fst hl'
    refine Parser.reportsNames_of_readsLoop hw htext fun depth hdepth => ?_
    rw [List.length_cons, List.length_cons] at hdepth
    obtain ⟨depth, rfl⟩ : ∃ d, depth = d + 1 := ⟨depth - 1, by omega⟩
    exact Parser.readsLoop_grouped hne hlength hw hl hl' hts hshape

/-- A loop with any number of names but two is kept, and the number of its names is all that is
    reported, as long as the names are no more than the tokens that decide the form of a header can
    hold. -/
theorem reportsNames_iff (hne : names ≠ []) (hlength : names.length ≠ 2)
    (hnames : ∀ name ∈ names, IsName name) (hseq : IsName seq) :
    (ReportsNames (Program.parse (outside names seq)) names seq ↔ names.length ≤ 31)
      ∧ (ReportsNames (Program.parse (grouped names seq)) names seq ↔ names.length ≤ 30) :=
  ⟨reportsNames_outside_iff hne hlength hnames hseq, reportsNames_grouped_iff hne hlength hnames hseq⟩

theorem isName_letter {name : String} (h : name ∈ ["a", "b", "c", "d", "e", "x"]) : IsName name := by
  fin_cases h <;> exact ⟨⟨⟨_, rfl, rfl⟩, List.all_eq_true.1 rfl⟩, by decide⟩

/-- `for (a, b, c) in d` and `for ((a, b, c) in d)`. -/
theorem reportsNames_three :
    ReportsNames (Program.parse "for (a, b, c) in d \x7b\x7d") ["a", "b", "c"] "d"
      ∧ ReportsNames (Program.parse "for ((a, b, c) in d) \x7b\x7d") ["a", "b", "c"] "d" := by
  have hnames : ∀ name ∈ ["a", "b", "c"], IsName name := fun name hname =>
    isName_letter (by simp at hname ⊢; tauto)
  have hseq : IsName "d" := isName_letter (by simp)
  obtain ⟨houtside, hgrouped⟩ := reportsNames_iff (by simp) (by simp) hnames hseq
  exact ⟨houtside.2 (by simp), hgrouped.2 (by simp)⟩

/-- Thirty-two names in front of the word `in` are too many: the loop is not read as one over a
    sequence. -/
theorem not_reportsNames_many : (∀ name ∈ List.replicate 32 "x", IsName name) ∧ IsName "e"
    ∧ ¬ReportsNames (Program.parse (outside (List.replicate 32 "x") "e")) (List.replicate 32 "x") "e" := by
  have hnames : ∀ name ∈ List.replicate 32 "x", IsName name := fun name hname =>
    isName_letter (by rw [List.eq_of_mem_replicate hname]; simp)
  have hseq : IsName "e" := isName_letter (by simp)
  refine ⟨hnames, hseq, fun hreports => ?_⟩
  have hshort := (reportsNames_outside_iff (by simp) (by simp) hnames hseq).1 hreports
  simp at hshort

end ForHeader

end Welle
