import Welle.Proofs.Printing.Interpolations

set_option autoImplicit false

/-! # Printed blocks are read back

`IsStated` says that a parser reads the tokens of a statement, in front of a token at which the
statement can end, as what its text stands for. Given that for the statements of a block, the block is
read back, and so is what has a block in it: functions, and the conditions and bodies of loops. -/

namespace Welle

open Token (Shape mark shape commas blockTokens nameToken paramTokens)

namespace Token

/-- The tokens that a printed statement can start with. -/
def Kind.isStatementStart : Kind → Bool
  | .lbrace | .kwReturn | .kwBreak | .kwContinue | .kwPass | .kwIf | .kwWhile | .kwFor | .kwSwitch
  | .kwTry | .kwThrow | .kwDefer | .kwImport | .kwFrom | .kwExport => true
  | kind => kind.isOperandStart

theorem Kind.isStatementStart_of_operand {kind : Kind} (h : kind.isOperandStart = true) :
    kind.isStatementStart = true := by
  cases kind <;> first
    | rfl
    | cases h

end Token

/-- Whether a statement can end in front of a token of this kind. An `else` would belong to a
    statement that ends in an open `if`. -/
def Stmt.endsAt (s : Stmt) : Token.Kind → Bool
  | .semicolon | .rbrace | .eof => true
  | .kwElse => !s.endsOpen
  | _ => false

theorem Stmt.endsAt_cases {s : Stmt} {kind : Token.Kind} (h : s.endsAt kind = true) :
    kind = .semicolon ∨ kind = .rbrace ∨ kind = .eof ∨ kind = .kwElse := by
  cases kind <;> first
    | exact absurd h Bool.false_ne_true
    | simp

theorem Block.exists_tokens (body : Block) : ∃ tail, body.tokens = mark .lbrace :: tail := by
  rw [Block.tokens_eq]
  cases body.stmts with
  | nil => exact ⟨_, rfl⟩
  | cons s stmts => exact ⟨_, rfl⟩

namespace Parser

variable {g : Grammar} {ts us rest : List Token} {l r t next : Token} {e : Expr} {s : Stmt}

/-- A parser reads the tokens of a statement as what its text stands for. -/
structure IsStated (p : Parse Stmt) (s : Stmt) : Prop where
  starts : ∃ head tail, s.tokens = head :: tail ∧ head.1.isStatementStart = true
  takes : ∀ {ts rest : List Token} {next : Token}, ts.map shape = s.tokens →
    s.endsAt next.kind = true → Takes Stmt.unplaced p ts (next :: rest) s.reread

theorem IsStated.isStatementStart {p : Parse Stmt} (h : IsStated p s)
    (hts : ts.map shape = s.tokens) (us : List Token) :
    (headKind (ts ++ us)).isStatementStart = true := by
  obtain ⟨head, tail, htokens, hstart⟩ := h.starts
  rwa [headKind_of_map (hts.trans htokens)]

/-- Tokens that no statement starts with. -/
theorem IsStated.headKind_ne {p : Parse Stmt} (h : IsStated p s) (hts : ts.map shape = s.tokens)
    (us : List Token) {kind : Token.Kind} (hkind : kind.isStatementStart = false) :
    headKind (ts ++ us) ≠ kind := by
  intro heq
  rw [← heq, h.isStatementStart hts] at hkind
  cases hkind

theorem takes_expectIdent {id : Ident} {context : String} (ht : shape t = nameToken id) :
    Takes Ident.unplaced (expectIdent context) [t] rest id := by
  have hkind : t.kind = .ident := congrArg Prod.fst ht
  have hliteral : t.literal = id.name := congrArg Prod.snd ht
  rw [← bind_pure (expectIdent context)]
  refine .expectIdent_bind hkind (.pure ?_)
  simp only [Ident.unplaced, hliteral]

/-! ## Statements in a list -/

/-- A statement behind separators, in front of another one or of the end of the list. -/
theorem takes_listedStatement {pre : List Token} {stop : Token.Kind}
    (hpre : ∀ t ∈ pre, t.kind.isSeparator = true) (hstop : stop.isStatementStart = false)
    (hs : IsStated g.statement s) (hts : ts.map shape = s.tokens)
    (hnext : s.endsAt next.kind = true) :
    Takes (Option.map (Option.map Stmt.unplaced)) (listedStatement g stop) (pre ++ ts)
      (next :: rest) (some (some s.reread)) := by
  have hstart := hs.isStatementStart hts (next :: rest)
  have hseparator : (headKind (ts ++ next :: rest)).isSeparator = false := by
    generalize headKind (ts ++ next :: rest) = kind at hstart
    cases kind <;> first
      | rfl
      | cases hstart
  unfold listedStatement
  refine .skipSeparators_bind_append hpre hseparator ?_
  refine .atKind_bind (hs.headKind_ne hts _ rfl) ?_
  simp only [hs.headKind_ne hts _ hstop, decide_false, Bool.false_eq_true, if_false]
  have heof : headKind (ts ++ next :: rest) ≠ .eof := hs.headKind_ne hts _ rfl
  refine .atKind_bind (hs.headKind_ne hts _ rfl) ?_
  simp only [heof, decide_false, Bool.false_eq_true, if_false]
  intro n ds
  obtain ⟨s', hs', hrun⟩ := hs.takes hts hnext n ds
  refine ⟨some (some s'), by simp [hs'], ?_⟩
  rw [run_bind, run_get]
  simp only []
  rw [run_bind, run_observing, hrun]
  rfl

/-- A list ends in front of the token that closes it. -/
theorem takes_listedStatement_none {stop : Token.Kind} (hr : r.kind = stop)
    (hstop : stop.isSeparator = false) :
    Takes (Option.map (Option.map Stmt.unplaced)) (listedStatement g stop) [] (r :: rest) none := by
  have hline : r.kind ≠ .newline := by
    intro h
    rw [← hr, h] at hstop
    cases hstop
  unfold listedStatement
  refine .skipSeparators_bind (by rwa [List.nil_append, headKind_cons, hr]) ?_
  refine .atKind_bind (by simpa using hline) ?_
  simp only [List.nil_append, headKind_cons, hr, decide_true, if_true]
  exact .pure rfl

/-- A statement can end in front of further statements and of the brace behind them. -/
theorem head_statements {stmts : List Stmt}
    (hus : us.map shape = (stmts.map Stmt.tokens).flatMap (mark .semicolon :: ·))
    (hr : r.kind = .rbrace) (rest : List Token) :
    ∃ next behind, us ++ r :: rest = next :: behind ∧ ∀ s : Stmt, s.endsAt next.kind = true := by
  cases stmts with
  | nil =>
    obtain rfl := List.map_eq_nil_iff.1 hus
    exact ⟨r, rest, rfl, fun s => by rw [hr]; rfl⟩
  | cons s stmts =>
    obtain ⟨t, tail, rfl, ht, -⟩ := List.map_eq_cons_iff.1 hus
    have ht : t.kind = .semicolon := congrArg Prod.fst ht
    exact ⟨t, tail ++ r :: rest, rfl, fun s => by rw [ht]; rfl⟩

/-- Statements with semicolons between them. -/
theorem rounds_statements {stmts : List Stmt} (hstmts : ∀ s ∈ stmts, IsStated g.statement s)
    (hr : r.kind = .rbrace)
    (hts : ts.map shape = (stmts.map Stmt.tokens).flatMap (mark .semicolon :: ·)) :
    Rounds (Option.map Stmt.unplaced) (listedStatement g .rbrace) (r :: rest) ts
      (stmts.map fun s => some s.reread) := by
  induction stmts generalizing ts with
  | nil =>
    obtain rfl := List.map_eq_nil_iff.1 hts
    exact .stop (by simp) (takes_listedStatement_none hr rfl)
  | cons s stmts ih =>
    rw [List.forall_mem_cons] at hstmts
    obtain ⟨semicolon, tail, rfl, hmark, htail⟩ := List.map_eq_cons_iff.1 hts
    obtain ⟨ts, us, rfl, hts, hus⟩ := List.map_eq_append_iff.1 htail
    have hsemicolon : semicolon.kind = .semicolon := congrArg Prod.fst hmark
    obtain ⟨next, behind, hnext, hends⟩ := head_statements hus hr rest
    have hseparator : ∀ t ∈ [semicolon], t.kind.isSeparator = true :=
      List.forall_mem_singleton.2 (by rw [hsemicolon]; rfl)
    rw [← List.cons_append]
    refine .go (by simp) ?_ (ih hstmts.2 hus)
    rw [hnext, ← List.singleton_append]
    exact takes_listedStatement hseparator rfl hstmts.1 hts (hends s)

theorem takes_block {body : Block} (hstmts : ∀ s ∈ body.stmts, IsStated g.statement s)
    (htokens : ts.map shape = body.tokens) :
    Takes Block.unplaced (block g) ts rest body.reread := by
  obtain ⟨pos, stmts⟩ := body
  rw [Block.tokens_eq] at htokens
  -- between the braces stand the statements, each of them one round
  obtain ⟨l, ts, r, rfl, hl, hr, hrounds⟩ : ∃ l ts' r, ts = l :: (ts' ++ [r]) ∧ l.kind = .lbrace
      ∧ r.kind = .rbrace ∧ ∀ rest, Rounds (Option.map Stmt.unplaced) (listedStatement g .rbrace)
        (r :: rest) ts' (stmts.map fun s => some s.reread) := by
    cases stmts with
    | nil =>
      obtain ⟨l, us, rfl, hl, hus⟩ := List.map_eq_cons_iff.1 htokens
      obtain ⟨r, rfl, hr⟩ := List.map_eq_singleton_iff.1 hus
      have hr : r.kind = .rbrace := congrArg Prod.fst hr
      exact ⟨l, [], r, rfl, congrArg Prod.fst hl, hr, fun rest => rounds_statements hstmts hr rfl⟩
    | cons s stmts =>
      obtain ⟨l, us, rfl, hl, hbody⟩ := List.map_eq_cons_iff.1 htokens
      obtain ⟨ts, us, rfl, hts, hbehind⟩ := List.map_eq_append_iff.1 hbody
      obtain ⟨us, rs, rfl, hus, hclose⟩ := List.map_eq_append_iff.1 hbehind
      obtain ⟨r, rfl, hr⟩ := List.map_eq_singleton_iff.1 hclose
      have hr : r.kind = .rbrace := congrArg Prod.fst hr
      refine ⟨l, ts ++ us, r, by simp, congrArg Prod.fst hl, hr, fun rest => ?_⟩
      obtain ⟨hs, hstmts⟩ := List.forall_mem_cons.1 hstmts
      obtain ⟨next, behind, hnext, hends⟩ := head_statements hus hr rest
      have hne : ts ≠ [] := by
        obtain ⟨head, tail, hhead, -⟩ := hs.starts
        rintro rfl
        cases hts.trans hhead
      refine .go hne ?_ (rounds_statements hstmts hr hus)
      rw [hnext, ← List.nil_append ts]
      exact takes_listedStatement (List.forall_mem_nil _) rfl hs hts (hends s)
  unfold block
  refine .expect_bind hl rfl ?_
  refine .asStatements ?_
  unfold statementsUntil
  rw [bind_assoc]
  refine .bind (hrounds ([] ++ rest)).many fun found hfound => ?_
  rw [pure_bind]
  have hexpect : Takes (fun _ : Token => ()) (expect .rbrace "to close block") [r] ([] ++ rest) r := by
    intro n ds
    exact ⟨r, rfl, run_expect _ hr rfl _ n ds⟩
  rw [← List.append_nil [r]]
  refine .observing_bind hexpect fun _ _ => ?_
  refine .pure ?_
  have hstmts : (found.filterMap id).map Stmt.unplaced = (stmts.map Stmt.reread).map Stmt.unplaced := by
    have hmap (found : List (Option Stmt)) : (found.filterMap id).map Stmt.unplaced
        = (found.map (Option.map Stmt.unplaced)).filterMap id := by
      rw [List.map_filterMap, List.filterMap_map]
      rfl
    rw [hmap, hfound, ← hmap, List.filterMap_map]
    exact congrArg _ (congrFun List.filterMap_eq_map stmts)
  simp only [Block.unplaced, Block.reread, Stmt.listUnplaced_eq, Stmt.listReread_eq, hstmts]

/-- A block that stands on the same line. -/
theorem takes_body {body : Block} (hstmts : ∀ s ∈ body.stmts, IsStated g.statement s)
    (htokens : ts.map shape = body.tokens) :
    Takes Block.unplaced (Parser.body g) ts rest body.reread := by
  have hblock : Takes Block.unplaced (block g) ts rest body.reread := takes_block hstmts htokens
  have hhead : headKind (ts ++ rest) ≠ .newline := by
    obtain ⟨tail, htail⟩ := body.exists_tokens
    rw [headKind_of_map (htokens.trans htail)]
    decide
  unfold Parser.body
  refine .get_bind fun n ds => ?_
  split
  · exact Takes.skipNewlines_bind hhead hblock n ds
  · exact hblock n ds

/-! ## Functions -/

theorem takes_params {params : List Ident} (htokens : ts.map shape = paramTokens params) :
    Takes (List.map Ident.unplaced) Parser.params ts rest params := by
  obtain ⟨l, us, rfl, hl, hbody⟩ := List.map_eq_cons_iff.1 htokens
  obtain ⟨ts, us, rfl, hts, hclose⟩ := List.map_eq_append_iff.1 hbody
  obtain ⟨r, rfl, hr⟩ := List.map_eq_singleton_iff.1 hclose
  have hl : l.kind = .lparen := congrArg Prod.fst hl
  have hr : r.kind = .rparen := congrArg Prod.fst hr
  have hitem (id : Ident) : IsItem Ident.unplaced (expectIdent "in parameter list") .rparen
      [nameToken id] id := by
    refine ⟨⟨_, _, rfl, Token.Kind.noConfusion, Token.Kind.noConfusion⟩, fun hts _ => ?_⟩
    obtain ⟨t, rfl, ht⟩ := List.map_eq_singleton_iff.1 hts
    exact takes_expectIdent ht
  have hnames : Takes (List.map Ident.unplaced)
      (itemsUntil .rparen (expectIdent "in parameter list")) ts ([r] ++ rest) (params.map id) :=
    takes_itemsUntil hr rfl (by decide) (fun id _ => hitem id) hts
  rw [List.map_id] at hnames
  unfold Parser.params
  refine .expect_bind hl rfl ?_
  refine .nested ?_
  refine .bind hnames fun names hnames => ?_
  exact .expect_bind hr rfl (.pure hnames)

theorem takes_funcLiteral {pos : Position} {params : List Ident} {body : Block}
    (hstmts : ∀ s ∈ body.stmts, IsStated g.statement s)
    (htokens : ts.map shape = mark .kwFunc :: (paramTokens params ++ body.tokens)) :
    Takes Expr.unplaced (operand g) ts rest (.func pos params body.reread) := by
  obtain ⟨word, us, rfl, hword, hbody⟩ := List.map_eq_cons_iff.1 htokens
  obtain ⟨ts, us, rfl, hts, hus⟩ := List.map_eq_append_iff.1 hbody
  have hword : word.kind = .kwFunc := congrArg Prod.fst hword
  unfold operand
  refine .current_bind (by rw [hword]; decide) ?_
  simp only [hword]
  unfold funcLiteral
  refine .advance_bind (by rw [hword]; rfl) ?_
  refine .bind (takes_params hts) fun names hnames => ?_
  refine .bind_last (takes_block hstmts hus) fun body' hbody' => ?_
  exact .pure (by simp only [Expr.unplaced, hnames, hbody'])

end Parser

end Welle
