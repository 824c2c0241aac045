import Welle.Proofs.Printing.Branches

set_option autoImplicit false

/-! # Printed declarations, jumps and selections are read back

The statements that the word at their start tells, given that the expressions and statements in them
are read back. -/

namespace Welle.Parser

open Token (Shape mark shape commas nameToken asTokens caughtTokens paramTokens)

variable {g : Grammar} {ts us rest : List Token} {r t next : Token} {e : Expr} {s : Stmt}

/-! ## Jumps -/

theorem isStated_brk {pos : Position} : IsStated (statement g) (.brk pos) := by
  refine isStated_of_word rfl rfl fun {word next ts rest} hword hts _ => ?_
  obtain rfl := List.map_eq_nil_iff.1 hts
  exact .advance_bind (by rw [hword]; rfl) (.pure rfl)

theorem isStated_cont {pos : Position} : IsStated (statement g) (.cont pos) := by
  refine isStated_of_word rfl rfl fun {word next ts rest} hword hts _ => ?_
  obtain rfl := List.map_eq_nil_iff.1 hts
  exact .advance_bind (by rw [hword]; rfl) (.pure rfl)

theorem isStated_pass {pos : Position} : IsStated (statement g) (.pass pos) := by
  refine isStated_of_word rfl rfl fun {word next ts rest} hword hts _ => ?_
  obtain rfl := List.map_eq_nil_iff.1 hts
  exact .advance_bind (by rw [hword]; rfl) (.pure rfl)

theorem isStated_raise {pos : Position} (he : IsRead g e) : IsStated (statement g) (.raise pos e) := by
  refine isStated_of_word rfl rfl fun {word next ts rest} hword hts hends => ?_
  change Takes Stmt.unplaced (raise g) _ _ _
  unfold raise
  refine .advance_bind (by rw [hword]; rfl) ?_
  refine .bind_last (he.takes hts (by decide) (stops_of_endsAt hends)) fun e' he' => ?_
  exact .pure (by simp only [Stmt.unplaced, Stmt.reread, he'])

theorem isCall_unplaced (e : Expr) : e.unplaced.isCall = e.isCall := by
  cases e <;> rfl

theorem isCall_reread (e : Expr) : e.reread.isCall = e.isCall := by
  cases e <;> rfl

theorem isStated_defer {pos : Position} (hcall : e.isCall = true) (he : IsRead g e) :
    IsStated (statement g) (.defer pos e) := by
  refine isStated_of_word rfl rfl fun {word next ts rest} hword hts hends => ?_
  change Takes Stmt.unplaced (defer g) _ _ _
  unfold defer
  refine .advance_bind (by rw [hword]; rfl) ?_
  refine .bind_last (he.takes hts (by decide) (stops_of_endsAt hends)) fun e' he' => ?_
  have hcall' : e'.isCall = true := by
    rw [← isCall_unplaced, he', isCall_unplaced, isCall_reread, hcall]
  rw [if_pos hcall']
  exact .pure (by simp only [Stmt.unplaced, Stmt.reread, he'])

theorem isStated_ret {pos : Position} {values : List Expr} (hvalues : ∀ e ∈ values, IsRead g e) :
    IsStated (statement g) (.ret pos values) := by
  refine isStated_of_word rfl rfl fun {word next ts rest} hword hts hends => ?_
  rw [Expr.listTokens_eq] at hts
  change Takes Stmt.unplaced (ret g) _ _ _
  unfold ret
  refine .advance_bind (by rw [hword]; rfl) ?_
  cases values with
  | nil =>
    obtain rfl := List.map_eq_nil_iff.1 hts
    refine .currentKind_bind (ne_newline_of_endsAt hends) ?_
    rw [List.nil_append, headKind_cons]
    rcases Stmt.endsAt_cases hends with h | h | h | h <;>
    · rw [h]
      exact .pure rfl
  | cons e values =>
    obtain ⟨vs, us, rfl, hvs, -⟩ := List.map_eq_append_iff.1 hts
    have he := hvalues e List.mem_cons_self
    -- a value follows on the same line
    have hline : headKind (vs ++ us ++ next :: rest) ≠ .newline := by
      rw [List.append_assoc]
      exact he.headKind_ne hvs _ rfl
    have hstart : (headKind (vs ++ us ++ next :: rest)).isOperandStart = true := by
      rw [List.append_assoc]
      exact he.isOperandStart hvs _
    have hlist : Takes (List.map Expr.unplaced) (commaSeparated (g.expression .lowest)) (vs ++ us)
        (next :: rest) ((e :: values).map Expr.reread) := by
      have hkind : next.kind.isOperandStart = false ∧ next.kind ≠ .comma := by
        rcases Stmt.endsAt_cases hends with h | h | h | h <;> rw [h] <;> exact ⟨rfl, by decide⟩
      exact takes_commaSeparated rfl (ne_newline_of_endsAt hends) hkind.2
        (fun e he => (hvalues e he).isItem hkind.1 (stops_of_endsAt hends)) (by simp) hts
    refine .currentKind_bind hline ?_
    have hreads : Takes Stmt.unplaced (do return .ret word.pos (← commaSeparated (g.expression .lowest)))
        (vs ++ us) (next :: rest) (Stmt.ret pos (e :: values)).reread := by
      refine .bind_last hlist fun values' hvalues' => .pure ?_
      simp only [Stmt.unplaced, Stmt.reread, Expr.listUnplaced_eq, Expr.listReread_eq, hvalues']
    generalize headKind (vs ++ us ++ next :: rest) = kind at hstart
    cases kind <;> first
      | exact hreads
      | cases hstart

/-! ## Blocks and functions -/

theorem isStated_block {body : Block} (hstmts : ∀ s ∈ body.stmts, IsStated g.statement s) :
    IsStated (statement g) (.block body) := by
  obtain ⟨tail, htokens⟩ := body.exists_tokens
  refine ⟨⟨_, tail, htokens, rfl⟩, fun {ts rest next} hts _ => ?_⟩
  have hkind : headKind (ts ++ next :: rest) = .lbrace := headKind_of_map (hts.trans htokens)
  refine .currentKind_bind (by simp [hkind]) ?_
  simp only [hkind]
  refine .bind_last (takes_block hstmts hts) fun body' hbody' => ?_
  exact .pure (by simp only [Stmt.unplaced, Stmt.reread, hbody'])

/-- A function with a name. -/
theorem isStated_func {pos : Position} {name : Ident} {params : List Ident} {body : Block}
    (hstmts : ∀ s ∈ body.stmts, IsStated g.statement s) :
    IsStated (statement g) (.func pos name params body) := by
  refine isStated_of_word rfl rfl fun {word next ts rest} hword hts _ => ?_
  obtain ⟨t, us, rfl, ht, hbehind⟩ := List.map_eq_cons_iff.1 hts
  obtain ⟨ts, us, rfl, hparams, hbody⟩ := List.map_eq_append_iff.1 hbehind
  have hkind : t.kind = .ident := congrArg Prod.fst ht
  have hliteral : t.literal = name.name := congrArg Prod.snd ht
  change Takes Stmt.unplaced (do
    if (← nextKind) = .ident then funcStatement g else simpleStatement g) _ _ _
  refine .nextKind_bind (by simp [hword]) (by simp [hkind]) ?_
  simp only [List.cons_append, headKind_cons, hkind, if_true]
  unfold funcStatement
  refine .advance_bind (by rw [hword]; rfl) ?_
  refine .expectIdent_bind hkind ?_
  refine .bind (takes_params hparams) fun names hnames => ?_
  refine .bind_last (takes_body hstmts hbody) fun body' hbody' => ?_
  refine .pure ?_
  simp only [Stmt.unplaced, Stmt.reread, Ident.unplaced, hliteral, hnames, hbody']

/-! ## Imports and exports -/

theorem takes_asName {name : Option Ident} (hts : ts.map shape = asTokens name)
    (hline : headKind rest ≠ .newline) (hword : headKind rest ≠ .kwAs) :
    Takes (Option.map Ident.unplaced) asName ts rest name := by
  unfold asName
  cases name with
  | none =>
    obtain rfl := List.map_eq_nil_iff.1 hts
    exact .eat_bind_of_ne hline hword (.pure rfl)
  | some id =>
    obtain ⟨word, us, rfl, hmark, hus⟩ := List.map_eq_cons_iff.1 hts
    obtain ⟨t, rfl, ht⟩ := List.map_eq_singleton_iff.1 hus
    refine .eat_bind (congrArg Prod.fst hmark) rfl ?_
    exact (takes_expectIdent ht).map fun id' hid' => congrArg some hid'

theorem takes_importPath {path : ImportPath} {context : String} (ht : shape t = (.str, path.value)) :
    Takes ImportPath.unplaced (importPath context) [t] rest path := by
  have hliteral : t.literal = path.value := congrArg Prod.snd ht
  unfold importPath
  refine .expect_bind (congrArg Prod.fst ht) rfl (.pure ?_)
  simp only [ImportPath.unplaced, hliteral]

theorem ne_kwAs_of_endsAt {kind : Token.Kind} (h : s.endsAt kind = true) : kind ≠ .kwAs := by
  rcases Stmt.endsAt_cases h with h | h | h | h <;> rw [h] <;> decide

theorem isStated_importAs {pos : Position} {path : ImportPath} {name : Option Ident} :
    IsStated (statement g) (.importAs pos path name) := by
  refine isStated_of_word rfl rfl fun {word next ts rest} hword hts hends => ?_
  obtain ⟨t, us, rfl, ht, hname⟩ := List.map_eq_cons_iff.1 hts
  change Takes Stmt.unplaced importAs _ _ _
  unfold importAs
  refine .advance_bind (by rw [hword]; rfl) ?_
  rw [← List.singleton_append]
  refine .bind (takes_importPath ht) fun path' hpath' => ?_
  refine .bind_last (takes_asName hname (ne_newline_of_endsAt hends) (ne_kwAs_of_endsAt hends))
    fun name' hname' => ?_
  exact .pure (by simp only [Stmt.unplaced, Stmt.reread, hpath', hname'])

theorem isStated_importFrom {pos : Position} {path : ImportPath} {items : List ImportItem}
    (hne : items ≠ []) : IsStated (statement g) (.importFrom pos path items) := by
  refine isStated_of_word rfl rfl fun {word next ts rest} hword hts hends => ?_
  obtain ⟨t, us, rfl, ht, hbehind⟩ := List.map_eq_cons_iff.1 hts
  obtain ⟨importWord, us, rfl, hmark, hitems⟩ := List.map_eq_cons_iff.1 hbehind
  have himport : importWord.kind = .kwImport := congrArg Prod.fst hmark
  have hkind : next.kind ≠ .ident ∧ next.kind ≠ .comma := by
    rcases Stmt.endsAt_cases hends with h | h | h | h <;> rw [h] <;> decide
  have hitem (item : ImportItem) : IsItem ImportItem.unplaced (do
      let name ← expectIdent "in import list"
      return ImportItem.mk name (← asName)) next.kind item.tokens item := by
    refine ⟨⟨_, _, rfl, hkind.1.symm, Token.Kind.noConfusion⟩, fun {ts rest next'} hts hnext => ?_⟩
    obtain ⟨t, us, rfl, ht, hname⟩ := List.map_eq_cons_iff.1 hts
    have hkind : t.kind = .ident := congrArg Prod.fst ht
    have hliteral : t.literal = item.name.name := congrArg Prod.snd ht
    have hnext' : next'.kind ≠ .newline ∧ next'.kind ≠ .kwAs := by
      rcases hnext with h | h
      · rw [h]
        decide
      · rw [h]
        exact ⟨ne_newline_of_endsAt hends, ne_kwAs_of_endsAt hends⟩
    refine .expectIdent_bind hkind ?_
    refine .bind_last (takes_asName hname hnext'.1 hnext'.2) fun name' hname' => ?_
    exact .pure (by simp only [ImportItem.unplaced, Ident.unplaced, hliteral, hname'])
  have hlist : Takes (List.map ImportItem.unplaced) (commaSeparated _) us (next :: rest) _ :=
    takes_commaSeparated rfl (ne_newline_of_endsAt hends) hkind.2
      (fun item (_ : item ∈ items) => hitem item) hne hitems
  rw [List.map_id'] at hlist
  change Takes Stmt.unplaced importFrom _ _ _
  unfold importFrom
  refine .advance_bind (by rw [hword]; rfl) ?_
  rw [← List.singleton_append]
  refine .bind (takes_importPath ht) fun path' hpath' => ?_
  refine .expect_bind himport rfl ?_
  refine .bind_last hlist fun items' hitems' => ?_
  exact .pure (by simp only [Stmt.unplaced, Stmt.reread, hpath', hitems'])

theorem isExportable_unplaced (s : Stmt) : isExportable s.unplaced = isExportable s := by
  cases s <;> rfl

/-- What can be exported stands for the same kind of statement. -/
theorem isExportable_reread (h : isExportable s = true) : isExportable s.reread = true := by
  cases s <;> first
    | exact h
    | cases h

theorem endsOpen_of_isExportable (h : isExportable s = true) : s.endsOpen = false := by
  cases s <;> first
    | rfl
    | cases h

theorem isStated_exported {pos : Position} (hs : isExportable s = true)
    (hstmt : IsStated g.statement s) : IsStated (statement g) (.exported pos s) := by
  refine isStated_of_word rfl rfl fun {word next ts rest} hword hts hends => ?_
  have hends' : s.endsAt next.kind = true := by
    rcases Stmt.endsAt_cases hends with h | h | h | h <;> rw [h] <;>
      simp [Stmt.endsAt, endsOpen_of_isExportable hs]
  have hstart := hstmt.isStatementStart hts (next :: rest)
  have htaken : Takes Stmt.unplaced g.statement ts (next :: rest) s.reread := hstmt.takes hts hends'
  obtain ⟨head, tail, htokens, -⟩ := hstmt.starts
  obtain ⟨t, us, rfl, -, -⟩ := List.map_eq_cons_iff.1 (hts.trans htokens)
  rw [List.cons_append, headKind_cons] at hstart
  have hreads : Takes Stmt.unplaced (do
      let stmt ← g.statement
      if isExportable stmt then return Stmt.exported word.pos stmt
      fail .notExportable word) (t :: us) (next :: rest) (Stmt.exported pos s).reread := by
    refine .bind_last htaken fun stmt hstmt => ?_
    have hexportable : isExportable stmt = true := by
      rw [← isExportable_unplaced, hstmt, isExportable_unplaced, isExportable_reread hs]
    rw [if_pos hexportable]
    exact .pure (by simp only [Stmt.unplaced, Stmt.reread, hstmt])
  have hline : t.kind ≠ .newline := by
    intro h
    rw [h] at hstart
    cases hstart
  change Takes Stmt.unplaced (exported g) _ _ _
  unfold exported
  refine .advance_bind (by rw [hword]; rfl) ?_
  refine .current_bind hline ?_
  generalize t.kind = kind at hstart
  cases kind <;> first
    | exact hreads
    | cases hstart

/-! ## Handlers -/

/-- A part of a statement that a word tells, if it is there. -/
theorem takes_behind {α κ : Type} {view : α → κ} {p : Parse α} {a absent : α} {word : Token.Kind}
    (hline : headKind (ts ++ rest) ≠ .newline) (heof : word ≠ .eof)
    (habsent : headKind (ts ++ rest) ≠ word → Takes view (Pure.pure absent) ts rest a)
    (hpresent : headKind (ts ++ rest) = word → Takes view p ts rest a) :
    Takes view (get >>= fun st => if (!st.nextAfterNewlinesIs word) = true then Pure.pure absent else
      skipNewlines >>= fun _ => p) ts rest a := by
  refine .get_bind fun n ds => ?_
  rw [Takes.nextAfterNewlinesIs_eq hline heof]
  by_cases hword : headKind (ts ++ rest) = word
  · simp only [hword, decide_true, Bool.not_true, Bool.false_eq_true, if_false]
    exact Takes.skipNewlines_bind hline (hpresent hword) n ds
  · simp only [hword, decide_false, Bool.not_false, if_true]
    exact habsent hword n ds

theorem headKind_body {body : Block} (hts : ts.map shape = body.tokens) (us : List Token) :
    headKind (ts ++ us) = .lbrace := by
  obtain ⟨tail, htail⟩ := body.exists_tokens
  exact headKind_of_map (hts.trans htail)

/-- The name of a caught value, in front of a block. -/
theorem takes_caught_bind {β μ : Type} {view : β → μ} {b : β} {name : Option Ident}
    {f : Option Ident → Parse β} (hts : ts.map shape = caughtTokens name)
    (hus : headKind (us ++ rest) = .lbrace)
    (hf : ∀ found, found.map Ident.unplaced = name.map Ident.unplaced →
      Takes view (f found) us rest b) :
    Takes view (eat .lparen >>= fun caught =>
      if caught = true then
        nested (do
          let name ← expectIdent "in catch clause"
          let _ ← expect .rparen "after catch name"
          return some name) >>= f
      else pure none >>= f) (ts ++ us) rest b := by
  cases name with
  | none =>
    obtain rfl := List.map_eq_nil_iff.1 hts
    refine .eat_bind_of_ne (by simp [hus]) (by simp [hus]) ?_
    exact hf none rfl
  | some id =>
    obtain ⟨l, vs, rfl, hl, hinner⟩ := List.map_eq_cons_iff.1 hts
    obtain ⟨t, vs, rfl, ht, hclose⟩ := List.map_eq_cons_iff.1 hinner
    obtain ⟨r, rfl, hr⟩ := List.map_eq_singleton_iff.1 hclose
    have hkind : t.kind = .ident := congrArg Prod.fst ht
    have hliteral : t.literal = id.name := congrArg Prod.snd ht
    have hname : Takes (Option.map Ident.unplaced) (nested do
        let name ← expectIdent "in catch clause"
        let _ ← expect .rparen "after catch name"
        return some name) [t, r] (us ++ rest) (some id) := by
      refine .nested (.expectIdent_bind hkind (.expect_bind (congrArg Prod.fst hr) rfl (.pure ?_)))
      simp only [Option.map_some, Ident.unplaced, hliteral]
    rw [List.cons_append]
    refine .eat_bind (congrArg Prod.fst hl) rfl ?_
    exact .bind hname hf

theorem takes_handler {clause : Option CatchClause}
    (hstmts : ∀ pos name body, .mk pos name body ∈ clause →
      ∀ s ∈ body.stmts, IsStated g.statement s)
    (hts : ts.map shape = CatchClause.optionTokens clause) (hline : headKind rest ≠ .newline)
    (hnext : headKind rest ≠ .kwCatch) :
    Takes (Option.map CatchClause.unplaced) (handler g) ts rest (clause.map CatchClause.reread) := by
  cases clause with
  | none =>
    obtain rfl := List.map_eq_nil_iff.1 hts
    exact takes_behind hline (by decide) (fun _ => .pure rfl) fun h => absurd h hnext
  | some clause =>
    obtain ⟨pos, name, body⟩ := clause
    obtain ⟨word, us, rfl, hmark, hbehind⟩ := List.map_eq_cons_iff.1 hts
    obtain ⟨ts, us, rfl, hname, hbody⟩ := List.map_eq_append_iff.1 hbehind
    have hword : word.kind = .kwCatch := congrArg Prod.fst hmark
    refine takes_behind (by simp [hword]) (by decide) (fun h => absurd hword h) fun _ => ?_
    refine .advance_bind (by rw [hword]; rfl) ?_
    refine takes_caught_bind hname (headKind_body hbody rest) fun name' hname' => ?_
    refine .bind_last (takes_body (hstmts pos name body rfl) hbody) fun body' hbody' => .pure ?_
    simp only [Option.map_some, CatchClause.unplaced, CatchClause.reread, hname', hbody']

theorem takes_finalizer {body : Option Block}
    (hstmts : ∀ b ∈ body, ∀ s ∈ b.stmts, IsStated g.statement s)
    (hts : ts.map shape = Block.tokensBehind [mark .kwFinally] body)
    (hline : headKind rest ≠ .newline) (hnext : headKind rest ≠ .kwFinally) :
    Takes (Option.map Block.unplaced) (finalizer g) ts rest (body.map Block.reread) := by
  cases body with
  | none =>
    obtain rfl := List.map_eq_nil_iff.1 hts
    exact takes_behind hline (by decide) (fun _ => .pure rfl) fun h => absurd h hnext
  | some body =>
    obtain ⟨word, us, rfl, hmark, hbody⟩ := List.map_eq_cons_iff.1 hts
    have hword : word.kind = .kwFinally := congrArg Prod.fst hmark
    refine takes_behind (by simp [hword]) (by decide) (fun h => absurd hword h) fun _ => ?_
    refine .advance_bind (by rw [hword]; rfl) ?_
    refine .bind_last (takes_body (hstmts body rfl) hbody) fun body' hbody' => .pure ?_
    simp only [Option.map_some, hbody']

/-- A block with a handler or a final block behind it. -/
theorem isStated_tryCatch {pos : Position} {body : Block} {clause : Option CatchClause}
    {final : Option Block} (hsome : (clause.isSome || final.isSome) = true)
    (hbody : ∀ s ∈ body.stmts, IsStated g.statement s)
    (hclause : ∀ pos name body, .mk pos name body ∈ clause →
      ∀ s ∈ body.stmts, IsStated g.statement s)
    (hfinal : ∀ b ∈ final, ∀ s ∈ b.stmts, IsStated g.statement s) :
    IsStated (statement g) (.tryCatch pos body clause final) := by
  refine isStated_of_word rfl rfl fun {word next ts rest} hword hts hends => ?_
  obtain ⟨ts, us, rfl, hblock, hbehind⟩ := List.map_eq_append_iff.1 hts
  obtain ⟨us, vs, rfl, hhandler, hfinalizer⟩ := List.map_eq_append_iff.1 hbehind
  have hnext : next.kind ≠ .kwCatch ∧ next.kind ≠ .kwFinally := by
    rcases Stmt.endsAt_cases hends with h | h | h | h <;> rw [h] <;> decide
  have hmiddle : headKind (vs ++ next :: rest) ≠ .newline
      ∧ headKind (vs ++ next :: rest) ≠ .kwCatch := by
    cases final with
    | none =>
      obtain rfl := List.map_eq_nil_iff.1 hfinalizer
      exact ⟨ne_newline_of_endsAt hends, hnext.1⟩
    | some final =>
      rw [headKind_of_map hfinalizer]
      decide
  change Takes Stmt.unplaced (tryCatch g) _ _ _
  unfold tryCatch
  refine .advance_bind (by rw [hword]; rfl) ?_
  refine .bind (takes_body hbody hblock) fun body' hbody' => ?_
  refine .bind (takes_handler hclause hhandler hmiddle.1 hmiddle.2) fun clause' hclause' => ?_
  refine .bind_last (takes_finalizer hfinal hfinalizer (ne_newline_of_endsAt hends) hnext.2)
    fun final' hfinal' => ?_
  have hsome' : ¬(clause'.isNone && final'.isNone) = true := by
    have hclause := congrArg Option.isSome hclause'
    have hfinal := congrArg Option.isSome hfinal'
    simp only [Option.isSome_map] at hclause hfinal
    rw [← hclause, ← hfinal] at hsome
    cases clause' <;> cases final' <;> simp at hsome ⊢
  rw [if_neg hsome']
  refine .pure ?_
  simp only [Stmt.unplaced, Stmt.reread, CatchClause.optionUnplaced_eq, CatchClause.optionReread_eq,
    Block.optionUnplaced_eq, Block.optionReread_eq, hbody', hclause', hfinal']

/-! ## Selections -/

theorem isStated_switch {pos : Position} {value : Expr} {cases : List SwitchCase}
    {fallback : Option Block} (hvalue : IsRead g value)
    (hne : ∀ pos values body, .mk pos values body ∈ cases → values ≠ [])
    (hvalues : ∀ pos values body, .mk pos values body ∈ cases → ∀ e ∈ values, IsRead g e)
    (hstmts : ∀ pos values body, .mk pos values body ∈ cases →
      ∀ s ∈ body.stmts, IsStated g.statement s)
    (hfallback : ∀ b ∈ fallback, ∀ s ∈ b.stmts, IsStated g.statement s) :
    IsStated (statement g) (.switch pos value cases fallback) := by
  let arms : Arms SwitchCase Block SwitchCase Block :=
    { view := SwitchCase.unplaced
      defaultView := Block.unplaced
      caseTokens := SwitchCase.tokens
      defaultTokens := Block.tokens
      value := SwitchCase.reread
      defaultValue := Block.reread }
  refine isStated_of_word rfl rfl fun {word next ts rest} hword hts hends => ?_
  obtain ⟨ts, us, rfl, hcondition, hblock⟩ := exists_condition hts
  obtain ⟨l, us, rfl, hl, harms⟩ := List.map_eq_cons_iff.1 hblock
  -- the default, if there is one, is the last of the arms
  have hbetween : SwitchCase.listTokens cases ++ (Block.tokensBehind [mark .kwDefault] fallback
      ++ [mark .rbrace]) = (cases.flatMap arms.caseTokens
        ++ fallback.toList.flatMap fun b => mark .kwDefault :: arms.defaultTokens b)
          ++ [mark .rbrace] := by
    cases fallback <;> simp [Block.tokensBehind, arms]
  rw [hbetween] at harms
  obtain ⟨us, vs, rfl, hus, hclose⟩ := List.map_eq_append_iff.1 harms
  obtain ⟨r, rfl, hr⟩ := List.map_eq_singleton_iff.1 hclose
  have hl : l.kind = .lbrace := congrArg Prod.fst hl
  have hr : r.kind = .rbrace := congrArg Prod.fst hr
  have hcase : ∀ c ∈ cases, ∀ word ts t rest, (word :: ts).map shape = c.tokens →
      Takes SwitchCase.unplaced (do
        let values ← caseValues g
        return SwitchCase.mk word.pos values (← body g)) ts (t :: rest) c.reread := by
    intro c hc word ts t rest htokens
    obtain ⟨pos, values, body⟩ := c
    rw [SwitchCase.tokens, Expr.listTokens_eq] at htokens
    obtain ⟨ts, us, rfl, hts, hus⟩ := List.map_eq_append_iff.1 (List.cons.inj htokens).2
    obtain ⟨tail, htail⟩ := body.exists_tokens
    obtain ⟨l, us', rfl, hmark, -⟩ := List.map_eq_cons_iff.1 (hus.trans htail)
    have hl : l.kind = .lbrace := congrArg Prod.fst hmark
    refine .bind (takes_caseValues (hne pos values body hc) (hvalues pos values body hc) hts hl)
      fun values' hvalues' => ?_
    refine .bind_last (takes_body (hstmts pos values body hc) hus) fun body' hbody' => .pure ?_
    simp only [SwitchCase.unplaced, SwitchCase.reread, Expr.listUnplaced_eq, Expr.listReread_eq,
      hvalues', hbody']
  have hstarts : ∀ c ∈ cases, ∃ tail, c.tokens = mark .kwCase :: tail := by
    rintro ⟨pos, values, body⟩ -
    exact ⟨_, rfl⟩
  have hdefault : ∀ b ∈ fallback, ∀ ts t rest, ts.map shape = b.tokens →
      Takes Block.unplaced (body g) ts (t :: rest) b.reread :=
    fun b hb ts t rest htokens => takes_body (hfallback b hb) htokens
  change Takes Stmt.unplaced (switch g) _ _ _
  unfold switch
  refine .advance_bind (by rw [hword]; rfl) ?_
  refine .bind (takes_condition hvalue hcondition) fun value' hvalue' => ?_
  refine .skipNewlines_bind (by simp [hl]) ?_
  refine .expect_bind hl rfl ?_
  refine .asStatements ?_
  refine .bind_last (takes_arms arms hr hstarts hcase hdefault hus) fun found hfound => ?_
  obtain ⟨cases', fallback'⟩ := found
  obtain ⟨hcases', hlast'⟩ := Prod.mk.inj hfound
  have hcases : cases'.map SwitchCase.unplaced = (cases.map SwitchCase.reread).map SwitchCase.unplaced :=
    hcases'
  have hlast : fallback'.map Block.unplaced = (fallback.map Block.reread).map Block.unplaced := hlast'
  refine .pure ?_
  simp only [Stmt.unplaced, Stmt.reread, SwitchCase.listUnplaced_eq, SwitchCase.listReread_eq,
    Block.optionUnplaced_eq, Block.optionReread_eq, hvalue', hcases, hlast]

end Welle.Parser
