import Welle.Proofs.Printing.Reading

set_option autoImplicit false

/-! # Printed operands

Operands are read back from the tokens that they are printed with, given that the expressions in them
are: parentheses, tuples, lists, comprehensions, dictionaries, prefix operators and `match`
expressions. -/

namespace Welle.Parser

open Token (Shape mark shape commas)

variable {g : Grammar} {ts us rest : List Token} {l r t : Token} {e : Expr}

/-! ## Operands of one token -/

theorem takes_ident {id : Ident} (ht : shape t = (.ident, id.name)) :
    Takes Expr.unplaced (operand g) [t] rest (.ident id) := by
  have hkind : t.kind = .ident := congrArg Prod.fst ht
  have hliteral : t.literal = id.name := congrArg Prod.snd ht
  unfold operand
  refine .current_bind (by rw [hkind]; decide) ?_
  simp only [hkind]
  refine .advance_bind (by rw [hkind]; rfl) ?_
  exact .pure (by simp only [Expr.unplaced_ident, Ident.unplaced, hliteral])

theorem isLed_ident (g : Grammar) (id : Ident) : IsLed g (.ident id) := by
  refine ⟨Token.starts_singleton rfl Token.Kind.noConfusion, fun hts _ => ?_⟩
  obtain ⟨t, rfl, ht⟩ := List.map_eq_singleton_iff.1 hts
  exact .of_operand (takes_ident ht)

theorem takes_str {pos : Position} {value : String} (ht : shape t = (.str, value)) :
    Takes Expr.unplaced (operand g) [t] rest (.str pos value) := by
  have hkind : t.kind = .str := congrArg Prod.fst ht
  have hliteral : t.literal = value := congrArg Prod.snd ht
  unfold operand
  refine .current_bind (by rw [hkind]; decide) ?_
  simp only [hkind]
  refine .advance_bind (by rw [hkind]; rfl) ?_
  exact .pure (by simp only [Expr.unplaced, hliteral])

theorem takes_bool {pos : Position} {value : Bool}
    (ht : shape t = mark (if value then .kwTrue else .kwFalse)) :
    Takes Expr.unplaced (operand g) [t] rest (.bool pos value) := by
  have hkind : t.kind = if value then .kwTrue else .kwFalse := congrArg Prod.fst ht
  unfold operand
  cases value with
  | true =>
    refine .current_bind (by rw [hkind]; decide) ?_
    simp only [hkind, if_true]
    exact .advance_bind (by rw [hkind]; rfl) (.pure rfl)
  | false =>
    refine .current_bind (by rw [hkind]; decide) ?_
    simp only [hkind, Bool.false_eq_true, if_false]
    exact .advance_bind (by rw [hkind]; rfl) (.pure rfl)

theorem takes_nil {pos : Position} (ht : shape t = mark .kwNil) :
    Takes Expr.unplaced (operand g) [t] rest (.nil pos) := by
  have hkind : t.kind = .kwNil := congrArg Prod.fst ht
  unfold operand
  refine .current_bind (by rw [hkind]; decide) ?_
  simp only [hkind]
  exact .advance_bind (by rw [hkind]; rfl) (.pure rfl)

/-- A number is read as what its text stands for. -/
theorem takes_number {kind : Token.Kind} {literal : String} (ht : shape t = (kind, literal))
    (hkind : kind = .int ∨ kind = .float) (h : Takes Expr.unplaced (number t) [] rest e) :
    Takes Expr.unplaced (operand g) [t] rest e := by
  have htoken : t.kind = kind := congrArg Prod.fst ht
  unfold operand
  refine .current_bind ?_ ?_
  · rcases hkind with rfl | rfl <;> rw [htoken] <;> decide
  · rcases hkind with rfl | rfl <;>
    · simp only [htoken]
      exact .advance_bind (by rw [htoken]; rfl) h

theorem takes_int {pos : Position} {literal : String} {value : Int}
    (ht : shape t = (.int, literal)) (hvalue : Numeral.parse literal = .ok (.int value)) :
    Takes Expr.unplaced (operand g) [t] rest (.int pos value) := by
  have hliteral : t.literal = literal := congrArg Prod.snd ht
  refine takes_number ht (.inl rfl) ?_
  rw [number, hliteral, hvalue]
  exact .pure rfl

theorem takes_float {pos : Position} {literal : String} {value : Double}
    (ht : shape t = (.float, literal)) (hvalue : Numeral.parse literal = .ok (.float value)) :
    Takes Expr.unplaced (operand g) [t] rest (.float pos value) := by
  have hliteral : t.literal = literal := congrArg Prod.snd ht
  refine takes_number ht (.inr rfl) ?_
  rw [number, hliteral, hvalue]
  exact .pure rfl

/-! ## Parentheses -/

theorem takes_grouped {s : Shape} {ss : List Shape} (hl : l.kind = .lparen) (hr : r.kind = .rparen)
    (hts : ts.map shape = s :: ss) (hs : s.1 ≠ .newline ∧ s.1 ≠ .rparen)
    (h : Takes Expr.unplaced (g.expression .lowest) ts (r :: rest) e) :
    Takes Expr.unplaced (operand g) (l :: (ts ++ [r])) rest e := by
  have hhead : headKind ((ts ++ [r]) ++ rest) = s.1 := by
    rw [List.append_assoc]
    exact headKind_of_map hts
  unfold operand
  refine .current_bind (by rw [hl]; decide) ?_
  simp only [hl]
  unfold grouped
  refine .advance_bind (by rw [hl]; rfl) ?_
  refine .nested ?_
  refine .eat_bind_of_ne (hhead ▸ hs.1) (hhead ▸ hs.2) ?_
  refine .bind h fun e' he' => ?_
  refine .atKind_bind (by simp [hr]) ?_
  simp only [List.cons_append, headKind_cons, hr, reduceCtorEq, decide_false, Bool.false_eq_true,
    if_false]
  refine .expect_bind hr rfl ?_
  exact .pure he'

theorem takes_tuple {pos : Position} {items : List Expr} (hitems : ∀ e ∈ items, IsRead g e)
    (htokens : ts.map shape
      = mark .lparen :: (Token.tupleTokens (items.map Expr.tokens) ++ [mark .rparen])) :
    Takes Expr.unplaced (operand g) ts rest (.tuple pos (items.map Expr.reread)) := by
  obtain ⟨l, us, rfl, hl, hbody⟩ := List.map_eq_cons_iff.1 htokens
  obtain ⟨ts, us, rfl, hts, hend⟩ := List.map_eq_append_iff.1 hbody
  obtain ⟨r, rfl, hr⟩ := List.map_eq_singleton_iff.1 hend
  have hl : l.kind = .lparen := congrArg Prod.fst hl
  have hr : r.kind = .rparen := congrArg Prod.fst hr
  unfold operand
  refine .current_bind (by rw [hl]; decide) ?_
  simp only [hl]
  unfold grouped
  refine .advance_bind (by rw [hl]; rfl) ?_
  refine .nested ?_
  match items, hitems with
  | [], _ =>
    obtain rfl := List.map_eq_nil_iff.1 hts
    refine .eat_bind hr rfl ?_
    exact .pure rfl
  | [e], hitems =>
    have he := hitems e List.mem_cons_self
    obtain ⟨ts, us, rfl, hitem, hbehind⟩ := List.map_eq_append_iff.1 hts
    obtain ⟨comma, rfl, hmark⟩ := List.map_eq_singleton_iff.1 hbehind
    have hcomma : comma.kind = .comma := congrArg Prod.fst hmark
    rw [List.append_assoc]
    refine he.eat_bind hitem rfl ?_
    refine .bind (he.takes hitem (by decide) (by rw [hcomma]; rfl)) fun e' he' => ?_
    refine .atKind_bind (by simp [hcomma]) ?_
    simp only [List.cons_append, headKind_cons, hcomma, decide_true, if_true]
    -- the comma behind the only item is no item's
    have hnone : Takes (List.map Expr.unplaced) (furtherItemsUntil .rparen (g.expression .lowest))
        [comma] ([r] ++ rest) [] := by
      refine Rounds.many (.stop (by simp) ?_)
      refine .eat_bind hcomma rfl ?_
      refine .atKind_bind (by simp [hr]) ?_
      simp only [List.cons_append, List.nil_append, headKind_cons, hr, decide_true, if_true]
      exact .pure rfl
    refine .bind hnone fun items hnil => ?_
    obtain rfl := List.map_eq_nil_iff.1 hnil
    refine .expect_bind hr rfl ?_
    exact .pure (by simp only [Expr.unplaced, Expr.listUnplaced, List.map_cons, List.map_nil, he'])
  | a :: b :: items, hitems =>
    rw [List.forall_mem_cons] at hitems
    obtain ⟨ts, us, rfl, hitem, hfurther⟩ := List.map_eq_append_iff.1 hts
    obtain ⟨comma, us, rfl, hmark, -⟩ := List.map_eq_cons_iff.1 hfurther
    have hcomma : comma.kind = .comma := congrArg Prod.fst hmark
    rw [List.append_assoc]
    refine hitems.1.eat_bind hitem rfl ?_
    refine .bind (hitems.1.takes hitem (by decide) (by rw [hcomma]; rfl)) fun a' ha' => ?_
    refine .atKind_bind (by simp [hcomma]) ?_
    simp only [List.cons_append, headKind_cons, hcomma, decide_true, if_true]
    rw [← List.cons_append]
    refine .bind (takes_furtherItemsUntil hr rfl (by decide)
      (fun e he => (hitems.2 e he).isItem rfl rfl) hfurther) fun items' hitems' => ?_
    refine .expect_bind hr rfl ?_
    refine .pure ?_
    simp only [Expr.unplaced, Expr.listUnplaced_eq, List.map_cons, ha', hitems']

/-- A list that is no comprehension: no `for` stands behind its first item. -/
theorem takes_list {pos : Position} {items : List Expr} (hitems : ∀ e ∈ items, IsRead g e)
    (htokens : ts.map shape
      = mark .lbracket :: (commas (items.map Expr.tokens) ++ [mark .rbracket])) :
    Takes Expr.unplaced (operand g) ts rest (.list pos (items.map Expr.reread)) := by
  obtain ⟨l, us, rfl, hl, hbody⟩ := List.map_eq_cons_iff.1 htokens
  obtain ⟨ts, us, rfl, hts, hend⟩ := List.map_eq_append_iff.1 hbody
  obtain ⟨r, rfl, hr⟩ := List.map_eq_singleton_iff.1 hend
  have hl : l.kind = .lbracket := congrArg Prod.fst hl
  have hr : r.kind = .rbracket := congrArg Prod.fst hr
  unfold operand
  refine .current_bind (by rw [hl]; decide) ?_
  simp only [hl]
  unfold Parser.list
  refine .advance_bind (by rw [hl]; rfl) ?_
  refine .nested ?_
  cases items with
  | nil =>
    obtain rfl := List.map_eq_nil_iff.1 hts
    refine .eat_bind hr rfl ?_
    exact .pure rfl
  | cons e items =>
    rw [List.forall_mem_cons] at hitems
    obtain ⟨ts, us, rfl, hitem, hfurther⟩ := List.map_eq_append_iff.1 hts
    obtain ⟨next, tail, hnext, hkind⟩ := head_further hfurther r rest
    have hkind' : next.kind = .comma ∨ next.kind = .rbracket :=
      hkind.imp_right fun heq => by rw [heq, hr]
    have hhead : (us ++ [r]) ++ rest = next :: tail := by rw [List.append_assoc, ← hnext]; rfl
    have hitem' : IsItem Expr.unplaced (g.expression .lowest) .rbracket e.tokens e.reread :=
      hitems.1.isItem rfl rfl
    rw [List.append_assoc]
    refine hitems.1.eat_bind hitem rfl ?_
    refine .bind (hhead ▸ hitem'.takes hitem hkind') fun e' he' => ?_
    refine .eat_bind_of_ne ?_ ?_ ?_
    · rcases hkind' with h | h <;> simp [hhead, h]
    · rcases hkind' with h | h <;> simp [hhead, h]
    simp only [Bool.false_eq_true, if_false]
    refine .bind (takes_furtherItemsUntil hr rfl (by decide)
      (fun e he => (hitems.2 e he).isItem rfl rfl) hfurther) fun items' hitems' => ?_
    refine .expect_bind hr rfl ?_
    refine .pure ?_
    simp only [Expr.unplaced, Expr.listUnplaced_eq, List.map_cons, he', hitems']

theorem takes_comprehension {pos : Position} {elem seq : Expr} {var : Ident} {filter : Option Expr}
    (helem : IsRead g elem) (hseq : IsRead g seq) (hfilter : ∀ e ∈ filter, IsRead g e)
    (htokens : ts.map shape = mark .lbracket :: (elem.tokens ++ (mark .kwFor :: (.ident, var.name)
      :: mark .kwIn :: (seq.tokens
        ++ (Expr.tokensBetween [mark .kwIf] [] filter ++ [mark .rbracket]))))) :
    Takes Expr.unplaced (operand g) ts rest
      (.comprehension pos elem.reread var seq.reread (filter.map Expr.reread)) := by
  obtain ⟨l, us, rfl, hl, hbody⟩ := List.map_eq_cons_iff.1 htokens
  obtain ⟨ts, us, rfl, hts, hbehind⟩ := List.map_eq_append_iff.1 hbody
  obtain ⟨word, us, rfl, hword, hnames⟩ := List.map_eq_cons_iff.1 hbehind
  obtain ⟨t, us, rfl, ht, hin⟩ := List.map_eq_cons_iff.1 hnames
  obtain ⟨inWord, us, rfl, hinWord, hsource⟩ := List.map_eq_cons_iff.1 hin
  obtain ⟨vs, us, rfl, hvs, hend⟩ := List.map_eq_append_iff.1 hsource
  have hl : l.kind = .lbracket := congrArg Prod.fst hl
  have hword : word.kind = .kwFor := congrArg Prod.fst hword
  have hkind : t.kind = .ident := congrArg Prod.fst ht
  have hliteral : t.literal = var.name := congrArg Prod.snd ht
  have hinWord : inWord.kind = .kwIn := congrArg Prod.fst hinWord
  unfold operand
  refine .current_bind (by rw [hl]; decide) ?_
  simp only [hl]
  unfold Parser.list
  refine .advance_bind (by rw [hl]; rfl) ?_
  refine .nested ?_
  refine helem.eat_bind hts rfl ?_
  refine .bind (helem.takes hts (by decide) (by rw [hword]; rfl)) fun elem' helem' => ?_
  refine .eat_bind hword rfl ?_
  refine .expectIdent_bind hkind ?_
  refine .expect_bind hinWord rfl ?_
  -- behind the sequence stands a condition, or the bracket
  cases filter with
  | none =>
    obtain ⟨r, rfl, hr⟩ := List.map_eq_singleton_iff.1 hend
    have hr : r.kind = .rbracket := congrArg Prod.fst hr
    refine .bind (hseq.takes hvs (by decide) (by rw [hr]; rfl)) fun seq' hseq' => ?_
    refine .eat_bind_of_ne (by simp [hr]) (by simp [hr]) ?_
    refine .expect_bind hr rfl ?_
    exact .pure (by simp [Expr.unplaced, Ident.unplaced, helem', hseq', hliteral])
  | some e =>
    obtain ⟨ifWord, us, rfl, hifWord, hbehindIf⟩ := List.map_eq_cons_iff.1 hend
    obtain ⟨ts, us, rfl, hcond, hclose⟩ := List.map_eq_append_iff.1 hbehindIf
    obtain ⟨r, rfl, hmark⟩ := List.map_eq_singleton_iff.1 hclose
    have hifWord : ifWord.kind = .kwIf := congrArg Prod.fst hifWord
    have hr : r.kind = .rbracket := congrArg Prod.fst hmark
    rw [List.append_nil] at hcond
    have hsome : Takes (Option.map Expr.unplaced) (some <$> g.expression .lowest) ts ([r] ++ rest)
        (some e.reread) :=
      ((hfilter e rfl).takes hcond (by decide) (by rw [hr]; rfl)).map
        fun e' he' => congrArg some he'
    refine .bind (hseq.takes hvs (by decide) (by rw [hifWord]; rfl)) fun seq' hseq' => ?_
    refine .eat_bind hifWord rfl ?_
    refine .bind hsome fun filter' hfilter' => ?_
    refine .expect_bind hr rfl ?_
    refine .pure ?_
    simp only [Expr.unplaced, Expr.optionUnplaced_eq, Ident.unplaced, Option.map_some, helem', hseq',
      hfilter', hliteral]

/-! ## Dictionaries -/

/-- A name that a key starts with is no entry: none ends behind it. -/
theorem IsRead.headKind_behind (h : IsRead g e) (hts : (t :: ts).map shape = e.tokens)
    (hident : t.kind = .ident) {next : Token} (hnext : next.kind = .colon) (us : List Token) :
    headKind (ts ++ next :: us) ∈ [.lparen, .dot, .template, .colon] := by
  obtain ⟨s, tail, htokens, -, hname, -⟩ := h.starts
  rw [htokens, List.map_cons] at hts
  obtain ⟨hs, htail⟩ := List.cons.inj hts
  have hname := hname (hs ▸ hident)
  cases ts with
  | nil => simp [hnext]
  | cons u ts =>
    rw [← htail] at hname
    have hu : u.kind = .lparen ∨ u.kind = .dot ∨ u.kind = .template := hname (shape u) rfl
    rw [List.cons_append, headKind_cons]
    simp only [List.mem_cons]
    tauto

/-- A name alone is an entry, and a name that a key starts with is none. -/
theorem isItem_entry {entry : DictEntry}
    (hexprs : ∀ key value, entry = .pair key value → IsRead g key ∧ IsRead g value) :
    IsItem DictEntry.unplaced (dictEntry g) .rbrace entry.tokens entry.reread := by
  cases entry with
  | shorthand id =>
    refine ⟨⟨_, _, rfl, Token.Kind.noConfusion, Token.Kind.noConfusion⟩, fun htokens hnext => ?_⟩
    obtain ⟨t, rfl, ht⟩ := List.map_eq_singleton_iff.1 htokens
    have hkind : t.kind = .ident := congrArg Prod.fst ht
    have hliteral : t.literal = id.name := congrArg Prod.snd ht
    have hentry (rest : List Token) : Takes DictEntry.unplaced (do
        return .shorthand (← expectIdent "")) [t] rest (.shorthand id) := by
      refine .expectIdent_bind hkind ?_
      exact .pure (by simp only [DictEntry.unplaced, Ident.unplaced, hliteral])
    unfold dictEntry
    refine .atKind_bind (by simp [hkind]) (.nextKind_bind (by simp [hkind]) ?_ ?_)
    · rcases hnext with h | h <;> simp [h]
    · rcases hnext with h | h <;>
      · simp only [List.cons_append, List.nil_append, headKind_cons, hkind, h]
        exact hentry _
  | pair key value =>
    obtain ⟨hkey, hvalue⟩ := hexprs key value rfl
    obtain ⟨s, tail, htokens, hs, -⟩ := hkey.starts
    constructor
    · refine ⟨s, tail ++ (mark .colon :: value.tokens), ?_, ?_, ?_⟩
      · rw [DictEntry.tokens, htokens, List.cons_append]
      all_goals
        intro heq
        rw [heq] at hs
        cases hs
    · intro ts rest next hshape hnext
      obtain ⟨ts, us, rfl, hts, hbehind⟩ := List.map_eq_append_iff.1 hshape
      obtain ⟨colon, us, rfl, hmark, hus⟩ := List.map_eq_cons_iff.1 hbehind
      have hcolon : colon.kind = .colon := congrArg Prod.fst hmark
      have hstop : stops .lowest next.kind = true := by
        rcases hnext with h | h <;> rw [h] <;> rfl
      have hpair : Takes DictEntry.unplaced (do
          let key ← g.expression .lowest
          let _ ← expect .colon "after dict key"
          return .pair key (← g.expression .lowest)) (ts ++ colon :: us) (next :: rest)
          (.pair key.reread value.reread) := by
        refine .bind (hkey.takes hts (by decide) (by rw [hcolon]; rfl)) fun key' hkey' => ?_
        refine .expect_bind hcolon rfl ?_
        refine .bind_last (hvalue.takes hus (by decide) hstop) fun value' hvalue' => ?_
        exact .pure (by simp only [DictEntry.unplaced, hkey', hvalue'])
      obtain ⟨t, ts, rfl, ht, -⟩ := List.map_eq_cons_iff.1 (hts.trans htokens)
      have hline : t.kind ≠ .newline := by
        intro heq
        rw [← show t.kind = s.1 from congrArg Prod.fst ht, heq] at hs
        cases hs
      unfold dictEntry
      rw [List.cons_append] at hpair ⊢
      refine .atKind_bind hline ?_
      rw [List.cons_append, headKind_cons]
      -- a name in front of the colon is not taken for an entry by itself
      by_cases hident : t.kind = .ident
      · have hnext := hkey.headKind_behind hts hident hcolon (us ++ next :: rest)
        rw [← List.cons_append, ← List.append_assoc] at hnext
        simp only [List.mem_cons, List.not_mem_nil, or_false] at hnext
        refine .nextKind_bind hline ?_ ?_
        · rcases hnext with h | h | h | h <;> simp only [h] <;> decide
        · rcases hnext with h | h | h | h <;>
          · simp only [h, Bool.and_false, Bool.false_eq_true, if_false]
            exact hpair
      · refine .nextKind_bind_any hline fun kind => ?_
        simp only [hident, decide_false, Bool.false_and, Bool.false_eq_true, if_false]
        exact hpair

theorem takes_dict {pos : Position} {entries : List DictEntry}
    (hentries : ∀ entry ∈ entries,
      IsItem DictEntry.unplaced (dictEntry g) .rbrace entry.tokens entry.reread)
    (htokens : ts.map shape = mark .hash :: mark .lbrace
      :: (commas (entries.map DictEntry.tokens) ++ [mark .rbrace])) :
    Takes Expr.unplaced (operand g) ts rest (.dict pos (entries.map DictEntry.reread)) := by
  obtain ⟨hash, us, rfl, hhash, hopen⟩ := List.map_eq_cons_iff.1 htokens
  obtain ⟨l, us, rfl, hl, hbody⟩ := List.map_eq_cons_iff.1 hopen
  obtain ⟨ts, us, rfl, hts, hend⟩ := List.map_eq_append_iff.1 hbody
  obtain ⟨r, rfl, hr⟩ := List.map_eq_singleton_iff.1 hend
  have hhash : hash.kind = .hash := congrArg Prod.fst hhash
  have hl : l.kind = .lbrace := congrArg Prod.fst hl
  have hr : r.kind = .rbrace := congrArg Prod.fst hr
  unfold operand
  refine .current_bind (by rw [hhash]; decide) ?_
  simp only [hhash]
  unfold dict
  refine .advance_bind (by rw [hhash]; rfl) ?_
  refine .expect_bind hl rfl ?_
  refine .nested ?_
  refine .bind (takes_itemsUntil hr rfl (by decide) hentries hts) fun entries' hentries' => ?_
  refine .expect_bind hr rfl ?_
  refine .pure ?_
  simp only [Expr.unplaced, DictEntry.listUnplaced_eq, hentries']

/-! ## Prefix operators and arguments -/

theorem takes_unary {pos : Position} {op : PrefixOp} (he : IsRead g e)
    (htokens : ts.map shape = mark op.kind :: e.tokens) (hr : r.kind = .rparen) :
    Takes Expr.unplaced (operand g) ts (r :: rest) (.unary pos op e.reread) := by
  obtain ⟨t, us, rfl, ht, hus⟩ := List.map_eq_cons_iff.1 htokens
  have hkind : t.kind = op.kind := congrArg Prod.fst ht
  have hsolid : isSolid t.kind = true := by
    rw [hkind]
    cases op <;> rfl
  have hresult (e' : Expr) (he' : e'.unplaced = e.reread.unplaced) :
      Takes Expr.unplaced (Pure.pure (.unary t.pos op e')) [] (r :: rest) (.unary pos op e.reread) :=
    .pure (by simp only [Expr.unplaced, he'])
  have hvalue : Takes Expr.unplaced (g.expression .prefixOp) us (r :: rest) e.reread :=
    he.takes hus (by decide) (by rw [hr]; rfl)
  unfold operand
  refine .current_bind (ne_newline_of_isSolid hsolid) ?_
  rw [hkind]
  cases op <;> exact .advance_bind hsolid (.bind_last hvalue hresult)

/-- An argument, spread or not. -/
theorem isItem_arg (he : IsRead g e.passed) :
    IsItem Expr.unplaced (argument g) .rparen e.tokens e.reread := by
  have hplain {e : Expr} (he : IsRead g e) :
      IsItem Expr.unplaced (argument g) .rparen e.tokens e.reread := by
    have hitem : IsItem Expr.unplaced (g.expression .lowest) .rparen e.tokens e.reread :=
      he.isItem rfl rfl
    refine ⟨hitem.starts, ?_⟩
    intro ts rest next hts hnext
    have hne : headKind (ts ++ next :: rest) ≠ .ellipsis := he.headKind_ne hts _ rfl
    unfold argument
    refine .atKind_bind (he.headKind_ne hts _ rfl) ?_
    simp only [hne, decide_false, Bool.false_eq_true, if_false]
    exact hitem.takes hts hnext
  cases e with
  | spread pos value =>
    refine ⟨⟨_, _, rfl, by decide, by decide⟩, fun htokens hnext => ?_⟩
    obtain ⟨dots, us, rfl, hmark, hus⟩ := List.map_eq_cons_iff.1 htokens
    have hdots : dots.kind = .ellipsis := congrArg Prod.fst hmark
    have hitem : IsItem Expr.unplaced (g.expression .lowest) .rparen value.tokens value.reread :=
      he.isItem rfl rfl
    unfold argument
    refine .atKind_bind (by simp [hdots]) ?_
    simp only [List.cons_append, headKind_cons, hdots, decide_true, if_true]
    refine .advance_bind (by rw [hdots]; rfl) ?_
    refine .bind_last (hitem.takes hus hnext) fun value' hvalue' => ?_
    exact .pure (by simp only [Expr.unplaced, Expr.reread, hvalue'])
  | _ => exact hplain he

/-! ## Cases -/

theorem takes_matchResult (he : IsRead g e)
    (htokens : ts.map shape = mark .lbrace :: (e.tokens ++ [mark .rbrace])) :
    Takes Expr.unplaced (matchResult g) ts rest e.reread := by
  obtain ⟨l, us, rfl, hl, hbody⟩ := List.map_eq_cons_iff.1 htokens
  obtain ⟨ts, us, rfl, hts, hend⟩ := List.map_eq_append_iff.1 hbody
  obtain ⟨r, rfl, hr⟩ := List.map_eq_singleton_iff.1 hend
  have hl : l.kind = .lbrace := congrArg Prod.fst hl
  have hr : r.kind = .rbrace := congrArg Prod.fst hr
  have hhead : (headKind ((ts ++ [r]) ++ rest)).isSeparator = false := by
    rw [List.append_assoc]
    have hstart := he.isOperandStart hts ([r] ++ rest)
    generalize headKind (ts ++ ([r] ++ rest)) = kind at hstart
    cases kind <;> first
      | rfl
      | cases hstart
  unfold matchResult
  refine .expect_bind hl rfl ?_
  refine .skipSeparators_bind hhead ?_
  refine .bind (he.takes hts (by decide) (by rw [hr]; rfl)) fun e' he' => ?_
  refine .skipSeparators_bind (by simp [hr, Token.Kind.isSeparator]) ?_
  refine .expect_bind hr rfl ?_
  exact .pure he'

/-- A step of the loop over the cases and the defaults of a `switch` or a `match`. -/
def armStep {α β : Type} (construct : String) (caseArm : Token → Parse α) (defaultArm : Parse β) :
    Parse (Option (α ⊕ β)) := do
  skipSeparators
  match ← currentKind with
  | .rbrace => return none
  | .kwCase =>
    let word ← advance
    return some (Sum.inl (← caseArm word))
  | .kwDefault =>
    let _ ← advance
    return some (Sum.inr (← defaultArm))
  | kind => fail (.strayWithin construct kind) (← current)

theorem arms_eq {α β : Type} (construct : String) (caseArm : Token → Parse α)
    (defaultArm : Parse β) : arms construct caseArm defaultArm = (do
      let found ← many (armStep construct caseArm defaultArm)
      let _ ← expect .rbrace s!"to close {construct}"
      return (found.filterMap Sum.getLeft?, (found.filterMap Sum.getRight?).getLast?)) := rfl

section Arms

/-- The arms of a `switch` or a `match`: how their cases and their default are printed, and what they
    are read as. -/
structure Arms (α β κ μ : Type) where
  view : α → κ
  defaultView : β → μ
  caseTokens : α → List Shape
  defaultTokens : β → List Shape
  value : α → α
  defaultValue : β → β

variable {α β κ μ : Type} (arms : Arms α β κ μ) {construct : String} {caseArm : Token → Parse α}
variable {defaultArm : Parse β} {cases : List α} {fallback : Option β}

/-- The view of what one step of the loop gives. -/
abbrev Arms.found : α ⊕ β → κ ⊕ μ := Sum.map arms.view arms.defaultView

/-- The cases and the default of a `switch` or a `match` are read one after the other. -/
theorem rounds_arms (hr : r.kind = .rbrace)
    (hstarts : ∀ a ∈ cases, ∃ tail, arms.caseTokens a = mark .kwCase :: tail)
    (hcase : ∀ a ∈ cases, ∀ word ts t rest, (word :: ts).map shape = arms.caseTokens a →
      Takes arms.view (caseArm word) ts (t :: rest) (arms.value a))
    (hdefault : ∀ b ∈ fallback, ∀ ts t rest, ts.map shape = arms.defaultTokens b →
      Takes arms.defaultView defaultArm ts (t :: rest) (arms.defaultValue b))
    (htokens : ts.map shape = cases.flatMap arms.caseTokens
      ++ fallback.toList.flatMap fun b => mark .kwDefault :: arms.defaultTokens b) :
    Rounds arms.found (armStep construct caseArm defaultArm) (r :: rest) ts
      ((cases.map arms.value).map .inl ++ (fallback.map arms.defaultValue).toList.map .inr) := by
  -- the brace behind the arms ends the list
  have hstop : Rounds arms.found (armStep construct caseArm defaultArm) (r :: rest) [] [] := by
    refine .stop (by simp) ?_
    unfold armStep
    refine .skipSeparators_bind (by simp [hr, Token.Kind.isSeparator]) ?_
    refine .currentKind_bind (by simp [hr]) ?_
    simp only [List.nil_append, headKind_cons, hr]
    exact .pure rfl
  induction cases generalizing ts with
  | nil =>
    cases fallback with
    | none =>
      obtain rfl := List.map_eq_nil_iff.1 htokens
      exact hstop
    | some b =>
      simp only [List.flatMap_nil, List.nil_append, Option.toList_some, List.flatMap_cons,
        List.append_nil] at htokens
      obtain ⟨word, us, rfl, hmark, hus⟩ := List.map_eq_cons_iff.1 htokens
      have hword : word.kind = .kwDefault := congrArg Prod.fst hmark
      rw [← List.append_nil (word :: us)]
      refine .go (by simp) ?_ hstop
      unfold armStep
      refine .skipSeparators_bind (by simp [hword, Token.Kind.isSeparator]) ?_
      refine .currentKind_bind (by simp [hword]) ?_
      simp only [List.cons_append, headKind_cons, hword]
      refine .advance_bind (by rw [hword]; rfl) ?_
      refine .bind_last (hdefault b rfl us _ _ hus) fun b' hb' => ?_
      exact .pure (by simp [hb'])
  | cons a cases ih =>
    rw [List.forall_mem_cons] at hcase hstarts
    rw [List.flatMap_cons, List.append_assoc] at htokens
    obtain ⟨ts, us, rfl, hts, hus⟩ := List.map_eq_append_iff.1 htokens
    obtain ⟨tail, htail⟩ := hstarts.1
    obtain ⟨word, ts, rfl, hmark, -⟩ := List.map_eq_cons_iff.1 (hts.trans htail)
    have hword : word.kind = .kwCase := congrArg Prod.fst hmark
    -- a case is never the last token
    have hnext : ∃ t behind, us ++ r :: rest = t :: behind := by
      cases us with
      | nil => exact ⟨r, rest, rfl⟩
      | cons t us => exact ⟨t, us ++ r :: rest, rfl⟩
    obtain ⟨t, behind, hnext⟩ := hnext
    refine .go (by simp) ?_ (ih hstarts.2 hcase.2 hus)
    unfold armStep
    refine .skipSeparators_bind (by simp [hword, Token.Kind.isSeparator]) ?_
    refine .currentKind_bind (by simp [hword]) ?_
    simp only [List.cons_append, headKind_cons, hword]
    refine .advance_bind (by rw [hword]; rfl) ?_
    rw [hnext]
    refine .bind_last (hcase.1 word ts t behind hts) fun a' ha' => ?_
    exact .pure (by simp [ha'])

/-- What is found is parted into cases and defaults, of which the last one counts. -/
theorem view_found {found : List (α ⊕ β)}
    (h : found.map arms.found = (cases.map Sum.inl ++ fallback.toList.map Sum.inr).map arms.found) :
    (found.filterMap Sum.getLeft?).map arms.view = cases.map arms.view
      ∧ (found.filterMap Sum.getRight?).getLast?.map arms.defaultView
        = fallback.map arms.defaultView := by
  have hleft (found : List (α ⊕ β)) : (found.filterMap Sum.getLeft?).map arms.view
      = (found.map arms.found).filterMap Sum.getLeft? := by
    rw [List.map_filterMap, List.filterMap_map]
    congr 1
    funext x
    cases x <;> rfl
  have hright (found : List (α ⊕ β)) : (found.filterMap Sum.getRight?).map arms.defaultView
      = (found.map arms.found).filterMap Sum.getRight? := by
    rw [List.map_filterMap, List.filterMap_map]
    congr 1
    funext x
    cases x <;> rfl
  rw [← List.getLast?_map, hleft, hright, h, ← hleft, ← hright]
  cases fallback <;> simp [List.filterMap_append, List.filterMap_map, Function.comp_def]

/-- The cases and the default of a `switch` or a `match`, up to the closing brace. -/
theorem takes_arms (hr : r.kind = .rbrace)
    (hstarts : ∀ a ∈ cases, ∃ tail, arms.caseTokens a = mark .kwCase :: tail)
    (hcase : ∀ a ∈ cases, ∀ word ts t rest, (word :: ts).map shape = arms.caseTokens a →
      Takes arms.view (caseArm word) ts (t :: rest) (arms.value a))
    (hdefault : ∀ b ∈ fallback, ∀ ts t rest, ts.map shape = arms.defaultTokens b →
      Takes arms.defaultView defaultArm ts (t :: rest) (arms.defaultValue b))
    (htokens : ts.map shape = cases.flatMap arms.caseTokens
      ++ fallback.toList.flatMap fun b => mark .kwDefault :: arms.defaultTokens b) :
    Takes (Prod.map (List.map arms.view) (Option.map arms.defaultView))
      (Parser.arms construct caseArm defaultArm) (ts ++ [r]) rest
      (cases.map arms.value, fallback.map arms.defaultValue) := by
  rw [arms_eq]
  refine .bind (rounds_arms arms hr hstarts hcase hdefault htokens).many fun found hfound => ?_
  obtain ⟨hcases, hlast⟩ := view_found arms hfound
  refine .expect_bind hr rfl (.pure ?_)
  rw [Prod.map_apply, Prod.map_apply, hcases, hlast]

end Arms

/-- The values of a case, in front of its brace. -/
theorem takes_caseValues {values : List Expr} (hne : values ≠ []) (hvalues : ∀ e ∈ values, IsRead g e)
    (hts : ts.map shape = commas (values.map Expr.tokens)) (ht : t.kind = .lbrace) :
    Takes (List.map Expr.unplaced) (caseValues g) ts (t :: rest) (values.map Expr.reread) :=
  takes_commaSeparated ht (by decide) (by decide) (fun e he => (hvalues e he).isItem rfl rfl) hne hts

theorem takes_select {pos : Position} {value : Expr} {cases : List MatchArm}
    {fallback : Option Expr} (hvalue : IsRead g value)
    (hne : ∀ pos values result, .mk pos values result ∈ cases → values ≠ [])
    (hvalues : ∀ pos values result, .mk pos values result ∈ cases → ∀ e ∈ values, IsRead g e)
    (hresult : ∀ pos values result, .mk pos values result ∈ cases → IsRead g result)
    (hfallback : ∀ e ∈ fallback, IsRead g e)
    (htokens : ts.map shape = mark .kwMatch :: mark .lparen :: (value.tokens ++ (mark .rparen
      :: mark .lbrace :: (cases.flatMap MatchArm.tokens
        ++ (Expr.tokensBetween [mark .kwDefault, mark .lbrace] [mark .rbrace] fallback
          ++ [mark .rbrace]))))) :
    Takes Expr.unplaced (operand g) ts rest
      (.select pos value.reread (cases.map MatchArm.reread) (fallback.map Expr.reread)) := by
  let arms : Arms MatchArm Expr MatchArm Expr :=
    { view := MatchArm.unplaced
      defaultView := Expr.unplaced
      caseTokens := MatchArm.tokens
      defaultTokens := fun e => mark .lbrace :: (e.tokens ++ [mark .rbrace])
      value := MatchArm.reread
      defaultValue := Expr.reread }
  -- the default, if there is one, is the last of the arms
  have hbetween : Expr.tokensBetween [mark .kwDefault, mark .lbrace] [mark .rbrace] fallback
      = fallback.toList.flatMap fun b => mark .kwDefault :: arms.defaultTokens b := by
    cases fallback <;> simp [Expr.tokensBetween, arms]
  rw [hbetween, ← List.append_assoc (cases.flatMap _)] at htokens
  obtain ⟨word, us, rfl, hword, hopen⟩ := List.map_eq_cons_iff.1 htokens
  obtain ⟨l, us, rfl, hl, hbody⟩ := List.map_eq_cons_iff.1 hopen
  obtain ⟨ts, us, rfl, hts, hbehind⟩ := List.map_eq_append_iff.1 hbody
  obtain ⟨r, us, rfl, hr, hblock⟩ := List.map_eq_cons_iff.1 hbehind
  obtain ⟨lb, us, rfl, hlb, harms⟩ := List.map_eq_cons_iff.1 hblock
  obtain ⟨us, vs, rfl, hus, hend⟩ := List.map_eq_append_iff.1 harms
  obtain ⟨rb, rfl, hrb⟩ := List.map_eq_singleton_iff.1 hend
  have hword : word.kind = .kwMatch := congrArg Prod.fst hword
  have hl : l.kind = .lparen := congrArg Prod.fst hl
  have hr : r.kind = .rparen := congrArg Prod.fst hr
  have hlb : lb.kind = .lbrace := congrArg Prod.fst hlb
  have hrb : rb.kind = .rbrace := congrArg Prod.fst hrb
  unfold operand
  refine .current_bind (by rw [hword]; decide) ?_
  simp only [hword]
  unfold select
  refine .advance_bind (by rw [hword]; rfl) ?_
  refine .expect_bind hl rfl ?_
  have hcondition : Takes Expr.unplaced (nested do
      let value ← g.expression .lowest
      let _ ← expect .rparen "after match value"
      return value) (ts ++ [r]) (lb :: (us ++ [rb]) ++ rest) value.reread := by
    refine .nested (.bind (hvalue.takes hts (by decide) (by rw [hr]; rfl)) fun value' hvalue' => ?_)
    refine .expect_bind hr rfl ?_
    exact .pure hvalue'
  rw [List.append_cons]
  refine .bind hcondition fun value' hvalue' => ?_
  refine .expect_bind hlb rfl ?_
  refine .asStatements ?_
  -- a case is read from its own tokens, and so is the default
  have hcase : ∀ arm ∈ cases, ∀ word ts t rest, (word :: ts).map shape = arm.tokens →
      Takes MatchArm.unplaced (do
        let values ← caseValues g
        return MatchArm.mk word.pos values (← matchResult g)) ts (t :: rest) arm.reread := by
    intro arm harm word ts t rest htokens
    obtain ⟨pos, values, result⟩ := arm
    have hvalues := hvalues pos values result harm
    rw [MatchArm.tokens, Expr.listTokens_eq] at htokens
    obtain ⟨-, hbody⟩ := List.cons.inj htokens
    obtain ⟨ts, us, rfl, hts, hus⟩ := List.map_eq_append_iff.1 hbody
    obtain ⟨l, us', rfl, hmark, -⟩ := List.map_eq_cons_iff.1 hus
    have hl : l.kind = .lbrace := congrArg Prod.fst hmark
    refine .bind (takes_caseValues (hne pos values result harm) hvalues hts hl)
      fun values' hvalues' => ?_
    refine .bind_last (takes_matchResult (hresult pos values result harm) hus)
      fun result' hresult' => ?_
    refine .pure ?_
    simp only [MatchArm.unplaced, MatchArm.reread, Expr.listUnplaced_eq, Expr.listReread_eq,
      hvalues', hresult']
  have hstarts : ∀ arm ∈ cases, ∃ tail, arm.tokens = mark .kwCase :: tail := by
    rintro ⟨pos, values, result⟩ -
    exact ⟨_, rfl⟩
  have hdefault : ∀ e ∈ fallback, ∀ ts t rest,
      ts.map shape = mark .lbrace :: (e.tokens ++ [mark .rbrace]) →
      Takes Expr.unplaced (matchResult g) ts (t :: rest) e.reread :=
    fun e he ts t rest htokens => takes_matchResult (hfallback e he) htokens
  refine .bind_last (takes_arms arms hrb hstarts hcase hdefault hus) fun found hfound => ?_
  obtain ⟨cases', fallback'⟩ := found
  obtain ⟨hcases', hlast'⟩ := Prod.mk.inj hfound
  refine .pure ?_
  have hcases : cases'.map MatchArm.unplaced = (cases.map MatchArm.reread).map MatchArm.unplaced :=
    hcases'
  have hlast : fallback'.map Expr.unplaced = (fallback.map Expr.reread).map Expr.unplaced := hlast'
  simp only [Expr.unplaced, MatchArm.listUnplaced_eq, Expr.optionUnplaced_eq, hvalue', hcases, hlast]

end Welle.Parser
