import Welle.Proofs.Printing.Quoting
import Welle.Proofs.Printing.Tokens

set_option autoImplicit false

/-! # Printed text is read as its tokens

`Lexes` says that a text is read as some tokens whatever stands apart behind it, so that it can be put
between other texts. Each form of expression and statement is written from texts of its parts, and its
tokens are theirs with those of the words and brackets around them. -/

namespace Welle

open Token (Shape mark lex shape Apart)

namespace Token

/-- A text is read as some tokens, whatever stands apart behind it. -/
def Lexes (text : List Char) (ss : List Shape) : Prop :=
  ∀ rest, Apart rest → lex (text ++ rest) = ss ++ lex rest

section Lists

variable {α : Type} {render : α → String} {tokens : α → List Shape} {items : List α}

/-- Texts with a separator and a space between them. -/
theorem lexes_join {sep : String} {c : Char} {s : Shape} (hsep : sep.toList = [c, ' '])
    (hc : isEnding c = true) (hlex : ∀ cs, lex (c :: cs) = s :: lex cs) {a : α}
    (h : ∀ b ∈ a :: items, Lexes (render b).toList (tokens b)) :
    Lexes (Text.join sep ((a :: items).map render)).toList
      (tokens a ++ (items.map tokens).flatMap (s :: ·)) := by
  intro rest hrest
  induction items generalizing a with
  | nil => simpa [Text.join] using h a List.mem_cons_self rest hrest
  | cons b items ih =>
    rw [List.forall_mem_cons] at h
    have ih := ih h.2
    simp only [List.map_cons, Text.join, String.toList_append, hsep, List.append_assoc,
      List.cons_append, List.nil_append, List.flatMap_cons] at ih ⊢
    rw [h.1 _ (apart_cons hc _), hlex, lex_space, ih]

theorem lexes_commas (h : ∀ a ∈ items, Lexes (render a).toList (tokens a)) :
    Lexes (Literal.commas (items.map render)).toList (commas (items.map tokens)) := by
  cases items with
  | nil => exact fun _ _ => rfl
  | cons a items => exact lexes_join rfl rfl lex_comma h

/-- A block ends with a brace, so any text may stand behind it. -/
theorem lex_renderBlock (h : ∀ a ∈ items, Lexes (render a).toList (tokens a)) (rest : List Char) :
    lex ((renderBlock (items.map render)).toList ++ rest)
      = blockTokens (items.map tokens) ++ lex rest := by
  cases items with
  | nil =>
    simp only [List.map_nil, renderBlock, Literal.braced, blockTokens, String.reduceAppend,
      String.reduceToList, List.cons_append, List.nil_append]
    rw [lex_lbrace, lex_rbrace]
  | cons a items =>
    have hjoin := lexes_join (show "; ".toList = [';', ' '] from rfl) rfl lex_semicolon h
    rw [List.map_cons] at hjoin ⊢
    simp only [renderBlock, Literal.braced, blockTokens, List.map_cons, String.toList_append,
      String.reduceToList, List.append_assoc, List.cons_append, List.nil_append]
    rw [lex_lbrace, lex_space, hjoin _ (apart_cons rfl _), lex_space, lex_rbrace]
    simp only [List.append_assoc]

theorem lexes_tuple (h : ∀ a ∈ items, Lexes (render a).toList (tokens a)) (rest : List Char) :
    lex ((renderTuple (items.map render)).toList ++ rest)
      = mark .lparen :: (tupleTokens (items.map tokens) ++ [mark .rparen]) ++ lex rest := by
  have hcommas : renderTuple (items.map render) = "(" ++ Literal.commas (items.map render) ++ ")"
      → tupleTokens (items.map tokens) = commas (items.map tokens) →
      lex ((renderTuple (items.map render)).toList ++ rest)
        = mark .lparen :: (tupleTokens (items.map tokens) ++ [mark .rparen]) ++ lex rest := by
    intro htext htokens
    rw [htext, htokens]
    simp only [String.toList_append, String.reduceToList, List.append_assoc, List.cons_append,
      List.nil_append]
    rw [lex_lparen, lexes_commas h _ (apart_cons rfl _), lex_rparen]
  match items, h with
  | [], _ => exact hcommas rfl rfl
  | [a], h =>
    simp only [List.map_cons, List.map_nil, renderTuple, tupleTokens, String.toList_append,
      String.reduceToList, List.append_assoc, List.cons_append, List.nil_append]
    rw [lex_lparen, h a List.mem_cons_self _ (apart_cons rfl _), lex_comma, lex_rparen]
  | a :: b :: items, _ => exact hcommas rfl rfl

end Lists

variable {rest : List Char}

/-- No equals sign starts the text of an expression. -/
theorem Starts.head?_ne {text : List Char} {ss : List Shape} (hstarts : Starts ss)
    (h : Lexes text ss) (hrest : Apart rest) : (text ++ rest).head? ≠ some '=' := by
  obtain ⟨s, tail, rfl, hs, -⟩ := hstarts
  refine head?_ne_of_lex (h rest hrest) ?_ ?_
  all_goals
    intro hkind
    rw [hkind] at hs
    cases hs

section Parts

variable {part : Option Expr} (hstarts : ∀ e ∈ part, Starts e.tokens)
  (h : ∀ e ∈ part, Lexes e.render.toList e.tokens)

include hstarts h

theorem lexes_between {before behind : String} {pre post : List Shape}
    (hbefore : ∀ cs, cs.head? ≠ some '=' → lex (before.toList ++ cs) = pre ++ lex cs)
    (hbehind : ∀ cs, Apart cs →
      Apart (behind.toList ++ cs) ∧ lex (behind.toList ++ cs) = post ++ lex cs) :
    Lexes (Expr.renderBetween before behind part).toList (Expr.tokensBetween pre post part) := by
  intro rest hrest
  cases part with
  | none => rfl
  | some e =>
    obtain ⟨hapart, hlex⟩ := hbehind rest hrest
    have hhead := (hstarts e rfl).head?_ne (h e rfl) hapart
    simp only [Expr.renderBetween, Expr.tokensBetween, String.toList_append, List.append_assoc]
    rw [hbefore _ hhead, h e rfl _ hapart, hlex]

theorem lexes_part :
    Lexes (Expr.renderBetween "" "" part).toList (Expr.tokensBetween [] [] part) :=
  lexes_between hstarts h (fun _ _ => rfl) fun _ hcs => ⟨hcs, rfl⟩

theorem head?_part_ne (hrest : Apart rest) (hne : rest.head? ≠ some '=') :
    ((Expr.renderBetween "" "" part).toList ++ rest).head? ≠ some '=' := by
  cases part with
  | none => exact hne
  | some e => simpa [Expr.renderBetween] using (hstarts e rfl).head?_ne (h e rfl) hrest

end Parts

theorem lexes_arg {e : Expr} (h : Lexes e.passed.render.toList e.passed.tokens) :
    Lexes e.render.toList e.tokens := by
  intro rest hrest
  cases e with
  | spread pos value =>
    simp only [Expr.render, Expr.tokens, String.toList_append, String.reduceToList,
      List.cons_append, List.nil_append]
    rw [lex_ellipsis]
    exact congrArg _ (h rest hrest)
  | _ => exact h rest hrest

theorem lexes_entry {entry : DictEntry} (hname : ∀ id, entry = .shorthand id → IsName id.name)
    (hkey : ∀ key value, entry = .pair key value → Lexes key.render.toList key.tokens)
    (hvalue : ∀ key value, entry = .pair key value → Lexes value.render.toList value.tokens) :
    Lexes entry.render.toList entry.tokens := by
  intro rest hrest
  cases entry with
  | shorthand id =>
    rw [DictEntry.render, lex_word (hname id rfl).word hrest, (hname id rfl).kind]
    rfl
  | pair key value =>
    simp only [DictEntry.render, DictEntry.tokens, String.toList_append, String.reduceToList,
      List.append_assoc, List.cons_append, List.nil_append]
    rw [hkey key value rfl _ (apart_cons rfl _), lex_colon (by simp), lex_space,
      hvalue key value rfl _ hrest]

/-- A member behind a number is not read as its fraction. -/
theorem apart_member {name : String} (h : IsWordText name.toList) (rest : List Char) :
    Apart ('.' :: (name.toList ++ rest)) ∧ (name.toList ++ rest).head? ≠ some '.' := by
  obtain ⟨c, hhead, hstart⟩ := h.starts
  obtain ⟨cs, hcs⟩ : ∃ cs, name.toList = c :: cs := List.head?_eq_some_iff.1 hhead
  rw [hcs]
  refine ⟨⟨⟨?_, ?_⟩, by simp⟩, ?_⟩
  · intro d hd
    rw [← Option.some.inj hd]
    rfl
  · intro d ds heq
    obtain rfl := (List.cons.inj (List.cons.inj heq).2).1
    exact not_isDigit_of_isIdentStart hstart
  · intro heq
    obtain rfl := Option.some.inj heq
    cases hstart

/-- Cases of a `match` expression start with a space and end with a brace, so any text may stand
    around them. -/
theorem lex_arms {arms : List MatchArm}
    (hvalues : ∀ pos values result, .mk pos values result ∈ arms →
      ∀ e ∈ values, Lexes e.render.toList e.tokens)
    (hresult : ∀ pos values result, .mk pos values result ∈ arms →
      Lexes result.render.toList result.tokens) (rest : List Char) :
    lex ((String.join (arms.map MatchArm.render)).toList ++ rest)
      = arms.flatMap MatchArm.tokens ++ lex rest := by
  induction arms with
  | nil => rfl
  | cons arm arms ih =>
    obtain ⟨pos, values, result⟩ := arm
    have ih := ih (fun _ _ _ h => hvalues _ _ _ (List.mem_cons_of_mem _ h))
      fun _ _ _ h => hresult _ _ _ (List.mem_cons_of_mem _ h)
    have hvalues := hvalues _ _ _ List.mem_cons_self
    have hresult := hresult _ _ _ List.mem_cons_self
    simp only [List.map_cons, String.join_cons, MatchArm.render, Expr.renderAll_eq, Literal.braced,
      List.flatMap_cons, MatchArm.tokens, Expr.listTokens_eq, String.toList_append,
      String.reduceToList, List.append_assoc, List.cons_append, List.nil_append]
    rw [lex_space, lex_case, lexes_commas hvalues _ (apart_cons rfl _), lex_space, lex_lbrace,
      lex_space, hresult _ (apart_cons rfl _), lex_space, lex_rbrace, ih]

/-! ### Names -/

theorem head?_word_ne {word : String} (h : IsWordText word.toList) :
    (word.toList ++ rest).head? ≠ some '=' := by
  obtain ⟨c, hhead, hstart⟩ := h.starts
  obtain ⟨cs, hcs⟩ : ∃ cs, word.toList = c :: cs := List.head?_eq_some_iff.1 hhead
  rw [hcs]
  intro heq
  obtain rfl := Option.some.inj heq
  cases hstart

theorem lex_name {id : Ident} (h : IsName id.name) (hrest : Apart rest) :
    lex (id.name.toList ++ rest) = nameToken id :: lex rest := by
  rw [lex_word h.word hrest, h.kind]
  rfl

theorem lex_params {params : List Ident} (h : ∀ id ∈ params, IsName id.name) (rest : List Char) :
    lex ((renderParams params).toList ++ rest) = paramTokens params ++ lex rest := by
  have hnames : ∀ id ∈ params, Lexes id.name.toList [nameToken id] :=
    fun id hid _ hrest => lex_name (h id hid) hrest
  simp only [renderParams, paramTokens, String.toList_append, String.reduceToList,
    List.append_assoc, List.cons_append, List.nil_append]
  rw [lex_lparen, lexes_commas hnames _ (apart_cons rfl _), lex_rparen]

theorem apart_params (params : List Ident) (cs : List Char) :
    Apart ((renderParams params).toList ++ cs) := by
  simp only [renderParams, String.toList_append, String.reduceToList, List.append_assoc,
    List.cons_append]
  exact apart_cons rfl _

theorem lex_funcWord (hrest : Apart rest) :
    lex ('f' :: 'u' :: 'n' :: 'c' :: rest) = mark .kwFunc :: lex rest :=
  @lex_keyword _ .kwFunc rfl hrest

theorem apart_as (name : Option Ident) (hrest : Apart rest) :
    Apart ((renderAs name).toList ++ rest) := by
  cases name with
  | none => exact hrest
  | some id =>
    simp only [renderAs, String.toList_append, String.reduceToList, List.cons_append]
    exact apart_cons rfl _

theorem lexes_as {name : Option Ident} (h : ∀ id ∈ name, IsName id.name) :
    Lexes (renderAs name).toList (asTokens name) := by
  intro rest hrest
  cases name with
  | none => rfl
  | some id =>
    simp only [renderAs, asTokens, String.toList_append, String.reduceToList, List.cons_append,
      List.nil_append]
    rw [lex_space, lex_as, lex_name (h id rfl) hrest]

theorem lex_caught {name : Option Ident} (h : ∀ id ∈ name, IsName id.name) (rest : List Char) :
    lex ((renderCaught name).toList ++ rest) = caughtTokens name ++ lex rest := by
  cases name with
  | none => rfl
  | some id =>
    simp only [renderCaught, caughtTokens, String.toList_append, String.reduceToList,
      List.append_assoc, List.cons_append, List.nil_append]
    rw [lex_lparen, lex_name (h id rfl) (apart_cons rfl _), lex_rparen, lex_space]

theorem lexes_loopNames {key : Ident} {value : Option Ident} (hkey : IsName key.name)
    (hvalue : ∀ id ∈ value, IsName id.name) :
    Lexes (renderLoopNames key value).toList (loopTokens key value) := by
  intro rest hrest
  cases value with
  | none => exact lex_name hkey hrest
  | some id =>
    simp only [renderLoopNames, loopTokens, String.toList_append, String.reduceToList,
      List.append_assoc, List.cons_append, List.nil_append]
    rw [lex_lparen, lex_name hkey (apart_cons rfl _), lex_comma, lex_space,
      lex_name (hvalue id rfl) (apart_cons rfl _), lex_rparen]

theorem lexes_target {target : Target} (h : target.Printable) :
    Lexes target.render.toList target.tokens := by
  intro rest hrest
  cases target with
  | name id => exact lex_name h.1 hrest
  | discard pos =>
    have hword : IsWordText "_".toList := by
      simp only [String.reduceToList]
      exact ⟨⟨'_', rfl, by decide⟩, List.forall_mem_singleton.2 (by decide)⟩
    rw [Target.render, lex_word hword hrest]
    rfl
  | starred id =>
    simp only [Target.render, Target.tokens, String.toList_append, String.reduceToList,
      List.cons_append, List.nil_append]
    rw [lex_star (head?_word_ne h.word), lex_name h hrest]

theorem lexes_importItem {item : ImportItem} (h : item.Printable) :
    Lexes item.render.toList item.tokens := by
  intro rest hrest
  rw [ImportItem.render, String.toList_append, List.append_assoc,
    lex_name h.name (apart_as _ hrest), lexes_as h.asName _ hrest]
  rfl

/-! ### Blocks -/

theorem lex_block {body : Block} (h : ∀ s ∈ body.stmts, Lexes s.render.toList s.tokens)
    (rest : List Char) : lex (body.render.toList ++ rest) = body.tokens ++ lex rest := by
  obtain ⟨pos, stmts⟩ := body
  rw [Block.render, Stmt.renderAll_eq, Block.tokens_eq]
  exact lex_renderBlock h rest

theorem lex_blockBehind {before : String} {pre : List Shape} {body : Option Block}
    (hbefore : ∀ cs, lex (before.toList ++ cs) = pre ++ lex cs)
    (h : ∀ b ∈ body, ∀ s ∈ b.stmts, Lexes s.render.toList s.tokens) (rest : List Char) :
    lex ((Block.renderBehind before body).toList ++ rest)
      = Block.tokensBehind pre body ++ lex rest := by
  cases body with
  | none => rfl
  | some body =>
    simp only [Block.renderBehind, Block.tokensBehind, String.toList_append, List.append_assoc]
    rw [hbefore, lex_block (h body rfl)]

theorem lex_cases {cases : List SwitchCase}
    (hvalues : ∀ pos values body, .mk pos values body ∈ cases →
      ∀ e ∈ values, Lexes e.render.toList e.tokens)
    (hbody : ∀ pos values body, .mk pos values body ∈ cases →
      ∀ s ∈ body.stmts, Lexes s.render.toList s.tokens) (rest : List Char) :
    lex ((String.join (cases.map SwitchCase.render)).toList ++ rest)
      = cases.flatMap SwitchCase.tokens ++ lex rest := by
  induction cases with
  | nil => rfl
  | cons c cases ih =>
    obtain ⟨pos, values, body⟩ := c
    have ih := ih (fun _ _ _ h => hvalues _ _ _ (List.mem_cons_of_mem _ h))
      fun _ _ _ h => hbody _ _ _ (List.mem_cons_of_mem _ h)
    have hvalues := hvalues _ _ _ List.mem_cons_self
    have hbody := hbody _ _ _ List.mem_cons_self
    simp only [List.map_cons, String.join_cons, SwitchCase.render, Expr.renderAll_eq,
      List.flatMap_cons, SwitchCase.tokens, Expr.listTokens_eq, String.toList_append,
      String.reduceToList, List.append_assoc, List.cons_append, List.nil_append]
    rw [lex_space, lex_case, lexes_commas hvalues _ (apart_cons rfl _), lex_space, lex_block hbody,
      ih]

theorem lex_handler {handler : Option CatchClause}
    (hname : ∀ pos name body, .mk pos name body ∈ handler → ∀ id ∈ name, IsName id.name)
    (hbody : ∀ pos name body, .mk pos name body ∈ handler →
      ∀ s ∈ body.stmts, Lexes s.render.toList s.tokens) (rest : List Char) :
    lex ((CatchClause.renderOption handler).toList ++ rest)
      = CatchClause.optionTokens handler ++ lex rest := by
  cases handler with
  | none => rfl
  | some handler =>
    obtain ⟨pos, name, body⟩ := handler
    simp only [CatchClause.renderOption, CatchClause.render, CatchClause.optionTokens,
      CatchClause.tokens, String.toList_append, String.reduceToList, List.append_assoc,
      List.cons_append, List.nil_append]
    rw [lex_space, lex_catch, lex_caught (hname _ _ _ rfl), lex_block (hbody _ _ _ rfl)]

theorem lexes_stmtBehind {before : String} {pre : List Shape} {s : Option Stmt}
    (hbefore : ∀ cs, lex (before.toList ++ cs) = pre ++ lex cs)
    (h : ∀ s' ∈ s, Lexes s'.render.toList s'.tokens) :
    Lexes (Stmt.renderBehind before s).toList (Stmt.tokensBehind pre s) := by
  intro rest hrest
  cases s with
  | none => rfl
  | some s =>
    simp only [Stmt.renderBehind, Stmt.tokensBehind, String.toList_append, List.append_assoc]
    rw [hbefore, h s rfl _ hrest]

end Token

/-- A node is printed as a text that is read as its tokens. -/
def Node.Lexes : Node → Prop
  | .expr e => Token.Lexes e.render.toList e.tokens
  | .stmt s => Token.Lexes s.render.toList s.tokens

open Token in
theorem Node.Printable.lexes {n : Node} (h : n.Printable) : n.Lexes := by
  induction h with
  | ident hname => exact fun _ hrest => lex_name hname hrest
  | int _ => exact fun _ hrest => lex_number (Numeral.isDecimal_toString _) hrest
  | float _ => exact fun _ hrest => lex_number (Numeral.isDecimal_writeFloat _) hrest
  | str => exact fun _ hrest => lex_quote _ hrest
  | @bool _ value =>
    intro rest hrest
    cases value with
    | true => exact @lex_keyword _ .kwTrue rfl hrest
    | false => exact @lex_keyword _ .kwFalse rfl hrest
  | nil => exact fun _ hrest => @lex_keyword _ .kwNil rfl hrest
  | tuple _ ih =>
    intro rest hrest
    rw [Expr.render, Expr.tokens, Expr.renderAll_eq, Expr.listTokens_eq]
    exact lexes_tuple ih rest
  | list _ ih =>
    intro rest hrest
    simp only [Expr.render, Expr.tokens, Expr.renderAll_eq, Expr.listTokens_eq,
      String.toList_append, String.reduceToList, List.append_assoc, List.cons_append,
      List.nil_append]
    rw [lex_lbracket, lexes_commas ih _ (apart_cons rfl _), lex_rbracket]
  | dict hnames _ _ ihkey ihvalue =>
    intro rest hrest
    have hentries : ∀ entry ∈ _, Token.Lexes (DictEntry.render entry).toList entry.tokens :=
      fun entry hentry => lexes_entry (fun id heq => hnames id (heq ▸ hentry))
        (fun key value heq => ihkey key value (heq ▸ hentry))
        fun key value heq => ihvalue key value (heq ▸ hentry)
    simp only [Expr.render, Expr.tokens, DictEntry.renderAll_eq, DictEntry.listTokens_eq,
      Literal.braced, String.toList_append, String.reduceToList, List.append_assoc,
      List.cons_append, List.nil_append]
    rw [lex_hash, lex_lbrace, lexes_commas hentries _ (apart_cons rfl _), lex_rbrace]
  | unary hoperand ih =>
    intro rest hrest
    simp only [Expr.render, Expr.tokens, String.toList_append, String.reduceToList,
      List.append_assoc, List.cons_append, List.nil_append]
    rw [lex_lparen, lex_prefix _ (hoperand.starts.head?_ne ih (apart_cons rfl _)),
      ih _ (apart_cons rfl _), lex_rparen]
  | binary _ _ ihleft ihright =>
    intro rest hrest
    simp only [Expr.render, Expr.tokens, String.toList_append, String.reduceToList,
      List.append_assoc, List.cons_append, List.nil_append]
    rw [lex_lparen, ihleft _ (apart_cons rfl _), lex_space, lex_infix,
      ihright _ (apart_cons rfl _), lex_rparen]
  | ternary _ _ _ ihcond ihthen ihelse =>
    intro rest hrest
    simp only [Expr.render, Expr.tokens, String.toList_append, String.reduceToList,
      List.append_assoc, List.cons_append, List.nil_append]
    rw [lex_lparen, ihcond _ (apart_cons rfl _), lex_space, lex_question,
      ihthen _ (apart_cons rfl _), lex_space, lex_colon (by simp), lex_space,
      ihelse _ (apart_cons rfl _), lex_rparen]
  | conditional _ _ _ ihthen ihcond ihelse =>
    intro rest hrest
    simp only [Expr.render, Expr.tokens, String.toList_append, String.reduceToList,
      List.append_assoc, List.cons_append, List.nil_append]
    rw [lex_lparen, ihthen _ (apart_cons rfl _), lex_space, lex_if, ihcond _ (apart_cons rfl _),
      lex_space, lex_else, ihelse _ (apart_cons rfl _), lex_rparen]
  | assign _ _ _ ihtarget ihvalue =>
    intro rest hrest
    simp only [Expr.render, Expr.tokens, String.toList_append, String.reduceToList,
      List.append_assoc, List.cons_append, List.nil_append]
    rw [lex_lparen, ihtarget _ (apart_cons rfl _), lex_space, lex_assign,
      ihvalue _ (apart_cons rfl _), lex_rparen]
  | call _ _ ihcallee ihargs =>
    intro rest hrest
    have hargs : ∀ e ∈ _, Token.Lexes (Expr.render e).toList e.tokens :=
      fun e he => lexes_arg (ihargs e he)
    simp only [Expr.render, Expr.tokens, Expr.renderAll_eq, Expr.listTokens_eq,
      String.toList_append, String.reduceToList, List.append_assoc, List.cons_append,
      List.nil_append]
    rw [ihcallee _ (apart_cons rfl _), lex_lparen, lexes_commas hargs _ (apart_cons rfl _),
      lex_rparen]
  | index _ _ ihobject ihindex =>
    intro rest hrest
    simp only [Expr.render, Expr.tokens, String.toList_append, String.reduceToList,
      List.append_assoc, List.cons_append, List.nil_append]
    rw [lex_lparen, ihobject _ (apart_cons rfl _), lex_lbracket, ihindex _ (apart_cons rfl _),
      lex_rbracket, lex_rparen]
  | @slice _ _ _ _ step _ hlow hhigh hstep ihobject ihlow ihhigh ihstep =>
    intro rest hrest
    -- what stands behind the second bound goes on with neither a word nor the colon
    have hends (cs : List Char) : Apart ((Expr.renderBetween ":" "" step).toList ++ ']' :: cs)
        ∧ ((Expr.renderBetween ":" "" step).toList ++ ']' :: cs).head? ≠ some '=' := by
      cases step with
      | none => exact ⟨apart_cons rfl _, by simp [Expr.renderBetween]⟩
      | some e =>
        simp only [Expr.renderBetween, String.toList_append, String.reduceToList, List.cons_append]
        exact ⟨apart_cons rfl _, by simp⟩
    have hhigh' : ∀ e ∈ _, Token.Starts (Expr.tokens e) := fun e he => (hhigh e he).starts
    have hstep' : Token.Lexes (Expr.renderBetween ":" "" step).toList
        (Expr.tokensBetween [mark .colon] [] step) :=
      lexes_between (fun e he => (hstep e he).starts) ihstep (fun _ hne => lex_colon hne)
        fun _ hcs => ⟨hcs, rfl⟩
    simp only [Expr.render, Expr.tokens, String.toList_append, String.reduceToList,
      List.append_assoc, List.cons_append, List.nil_append]
    rw [lex_lparen, ihobject _ (apart_cons rfl _), lex_lbracket,
      lexes_part (fun e he => (hlow e he).starts) ihlow _ (apart_cons rfl _),
      lex_colon (head?_part_ne hhigh' ihhigh (hends _).1 (hends _).2),
      lexes_part hhigh' ihhigh _ (hends _).1, hstep' _ (apart_cons rfl _), lex_rbracket, lex_rparen]
  | member hword _ ih =>
    intro rest hrest
    obtain ⟨hapart, hdot⟩ := apart_member hword rest
    simp only [Expr.render, Expr.tokens, String.toList_append, String.reduceToList,
      List.append_assoc, List.cons_append, List.nil_append]
    rw [ih _ hapart, lex_dot hdot, lex_word hword hrest]
  | @comprehension _ _ var _ filter hname _ _ hfilter ihelem ihseq ihfilter =>
    intro rest hrest
    have hends (cs : List Char) :
        Apart ((Expr.renderBetween " if " "" filter).toList ++ ']' :: cs) := by
      cases filter with
      | none => exact apart_cons rfl _
      | some e =>
        simp only [Expr.renderBetween, String.toList_append, String.reduceToList, List.cons_append]
        exact apart_cons rfl _
    have hfilter' : Token.Lexes (Expr.renderBetween " if " "" filter).toList
        (Expr.tokensBetween [mark .kwIf] [] filter) := by
      refine lexes_between (fun e he => (hfilter e he).starts) ihfilter (fun cs _ => ?_)
        fun _ hcs => ⟨hcs, rfl⟩
      simp only [String.reduceToList, List.cons_append, List.nil_append]
      rw [lex_space, lex_if]
    simp only [Expr.render, Expr.tokens, String.toList_append, String.reduceToList,
      List.append_assoc, List.cons_append, List.nil_append]
    rw [lex_lbracket, ihelem _ (apart_cons rfl _), lex_space, lex_for,
      lex_word hname.word (apart_cons rfl _), hname.kind, lex_space, lex_in, ihseq _ (hends _),
      hfilter' _ (apart_cons rfl _), lex_rbracket]
  | @select _ _ _ fallback _ _ _ _ hfallback ihvalue ihvalues ihresult ihfallback =>
    intro rest hrest
    have hfallback' : Token.Lexes (Expr.renderBetween " default \x7b " " \x7d" fallback).toList
        (Expr.tokensBetween [mark .kwDefault, mark .lbrace] [mark .rbrace] fallback) := by
      refine lexes_between (fun e he => (hfallback e he).starts) ihfallback (fun cs _ => ?_)
        fun cs _ => ?_
      · simp only [String.reduceToList, List.cons_append, List.nil_append]
        rw [lex_space, lex_default, lex_lbrace, lex_space]
      · simp only [String.reduceToList, List.cons_append, List.nil_append]
        exact ⟨apart_cons rfl _, by rw [lex_space, lex_rbrace]⟩
    simp only [Expr.render, Expr.tokens, MatchArm.renderAll_eq, MatchArm.listTokens_eq,
      Literal.braced, String.toList_append, String.reduceToList, List.append_assoc,
      List.cons_append, List.nil_append]
    rw [lex_match, lex_lparen, ihvalue _ (apart_cons rfl _), lex_rparen, lex_space, lex_lbrace,
      lex_arms ihvalues ihresult, hfallback' _ (apart_cons rfl _), lex_space, lex_rbrace]
  | @template _ tag parts exprs hlength _ hembeds _ _ ihtag _ =>
    intro rest _
    -- the lexer passes over the sources, so the template ends at its own quote
    have hsources : ∀ source ∈ exprs.map Expr.render,
        Template.Passes Template.LexedComment 1 (source.toList ++ ['}']) := by
      intro source hsource
      obtain ⟨e, he, rfl⟩ := List.mem_map.1 hsource
      exact ((Template.embeds_iff_passes _).1 (hembeds e he)).1
    have hlength' : parts.length = (exprs.map Expr.render).length + 1 := by
      rwa [List.length_map]
    have hbody := Template.templateBody_of_passes hlength' hsources rest
    have htemplate := lex_template hbody
    rw [String.ofList_toList] at htemplate
    simp only [Expr.render, Expr.tokens, Expr.renderAll_eq, String.toList_append,
      String.reduceToList, List.append_assoc, List.cons_append, List.nil_append]
    cases tag with
    | none => exact htemplate
    | some e =>
      simp only [Expr.renderBetween, Expr.tokensBetween, String.toList_append, String.reduceToList,
        List.append_assoc, List.cons_append, List.nil_append]
      rw [ihtag e rfl _ (apart_cons rfl _), lex_space, htemplate]
  | func hparams _ ih =>
    intro rest _
    simp only [Expr.render, Expr.tokens, String.toList_append, String.reduceToList,
      List.append_assoc, List.cons_append, List.nil_append]
    rw [lex_funcWord (apart_params _ _), lex_params hparams, lex_space, lex_block ih]
  | simple _ _ ih => exact ih
  | assignStmt hname _ ih =>
    intro rest hrest
    simp only [Stmt.render, Stmt.tokens, String.toList_append, String.reduceToList,
      List.append_assoc, List.cons_append, List.nil_append]
    rw [lex_name hname (apart_cons rfl _), lex_space, lex_assign, ih _ hrest]
  | indexAssign _ _ _ _ ihobject ihindex ihvalue =>
    intro rest hrest
    simp only [Stmt.render, Stmt.tokens, String.toList_append, String.reduceToList,
      List.append_assoc, List.cons_append, List.nil_append]
    rw [ihobject _ (apart_cons rfl _), lex_lbracket, ihindex _ (apart_cons rfl _), lex_rbracket,
      lex_space, lex_assign, ihvalue _ hrest]
  | memberAssign _ hword _ _ ihobject ihvalue =>
    intro rest hrest
    simp only [Stmt.render, Stmt.tokens, String.toList_append, String.reduceToList,
      List.append_assoc, List.cons_append, List.nil_append]
    rw [ihobject _ (apart_member hword _).1, lex_dot (apart_member hword _).2,
      lex_word hword (apart_cons rfl _), lex_space, lex_assign, ihvalue _ hrest]
  | destructure _ _ _ htargets _ ih =>
    intro rest hrest
    have htargets' : ∀ target ∈ _, Token.Lexes (Target.render target).toList target.tokens :=
      fun target htarget => lexes_target (htargets target htarget)
    simp only [Stmt.render, Stmt.tokens, String.toList_append, String.reduceToList,
      List.append_assoc, List.cons_append, List.nil_append]
    rw [lex_lparen, lexes_commas htargets' _ (apart_cons rfl _), lex_rparen, lex_space, lex_assign,
      ih _ hrest]
  | @cond _ _ _ elseS _ _ _ _ ihtest ihthen ihelse =>
    intro rest hrest
    have helse : Token.Lexes (Stmt.renderBehind " else " elseS).toList
        (Stmt.tokensBehind [mark .kwElse] elseS) := by
      refine lexes_stmtBehind (fun cs => ?_) ihelse
      simp only [String.reduceToList, List.cons_append, List.nil_append]
      rw [lex_space, lex_else]
    -- without an `else` the text behind the statement follows its branch
    have hapart : Apart ((Stmt.renderBehind " else " elseS).toList ++ rest) := by
      cases elseS with
      | none => exact hrest
      | some s =>
        simp only [Stmt.renderBehind, String.toList_append, String.reduceToList, List.cons_append]
        exact apart_cons rfl _
    simp only [Stmt.render, Stmt.tokens, String.toList_append, String.reduceToList,
      List.append_assoc, List.cons_append, List.nil_append]
    rw [lex_if, lex_lparen, ihtest _ (apart_cons rfl _), lex_rparen, lex_space, ihthen _ hapart,
      helse _ hrest]
  | whileLoop _ _ ihtest ihbody =>
    intro rest _
    simp only [Stmt.render, Stmt.tokens, String.toList_append, String.reduceToList,
      List.append_assoc, List.cons_append, List.nil_append]
    rw [lex_while, lex_lparen, ihtest _ (apart_cons rfl _), lex_rparen, lex_space, lex_block ihbody]
  | forLoop _ _ _ htest _ _ ihinit ihtest ihpost ihbody =>
    intro rest _
    have hclause (cs : List Char) : lex ("".toList ++ cs) = [] ++ lex cs := rfl
    simp only [Stmt.render, Stmt.tokens, String.toList_append, String.reduceToList,
      List.append_assoc, List.cons_append, List.nil_append]
    rw [lex_for, lex_lparen, lexes_stmtBehind hclause ihinit _ (apart_cons rfl _), lex_semicolon,
      lex_space, lexes_part (fun e he => (htest e he).starts) ihtest _ (apart_cons rfl _),
      lex_semicolon, lex_space, lexes_stmtBehind hclause ihpost _ (apart_cons rfl _), lex_rparen,
      lex_space, lex_block ihbody]
  | forIn hkey hvalue _ _ ihseq ihbody =>
    intro rest _
    simp only [Stmt.render, Stmt.tokens, String.toList_append, String.reduceToList,
      List.append_assoc, List.cons_append, List.nil_append]
    rw [lex_for, lex_lparen, lexes_loopNames hkey hvalue _ (apart_cons rfl _), lex_space, lex_in,
      ihseq _ (apart_cons rfl _), lex_rparen, lex_space, lex_block ihbody]
  | @switch _ _ _ fallback _ _ _ _ _ ihvalue ihvalues ihbody ihfallback =>
    intro rest _
    have hdefault (cs : List Char) : lex (" default ".toList ++ cs) = [mark .kwDefault] ++ lex cs := by
      simp only [String.reduceToList, List.cons_append, List.nil_append]
      rw [lex_space, lex_default]
    simp only [Stmt.render, Stmt.tokens, SwitchCase.renderAll_eq, SwitchCase.listTokens_eq,
      Literal.braced, String.toList_append, String.reduceToList, List.append_assoc,
      List.cons_append, List.nil_append]
    rw [lex_switch, lex_lparen, ihvalue _ (apart_cons rfl _), lex_rparen, lex_space, lex_lbrace,
      lex_cases ihvalues ihbody, lex_blockBehind hdefault ihfallback, lex_space, lex_rbrace]
  | tryCatch _ hname _ _ _ ihbody ihhandler ihfinalizer =>
    intro rest _
    have hfinally (cs : List Char) : lex (" finally ".toList ++ cs) = [mark .kwFinally] ++ lex cs := by
      simp only [String.reduceToList, List.cons_append, List.nil_append]
      rw [lex_space, lex_finally]
    simp only [Stmt.render, Stmt.tokens, String.toList_append, String.reduceToList,
      List.append_assoc, List.cons_append, List.nil_append]
    rw [lex_try, lex_block ihbody, lex_handler hname ihhandler, lex_blockBehind hfinally ihfinalizer]
  | funcStmt hname hparams _ ih =>
    intro rest _
    simp only [Stmt.render, Stmt.tokens, String.toList_append, String.reduceToList,
      List.append_assoc, List.cons_append, List.nil_append]
    rw [lex_func, lex_name hname (apart_params _ _), lex_params hparams, lex_space, lex_block ih]
  | importAs hname =>
    intro rest hrest
    simp only [Stmt.render, Stmt.tokens, String.toList_append, String.reduceToList,
      List.append_assoc, List.cons_append, List.nil_append]
    rw [lex_import, lex_quote _ (apart_as _ hrest), lexes_as hname _ hrest]
  | importFrom _ hitems =>
    intro rest hrest
    have hitems' : ∀ item ∈ _, Token.Lexes (ImportItem.render item).toList item.tokens :=
      fun item hitem => lexes_importItem (hitems item hitem)
    simp only [Stmt.render, Stmt.tokens, String.toList_append, String.reduceToList,
      List.append_assoc, List.cons_append, List.nil_append]
    rw [lex_from, lex_quote _ (apart_cons rfl _), lex_space, lex_import,
      lexes_commas hitems' _ hrest]
  | exported _ _ ih =>
    intro rest hrest
    simp only [Stmt.render, Stmt.tokens, String.toList_append, String.reduceToList,
      List.cons_append, List.nil_append]
    rw [lex_export, ih _ hrest]
  | @ret _ values _ ih =>
    intro rest hrest
    rw [Stmt.render, Stmt.tokens, Expr.renderAll_eq, Expr.listTokens_eq]
    cases values with
    | nil => exact @lex_keyword _ .kwReturn rfl hrest
    | cons e values =>
      have hvalues := lexes_commas ih _ hrest
      rw [List.map_cons] at hvalues ⊢
      simp only [renderReturn, String.toList_append, String.reduceToList, List.cons_append,
        List.nil_append]
      rw [lex_return, hvalues]
  | brk => exact fun _ hrest => @lex_keyword _ .kwBreak rfl hrest
  | cont => exact fun _ hrest => @lex_keyword _ .kwContinue rfl hrest
  | pass => exact fun _ hrest => @lex_keyword _ .kwPass rfl hrest
  | raise _ ih =>
    intro rest hrest
    simp only [Stmt.render, Stmt.tokens, String.toList_append, String.reduceToList,
      List.cons_append, List.nil_append]
    rw [lex_throw, ih _ hrest]
  | defer _ _ ih =>
    intro rest hrest
    simp only [Stmt.render, Stmt.tokens, String.toList_append, String.reduceToList,
      List.cons_append, List.nil_append]
    rw [lex_defer, ih _ hrest]
  | blockStmt _ ih => exact fun rest _ => lex_block ih rest

/-- An expression in front of a text that stands apart is printed as its tokens. -/
theorem Expr.Printable.lexes {e : Expr} (h : e.Printable) : Token.Lexes e.render.toList e.tokens :=
  Node.Printable.lexes h

end Welle
