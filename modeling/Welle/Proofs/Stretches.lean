import Welle.Proofs.Spelling
import Welle.Proofs.Append.Lowered

set_option autoImplicit false

/-! # Where interpolations end

The body of a template is read twice: the lexer passes over its interpolations to find the quote
that closes the template, and `Template.split` cuts them out later. `Passes` says which texts lead
from some open braces to the brace that closes the last of them, quotations and comments taken as a
whole. The two readings differ in one point only, which texts are a block comment: for the lexer it
ends with the first `*/` behind its `/*`, for the splitter with the first one behind its slash, so
that `/*/` is a whole comment there. They find the same interpolations exactly where the
stretches of the lexer are also passed over with the comments of the splitter. -/

namespace Welle.Template

/-! ## Quotations and comments -/

/-- A quotation behind its first mark. It ends with the next such mark; inside double quotes a
    backslash takes the following character with it. -/
inductive Quotation (mark : Char) : List Char → Prop where
  | close : Quotation mark [mark]
  | escape {c : Char} {cs : List Char} :
      mark = '"' → Quotation mark cs → Quotation mark ('\\' :: c :: cs)
  | char {c : Char} {cs : List Char} :
      c ≠ mark → ¬(c = '\\' ∧ mark = '"') → Quotation mark cs → Quotation mark (c :: cs)

/-- What stands behind the beginning of a comment, up to the first `*/`. -/
def ClosesComment (cs : List Char) : Prop :=
  ∃ body, cs = body ++ ['*', '/'] ∧ ¬['*', '/'] <:+: body ++ ['*']

/-- A block comment as the lexer reads it: it ends with the first `*/` behind its `/*`. -/
def LexedComment (text : List Char) : Prop :=
  ∃ cs, text = '/' :: '*' :: cs ∧ ClosesComment cs

/-- A block comment as the splitter reads it: it ends with the first `*/` behind its slash. -/
def SplitComment (text : List Char) : Prop :=
  ∃ cs, text = '/' :: '*' :: cs ∧ ClosesComment ('*' :: cs)

/-- A block comment of the lexer that does not start with `/*/`. -/
def SharpComment (text : List Char) : Prop :=
  ∃ cs, text = '/' :: '*' :: cs ∧ ClosesComment cs ∧ cs.head? ≠ some '/'

/-- Both readings agree on a comment that does not start with `/*/`. -/
theorem SharpComment.split {text : List Char} (h : SharpComment text) : SplitComment text := by
  obtain ⟨cs, rfl, ⟨body, rfl, hfirst⟩, hsharp⟩ := h
  refine ⟨body ++ ['*', '/'], rfl, '*' :: body, rfl, ?_⟩
  rw [List.cons_append, List.infix_cons_iff]
  rintro (hstart | hinfix)
  · -- a mark at the very beginning would need a slash behind the star
    obtain ⟨rest, hrest⟩ := hstart
    cases body with
    | nil => simp at hrest
    | cons d ds =>
      obtain rfl : '/' = d := by
        have := congrArg (·[1]?) hrest
        simpa using this
      exact hsharp rfl
  · exact hfirst hinfix

/-! ## Stretches -/

/-- The characters that stand for themselves in an interpolation. -/
def IsOrdinary (c : Char) : Prop := c ≠ '{' ∧ c ≠ '}' ∧ c ≠ '"' ∧ c ≠ Text.backtick

/-- `Passes C depth cs`: with `depth` braces open, `cs` leads to the brace that closes the last one
    and ends with it. Quotations, line comments and the comments `C` are passed over as a whole. -/
inductive Passes (C : List Char → Prop) : Nat → List Char → Prop where
  | last : Passes C 1 ['}']
  | opening {depth : Nat} {cs : List Char} : Passes C (depth + 1) cs → Passes C depth ('{' :: cs)
  | closing {depth : Nat} {cs : List Char} :
      Passes C (depth + 1) cs → Passes C (depth + 2) ('}' :: cs)
  | quoted {depth : Nat} {mark : Char} {body cs : List Char} :
      mark = '"' ∨ mark = Text.backtick → Quotation mark body → Passes C depth cs →
      Passes C depth (mark :: (body ++ cs))
  | line {depth : Nat} {body cs : List Char} :
      '\n' ∉ body → cs.head? = some '\n' → Passes C depth cs →
      Passes C depth ('/' :: '/' :: (body ++ cs))
  | block {depth : Nat} {comment cs : List Char} :
      C comment → Passes C depth cs → Passes C depth (comment ++ cs)
  | char {depth : Nat} {c : Char} {cs : List Char} :
      IsOrdinary c → (c = '/' → cs.head? ≠ some '/' ∧ cs.head? ≠ some '*') → Passes C depth cs →
      Passes C depth (c :: cs)

namespace Passes

variable {C D : List Char → Prop} {depth : Nat} {cs : List Char}

theorem mono (h : Passes C depth cs) (hCD : ∀ text, C text → D text) : Passes D depth cs := by
  induction h with
  | last => exact .last
  | opening _ ih => exact .opening ih
  | closing _ ih => exact .closing ih
  | quoted hmark hbody _ ih => exact .quoted hmark hbody ih
  | line hbody hcs _ ih => exact .line hbody hcs ih
  | block hcomment _ ih => exact .block (hCD _ hcomment) ih
  | char hc hslash _ ih => exact .char hc hslash ih

/-- A stretch ends with the brace that closes it. -/
theorem eq_concat (h : Passes C depth cs) : ∃ inside, cs = inside ++ ['}'] := by
  induction h with
  | last => exact ⟨[], rfl⟩
  | opening _ ih => obtain ⟨inside, rfl⟩ := ih; exact ⟨'{' :: inside, rfl⟩
  | closing _ ih => obtain ⟨inside, rfl⟩ := ih; exact ⟨'}' :: inside, rfl⟩
  | @quoted _ mark body _ _ _ _ ih =>
    obtain ⟨inside, rfl⟩ := ih
    exact ⟨mark :: (body ++ inside), by simp⟩
  | @line _ body _ _ _ _ ih =>
    obtain ⟨inside, rfl⟩ := ih
    exact ⟨'/' :: '/' :: (body ++ inside), by simp⟩
  | @block _ comment _ _ _ ih =>
    obtain ⟨inside, rfl⟩ := ih
    exact ⟨comment ++ inside, by simp⟩
  | @char _ c _ _ _ _ ih => obtain ⟨inside, rfl⟩ := ih; exact ⟨c :: inside, rfl⟩

theorem ne_nil (h : Passes C depth cs) : cs ≠ [] := by
  obtain ⟨inside, rfl⟩ := h.eq_concat
  simp

end Passes

/-! ## What the scanners of quotations and comments find -/

theorem closeQuote_quotation {mark : Char} {body : List Char} (h : Quotation mark body)
    (rest : List Char) : Text.closeQuote mark (body ++ rest) = (body, rest) := by
  induction h with
  | close =>
    cases rest with
    | nil => rfl
    | cons d ds =>
      show Text.closeQuote mark (mark :: d :: ds) = ([mark], d :: ds)
      rw [Text.closeQuote]
      have hplain : (mark = '\\' && mark = '"') = false := by
        rw [Bool.and_eq_false_iff]
        by_cases hmark : mark = '"'
        · left; simp [hmark]
        · right; simpa using hmark
      rw [hplain]
      simp
  | @escape c cs hmark _ ih =>
    subst hmark
    show Text.closeQuote '"' ('\\' :: c :: (cs ++ rest)) = _
    rw [Text.closeQuote, ih]
    simp [Text.onto]
  | @char c cs hc hescape hcs ih =>
    obtain ⟨d, ds, hds⟩ : ∃ d ds, cs ++ rest = d :: ds := by
      cases hcs <;> simp
    show Text.closeQuote mark (c :: (cs ++ rest)) = _
    rw [hds] at ih ⊢
    rw [Text.closeQuote, ih]
    have hplain : (c = '\\' && mark = '"') = false := by
      rw [Bool.eq_false_iff]
      simpa using hescape
    rw [hplain, if_neg (by simp), if_neg hc]
    rfl

/-- A quotation that does not reach the end of the text is closed. -/
theorem quotation_closeQuote {mark : Char} {cs : List Char}
    (h : (Text.closeQuote mark cs).2 ≠ []) : Quotation mark (Text.closeQuote mark cs).1 := by
  fun_induction Text.closeQuote mark cs with
  | case1 => exact absurd rfl h
  | case2 => exact absurd rfl h
  | case3 c d cs hescape ih =>
    obtain ⟨rfl, hmark⟩ : c = '\\' ∧ mark = '"' := by simpa using hescape
    exact .escape hmark (ih h)
  | case4 => exact .close
  | case5 c d cs hescape hc ih =>
    exact .char hc (by simpa using hescape) (ih h)

theorem closeComment_closesComment {cs : List Char} (h : ClosesComment cs) (rest : List Char) :
    Text.closeComment (cs ++ rest) = some (cs, rest) := by
  obtain ⟨body, rfl, hfirst⟩ := h
  induction body with
  | nil => rfl
  | cons c body ih =>
    rw [List.cons_append, List.infix_cons_iff, not_or] at hfirst
    have hopen : (c = '*' && (body ++ ['*', '/'] ++ rest).head? = some '/') = false := by
      rw [Bool.eq_false_iff]
      intro hclose
      obtain ⟨rfl, hslash⟩ : c = '*' ∧ (body ++ ['*', '/'] ++ rest).head? = some '/' := by
        simpa using hclose
      cases body with
      | nil => simp at hslash
      | cons d body =>
        obtain rfl : d = '/' := by simpa using hslash
        exact hfirst.1 ⟨body ++ ['*'], rfl⟩
    show Text.closeComment (c :: (body ++ ['*', '/'] ++ rest)) = _
    rw [Text.closeComment, hopen, ih hfirst.2]
    rfl

/-! ## What the lexer passes over -/

theorem closeLine_line {body cs : List Char} (hbody : '\n' ∉ body) (hcs : cs.head? = some '\n') :
    Text.closeLine ('/' :: (body ++ cs)) = ('/' :: body, cs) := by
  have hall : ∀ c ∈ '/' :: body, (c ≠ '\n' : Bool) = true := by
    intro c hc
    rcases List.mem_cons.1 hc with rfl | hc
    · rfl
    · simpa using fun h : c = '\n' => hbody (h ▸ hc)
  obtain ⟨ds, rfl⟩ := List.head?_eq_some_iff.1 hcs
  unfold Text.closeLine
  rw [show '/' :: (body ++ '\n' :: ds) = ('/' :: body) ++ '\n' :: ds from rfl,
    List.takeWhile_append_of_pos hall, List.dropWhile_append_of_pos hall]
  simp

/-- A line comment that does not reach the end of the text ends in front of a line feed. -/
theorem line_closeLine {cs : List Char} (hslash : cs.head? = some '/')
    (h : (Text.closeLine cs).2 ≠ []) :
    ∃ body, (Text.closeLine cs).1 = '/' :: body ∧ '\n' ∉ body ∧
      (Text.closeLine cs).2.head? = some '\n' := by
  obtain ⟨ds, rfl⟩ := List.head?_eq_some_iff.1 hslash
  refine ⟨ds.takeWhile (· ≠ '\n'), ?_, ?_, ?_⟩
  · simp [Text.closeLine]
  · intro hmem
    simpa using List.mem_takeWhile_imp hmem
  · have hhead := List.head_dropWhile_not (fun c : Char => decide (c ≠ '\n')) h
    rw [decide_eq_false_iff_not, not_not] at hhead
    rw [List.head?_eq_some_head h]
    exact congrArg some hhead

/-- A text that is passed over is what the lexer passes over, whatever stands behind it. -/
theorem skipInterpolation_passes {depth : Nat} {cs : List Char} (h : Passes LexedComment depth cs)
    (hdepth : 0 < depth) (rest : List Char) :
    Token.skipInterpolation depth (cs ++ rest) = some (cs, rest) := by
  induction h with
  | last => simp [Token.skipInterpolation]
  | opening _ ih =>
    rw [List.cons_append, Token.skipInterpolation, if_pos rfl, ih (by omega)]
    rfl
  | @closing depth cs _ ih =>
    rw [List.cons_append, Token.skipInterpolation, if_neg (by decide), if_pos rfl,
      if_neg (by omega), show depth + 2 - 1 = depth + 1 from rfl, ih (by omega)]
    rfl
  | @quoted depth mark body cs hmark hbody _ ih =>
    rw [List.cons_append, List.append_assoc, Token.skipInterpolation,
      closeQuote_quotation hbody, ih hdepth]
    rcases hmark with rfl | rfl <;> rfl
  | @line depth body cs hbody hcs hpasses ih =>
    have hcs' : (cs ++ rest).head? = some '\n' := by
      rw [List.head?_append, hcs]
      rfl
    rw [List.cons_append, List.cons_append, List.append_assoc, Token.skipInterpolation,
      closeLine_line hbody hcs', ih hdepth]
    rfl
  | @block depth comment cs hcomment _ ih =>
    obtain ⟨body, rfl, hbody⟩ := hcomment
    rw [List.append_assoc, List.cons_append, List.cons_append, Token.skipInterpolation,
      if_neg (by decide), if_neg (by decide), if_neg (by decide), if_neg (by simp),
      if_pos (by simp)]
    split
    next hnone =>
      rw [List.drop_one, List.tail_cons, closeComment_closesComment hbody] at hnone
      cases hnone
    next found hfound =>
      rw [List.drop_one, List.tail_cons, closeComment_closesComment hbody] at hfound
      obtain rfl := Option.some.inj hfound
      rw [ih hdepth]
      rfl
  | @char depth c cs hc hslash hpasses ih =>
    obtain ⟨hopen, hclose, hquote, htick⟩ := hc
    obtain ⟨d, ds, rfl⟩ := List.exists_cons_of_ne_nil hpasses.ne_nil
    rw [List.cons_append, Token.skipInterpolation, if_neg hopen, if_neg hclose,
      if_neg (by simp [hquote, htick]), if_neg (by simpa using fun h => (hslash h).1),
      if_neg (by simpa using fun h => (hslash h).2), ih hdepth]
    rfl

/-- The lexer passes over nothing else. -/
theorem passes_skipInterpolation {depth : Nat} {cs : List Char} {split : List Char × List Char}
    (h : Token.skipInterpolation depth cs = some split) (hdepth : 0 < depth) :
    Passes LexedComment depth split.1 := by
  fun_induction Token.skipInterpolation depth cs generalizing split with
  | case1 => simp at h
  | case2 depth cs ih =>
    obtain ⟨inner, hinner, rfl⟩ := Option.map_eq_some_iff.1 h
    exact .opening (ih hinner (by omega))
  | case3 depth cs hone =>
    obtain rfl := Option.some.inj h
    obtain rfl : depth = 1 := by omega
    exact .last
  | case4 depth cs hone _ ih =>
    obtain ⟨inner, hinner, rfl⟩ := Option.map_eq_some_iff.1 h
    obtain ⟨n, rfl⟩ : ∃ n, depth = n + 2 := ⟨depth - 2, by omega⟩
    exact .closing (ih hinner (by omega))
  | case5 depth c cs hopen hclose hquote ih =>
    obtain ⟨inner, hinner, rfl⟩ := Option.map_eq_some_iff.1 h
    -- an open quotation would leave nothing to close the interpolation
    have hclosed : (Text.closeQuote c cs).2 ≠ [] := by
      intro hnil
      rw [hnil] at hinner
      simp [Token.skipInterpolation] at hinner
    exact .quoted (by simpa using hquote) (quotation_closeQuote hclosed) (ih hinner hdepth)
  | case6 depth c cs _ _ _ hline ih =>
    obtain ⟨inner, hinner, rfl⟩ := Option.map_eq_some_iff.1 h
    obtain ⟨rfl, hslash⟩ : c = '/' ∧ cs.head? = some '/' := by simpa using hline
    have hpasses := ih hinner hdepth
    have happend := Token.skipInterpolation_append hinner
    have hclosed : (Text.closeLine cs).2 ≠ [] := by
      rw [← happend]
      simp [hpasses.ne_nil]
    obtain ⟨body, hbody, hfeed, hhead⟩ := line_closeLine hslash hclosed
    have hinside : inner.1.head? = some '\n' := by
      rwa [← happend, List.head?_append_of_ne_nil _ hpasses.ne_nil] at hhead
    rw [hbody]
    exact .line hfeed hinside hpasses
  | case7 => simp at h
  | case8 depth c cs _ _ _ _ hblock comment hcomment ih =>
    obtain ⟨inner, hinner, rfl⟩ := Option.map_eq_some_iff.1 h
    obtain ⟨rfl, hstar⟩ : c = '/' ∧ cs.head? = some '*' := by simpa using hblock
    obtain ⟨ds, rfl⟩ := List.head?_eq_some_iff.1 hstar
    exact .block ⟨comment.1, rfl, Token.closeComment_first hcomment⟩ (ih hinner hdepth)
  | case9 depth c cs hopen hclose hquote hline hblock ih =>
    obtain ⟨inner, hinner, rfl⟩ := Option.map_eq_some_iff.1 h
    have hpasses := ih hinner hdepth
    have hhead : inner.1.head? = cs.head? := by
      rw [← Token.skipInterpolation_append hinner, List.head?_append_of_ne_nil _ hpasses.ne_nil]
    have hordinary : IsOrdinary c := by
      obtain ⟨hmark, htick⟩ : c ≠ '"' ∧ c ≠ Text.backtick := by simpa using hquote
      exact ⟨hopen, hclose, hmark, htick⟩
    have hslash : c = '/' → inner.1.head? ≠ some '/' ∧ inner.1.head? ≠ some '*' := by
      rintro rfl
      rw [hhead]
      exact ⟨by simpa using hline, by simpa using hblock⟩
    exact .char hordinary hslash hpasses

/-! ## What the splitter passes over -/

/-- A text that is passed over is what the splitter takes for an interpolation, without its brace,
    whatever stands behind it. -/
theorem takeHole_passes {depth : Nat} {cs : List Char} (h : Passes SplitComment depth cs)
    (hdepth : 0 < depth) (rest : List Char) :
    takeHole depth (cs ++ rest) = ⟨cs.dropLast, some rest⟩ := by
  induction h with
  | last => simp [takeHole]
  | opening hpasses ih =>
    rw [List.cons_append, takeHole, if_pos rfl, ih (by omega),
      List.dropLast_cons_of_ne_nil hpasses.ne_nil]
    rfl
  | @closing depth cs hpasses ih =>
    rw [List.cons_append, takeHole, if_neg (by decide), if_pos rfl, if_neg (by omega),
      show depth + 2 - 1 = depth + 1 from rfl, ih (by omega),
      List.dropLast_cons_of_ne_nil hpasses.ne_nil]
    rfl
  | @quoted depth mark body cs hmark hbody hpasses ih =>
    rw [List.cons_append, List.append_assoc, takeHole, closeQuote_quotation hbody, ih hdepth,
      List.dropLast_cons_of_ne_nil (by simp [hpasses.ne_nil]),
      List.dropLast_append_of_ne_nil hpasses.ne_nil]
    rcases hmark with rfl | rfl <;> rfl
  | @line depth body cs hbody hcs hpasses ih =>
    have hcs' : (cs ++ rest).head? = some '\n' := by
      rw [List.head?_append, hcs]
      rfl
    rw [List.cons_append, List.cons_append, List.append_assoc, takeHole,
      closeLine_line hbody hcs', ih hdepth, List.dropLast_cons_of_ne_nil (by simp),
      List.dropLast_cons_of_ne_nil (by simp [hpasses.ne_nil]),
      List.dropLast_append_of_ne_nil hpasses.ne_nil]
    rfl
  | @block depth comment cs hcomment hpasses ih =>
    obtain ⟨body, rfl, hbody⟩ := hcomment
    rw [List.dropLast_append_of_ne_nil hpasses.ne_nil, List.append_assoc, List.cons_append, takeHole,
      if_neg (by decide), if_neg (by decide), if_neg (by decide), if_neg (by simp),
      if_pos (by simp)]
    split
    next hnone =>
      rw [closeComment_closesComment hbody] at hnone
      cases hnone
    next found hfound =>
      rw [closeComment_closesComment hbody] at hfound
      obtain rfl := Option.some.inj hfound
      rw [ih hdepth]
      rfl
  | @char depth c cs hc hslash hpasses ih =>
    obtain ⟨hopen, hclose, hquote, htick⟩ := hc
    rw [List.dropLast_cons_of_ne_nil hpasses.ne_nil]
    obtain ⟨d, ds, rfl⟩ := List.exists_cons_of_ne_nil hpasses.ne_nil
    -- a slash starts no comment here, so the character stands for itself
    rw [List.cons_append, takeHole, if_neg hopen, if_neg hclose,
      if_neg (by simp [hquote, htick]), if_neg (by simpa using fun h => (hslash h).1),
      if_neg (by simpa using fun h => (hslash h).2), ih hdepth]
    rfl

/-- A closed interpolation and its brace are the beginning of the text that was read. -/
theorem head?_takeHole {depth : Nat} {cs rest : List Char} (h : (takeHole depth cs).rest = some rest) :
    ((takeHole depth cs).source ++ ['}']).head? = cs.head? := by
  have happend := takeHole_append depth cs
  rw [h] at happend
  refine Eq.trans ?_ (congrArg List.head? happend)
  cases (takeHole depth cs).source <;> rfl

/-- The splitter takes nothing else for a closed interpolation. -/
theorem passes_takeHole {depth : Nat} {cs rest : List Char}
    (h : (takeHole depth cs).rest = some rest) (hdepth : 0 < depth) :
    Passes SplitComment depth ((takeHole depth cs).source ++ ['}']) := by
  fun_induction takeHole depth cs with
  | case1 => cases h
  | case2 depth cs ih => exact .opening (ih h (by omega))
  | case3 depth cs hone =>
    obtain rfl : depth = 1 := by omega
    exact .last
  | case4 depth cs hone _ ih =>
    obtain ⟨n, rfl⟩ : ∃ n, depth = n + 2 := ⟨depth - 2, by omega⟩
    exact .closing (ih h (by omega))
  | case5 depth c cs hopen hclose hquote ih =>
    -- an open quotation would leave nothing to close the interpolation
    have hclosed : (Text.closeQuote c cs).2 ≠ [] := by
      intro hnil
      rw [Hole.push, hnil] at h
      simp [takeHole] at h
    show Passes SplitComment depth (c :: (_ ++ _) ++ ['}'])
    rw [List.cons_append, List.append_assoc]
    exact .quoted (by simpa using hquote) (quotation_closeQuote hclosed) (ih h hdepth)
  | case6 depth c cs _ _ _ hline ih =>
    obtain ⟨rfl, hslash⟩ : c = '/' ∧ cs.head? = some '/' := by simpa using hline
    have hclosed : (Text.closeLine cs).2 ≠ [] := by
      intro hnil
      rw [Hole.push, hnil] at h
      simp [takeHole] at h
    obtain ⟨body, hbody, hfeed, hhead⟩ := line_closeLine hslash hclosed
    have hinside := head?_takeHole h
    rw [hhead] at hinside
    show Passes SplitComment depth ('/' :: (_ ++ _) ++ ['}'])
    rw [List.cons_append, List.append_assoc, hbody]
    exact .line hfeed hinside (ih h hdepth)
  | case7 => cases h
  | case8 depth c cs _ _ _ _ hblock comment hcomment ih =>
    obtain ⟨rfl, hstar⟩ : c = '/' ∧ cs.head? = some '*' := by simpa using hblock
    have hfirst : ClosesComment comment.1 := Token.closeComment_first hcomment
    have hcomment : SplitComment ('/' :: comment.1) := by
      have hhead : comment.1.head? = some '*' := by
        obtain ⟨body, hbody, -⟩ := hfirst
        rw [← Text.closeComment_append hcomment, List.head?_append_of_ne_nil _ (by simp [hbody])]
          at hstar
        exact hstar
      obtain ⟨ds, hds⟩ := List.head?_eq_some_iff.1 hhead
      exact ⟨ds, by rw [hds], by rwa [← hds]⟩
    show Passes SplitComment depth ('/' :: comment.1 ++ _ ++ ['}'])
    rw [List.append_assoc]
    exact .block hcomment (ih h hdepth)
  | case9 depth c cs hopen hclose hquote hline hblock ih =>
    have hordinary : IsOrdinary c := by
      obtain ⟨hmark, htick⟩ : c ≠ '"' ∧ c ≠ Text.backtick := by simpa using hquote
      exact ⟨hopen, hclose, hmark, htick⟩
    have hhead := head?_takeHole h
    have hslash : c = '/' → ((takeHole depth cs).source ++ ['}']).head? ≠ some '/' ∧
        ((takeHole depth cs).source ++ ['}']).head? ≠ some '*' := by
      rintro rfl
      rw [hhead]
      exact ⟨by simpa using hline, by simpa using hblock⟩
    exact .char hordinary hslash (ih h hdepth)

/-- An interpolation that ends in front of a closing brace is closed by it. -/
theorem rest_takeHole {depth : Nat} {inside rest : List Char}
    (h : (takeHole depth (inside ++ ['}'] ++ rest)).source = inside) :
    (takeHole depth (inside ++ ['}'] ++ rest)).rest = some rest := by
  have happend := takeHole_append depth (inside ++ ['}'] ++ rest)
  generalize takeHole depth (inside ++ ['}'] ++ rest) = hole at h happend ⊢
  rw [h, List.append_assoc, List.append_cancel_left_eq] at happend
  cases hrest : hole.rest with
  | none => simp [hrest] at happend
  | some behind => simpa [hrest] using happend

/-! ## The interpolations of a template -/

/-- Where an interpolation starts and the characters that it has between its braces. -/
def Segment.inside? : Segment → Option (Position × List Char)
  | .text _ => none
  | .hole source origin _ => some (origin, source.toList)

/-- The interpolations among the segments of a template body. -/
def holes (segments : List Segment) : List (Position × List Char) :=
  segments.filterMap Segment.inside?

end Welle.Template

namespace Welle.Token

/-- The stretches that the lexer passes over in the body of a template that starts at `pos`, without
    the braces around them, each with the place of its first character. -/
def stretchesFrom (pos : Position) (cs : List Char) : List (Position × List Char) :=
  match cs with
  | [] => []
  | c :: cs =>
    if c = '\n' then []
    else if c = '"' then []
    else if c = '\\' then
      match cs with
      | [] => []
      | e :: rest => if e = '\n' then [] else stretchesFrom ((pos.next c).next e) rest
    else if c = '$' && cs.head? = some '{' then
      match _h : skipInterpolation 1 (cs.drop 1) with
      | none => []
      | some hole =>
        (pos.shifted 2, hole.1.dropLast) :: stretchesFrom ((pos.shifted 2).after hole.1) hole.2
    else stretchesFrom (pos.next c) cs
termination_by cs.length
decreasing_by
  all_goals simp only [List.length_cons]
  · omega
  · have := Text.length_snd_le (skipInterpolation_append _h)
    simp only [List.length_drop] at this
    omega
  · omega

/-- A closed interpolation adds a stretch. -/
theorem stretchesFrom_hole {cs : List Char} {hole : List Char × List Char} (pos : Position)
    (h : skipInterpolation 1 cs = some hole) :
    stretchesFrom pos ('$' :: '{' :: cs)
      = (pos.shifted 2, hole.1.dropLast) :: stretchesFrom ((pos.shifted 2).after hole.1) hole.2 := by
  rw [stretchesFrom.eq_def]
  simp only []
  rw [if_neg (by decide), if_neg (by decide), if_neg (by decide), if_pos (by simp)]
  split
  next hnone => cases hnone.symm.trans h
  next found hfound => rw [Option.some.inj (hfound.symm.trans h)]

/-- Any other character is passed by. -/
theorem stretchesFrom_char {c : Char} (cs : List Char) (pos : Position) (hfeed : ¬c = '\n')
    (hquote : ¬c = '"') (hescape : ¬c = '\\') (hopen : ¬(c = '$' && cs.head? = some '{') = true) :
    stretchesFrom pos (c :: cs) = stretchesFrom (pos.next c) cs := by
  rw [stretchesFrom.eq_def]
  simp only [if_neg hfeed, if_neg hquote, if_neg hescape, if_neg hopen]

/-- A stretch is passed over with the brace behind it. -/
theorem passes_stretchesFrom {pos : Position} {cs : List Char} {stretch : Position × List Char}
    (h : stretch ∈ stretchesFrom pos cs) :
    Template.Passes Template.LexedComment 1 (stretch.2 ++ ['}']) := by
  fun_induction stretchesFrom pos cs with
  | case1 | case2 | case3 | case4 | case5 => cases h
  | case6 _ _ _ _ _ _ ih => exact ih h
  | case7 => cases h
  | case8 pos c cs _ _ _ _ hole hhole ih =>
    rcases List.mem_cons.1 h with rfl | h
    · have hpasses := Template.passes_skipInterpolation hhole Nat.one_pos
      obtain ⟨inside, hinside⟩ := hpasses.eq_concat
      rw [hinside] at hpasses ⊢
      rwa [List.dropLast_concat]
    · exact ih h
  | case9 pos c cs _ _ _ _ ih => exact ih h

/-- A template starts with `t"`, and its body is closed. -/
theorem scan_of_template {c : Char} {cs : List Char} (hkind : (scan c cs).kind = .template) :
    ∃ behind, c :: cs = 't' :: '"' :: behind ∧ (templateBody behind).closed = true
      ∧ (scan c cs).literal = String.ofList (templateBody behind).content := by
  cases scan_cases c cs with
  | word hstart heq =>
    rw [heq] at hkind
    exact absurd hkind (Kind.ofWord_ne_template _)
  | template _ htext =>
    have happend := scan_append c cs
    rw [htext] at happend
    obtain ⟨rfl, hcs⟩ := List.cons.inj happend
    obtain ⟨behind, rfl⟩ : ∃ behind, cs = '"' :: behind := ⟨_, hcs.symm⟩
    have hscan : scan 't' ('"' :: behind) = scanTemplate behind := rfl
    rw [hscan] at hkind ⊢
    unfold scanTemplate Body.lexeme at hkind ⊢
    split at hkind
    next hclosed => exact ⟨behind, rfl, hclosed, by rw [if_pos hclosed]; rfl⟩
    next => cases hkind
  | other _ _ htemplate => exact absurd hkind htemplate

/-- Where a template token comes from: its body stands behind the quote that opens it, and is
    closed. -/
theorem template_of_mem {pos : Position} {cs : List Char} {t : Token} (ht : t ∈ tokensFrom pos cs)
    (hkind : t.kind = .template) :
    ∃ before behind, cs = before ++ 't' :: '"' :: behind ∧ t.pos = pos.after before
      ∧ (templateBody behind).closed = true
      ∧ t.literal = String.ofList (templateBody behind).content := by
  obtain ⟨before, behind, rfl, rfl⟩ := mem_tokensFrom ht
  cases behind with
  | nil => cases hkind
  | cons c rest =>
    obtain ⟨behind, htext, hclosed, hliteral⟩ := scan_of_template hkind
    exact ⟨before, behind, by rw [htext], rfl, hclosed, hliteral⟩

end Welle.Token

namespace Welle.Template

/-- One interpolation of a body: if the splitter agrees with the lexer on what stands behind it, then
    it agrees on the whole exactly if it passes over this one too, up to the same brace. -/
theorem holes_splitFrom_hole {cs content : List Char} {hole : List Char × List Char}
    (hhole : Token.skipInterpolation 1 cs = some hole) (pos : Position)
    (ih : holes (splitFrom ((pos.shifted 2).after hole.1) content).2
        = Token.stretchesFrom ((pos.shifted 2).after hole.1) hole.2
      ↔ ∀ stretch ∈ Token.stretchesFrom ((pos.shifted 2).after hole.1) hole.2,
        Passes SplitComment 1 (stretch.2 ++ ['}'])) :
    holes (splitFrom pos ('$' :: '{' :: (hole.1 ++ content))).2
        = Token.stretchesFrom pos ('$' :: '{' :: cs)
      ↔ ∀ stretch ∈ Token.stretchesFrom pos ('$' :: '{' :: cs),
        Passes SplitComment 1 (stretch.2 ++ ['}']) := by
  obtain ⟨inside, hinside⟩ := (passes_skipInterpolation hhole Nat.one_pos).eq_concat
  rw [Token.stretchesFrom_hole pos hhole, hinside, List.dropLast_concat, List.forall_mem_cons]
  rw [hinside, Position.after_append] at ih
  rw [Position.after_append, splitFrom_hole pos (by decide) (by simp)]
  simp only [List.drop_one, List.tail_cons, holes, List.filterMap_cons, Segment.inside?,
    String.toList_ofList, List.cons.injEq, Prod.mk.injEq, true_and]
  constructor
  · rintro ⟨hsource, hbehind⟩
    have htake := rest_takeHole hsource
    have hpasses := passes_takeHole htake Nat.one_pos
    rw [hsource] at hpasses
    rw [hsource, htake] at hbehind
    exact ⟨hpasses, ih.1 hbehind⟩
  · rintro ⟨hpasses, hrest⟩
    have htake := takeHole_passes hpasses Nat.one_pos content
    rw [List.dropLast_concat] at htake
    rw [htake]
    exact ⟨rfl, ih.2 hrest⟩

/-- A closed body starts with the first character of the text, or is empty. -/
theorem head?_templateBody {cs : List Char} {c : Char} (hclosed : (Token.templateBody cs).closed = true)
    (h : (Token.templateBody cs).content.head? = some c) : cs.head? = some c := by
  fun_induction Token.templateBody cs with
  | case1 | case2 | case4 | case5 | case7 => cases hclosed
  | case3 => cases h
  | case6 | case8 | case9 => exact h

/-- In a closed body the splitter finds the stretches of the lexer exactly if it passes over each of
    them, up to the same brace. -/
theorem holes_splitFrom_iff {cs : List Char} (hclosed : (Token.templateBody cs).closed = true)
    (pos : Position) :
    holes (splitFrom pos (Token.templateBody cs).content).2 = Token.stretchesFrom pos cs
      ↔ ∀ stretch ∈ Token.stretchesFrom pos cs, Passes SplitComment 1 (stretch.2 ++ ['}']) := by
  fun_induction Token.templateBody cs generalizing pos with
  | case1 => cases hclosed
  | case2 => cases hclosed
  | case3 cs =>
    rw [Token.stretchesFrom.eq_def]
    simp [splitFrom, holes]
  | case4 => cases hclosed
  | case5 => cases hclosed
  | case6 e rest hfeed _ _ ih =>
    rw [Token.stretchesFrom, if_neg (by decide), if_neg (by decide), if_pos rfl, if_neg hfeed]
    show holes (splitFrom pos ('\\' :: e :: (Token.templateBody rest).content)).2 = _ ↔ _
    rw [splitFrom, if_pos rfl]
    exact ih hclosed _
  | case7 => cases hclosed
  | case8 c cs _ _ _ hopen hole hhole text ih =>
    obtain ⟨rfl, hbrace⟩ : c = '$' ∧ cs.head? = some '{' := by simpa using hopen
    obtain ⟨ds, rfl⟩ := List.head?_eq_some_iff.1 hbrace
    exact holes_splitFrom_hole hhole pos (ih hclosed _)
  | case9 c cs hfeed hquote hescape hopen ih =>
    rw [Token.stretchesFrom_char cs pos hfeed hquote hescape hopen]
    show holes (splitFrom pos (c :: (Token.templateBody cs).content)).2 = _ ↔ _
    have hinside : ¬(c = '$' && (Token.templateBody cs).content.head? = some '{') = true := by
      simp only [Bool.and_eq_true, decide_eq_true_eq, not_and] at hopen ⊢
      exact fun hc hhead => hopen hc (head?_templateBody hclosed hhead)
    rw [splitFrom_char _ hescape hinside]
    exact ih hclosed _

/-- Every template token stands behind `t"`. The interpolations that the splitter finds in its body are
    the stretches that the lexer passed over when it read the token, with the same first and last
    characters, exactly if each stretch is also passed over with the comments of the splitter. That
    is so wherever no comment in a stretch starts with `/*/`. -/
theorem holes_eq_stretches_iff {text : String} {t : Token} (ht : t ∈ Token.tokenize text)
    (hkind : t.kind = .template) :
    ∃ before behind, text.toList = before ++ 't' :: '"' :: behind
      ∧ t.pos = endPosition (String.ofList before)
      ∧ t.literal = String.ofList (Token.templateBody behind).content
      ∧ (holes (split t.literal (t.pos.shifted 2)) = Token.stretchesFrom (t.pos.shifted 2) behind
        ↔ ∀ stretch ∈ Token.stretchesFrom (t.pos.shifted 2) behind,
          Passes SplitComment 1 (stretch.2 ++ ['}']))
      ∧ ((∀ stretch ∈ Token.stretchesFrom (t.pos.shifted 2) behind,
          Passes SharpComment 1 (stretch.2 ++ ['}'])) →
        holes (split t.literal (t.pos.shifted 2)) = Token.stretchesFrom (t.pos.shifted 2) behind) := by
  obtain ⟨before, behind, htext, hpos, hclosed, hliteral⟩ := Token.template_of_mem ht hkind
  have hiff := holes_splitFrom_iff hclosed (t.pos.shifted 2)
  have hsplit : holes (split t.literal (t.pos.shifted 2))
      = holes (splitFrom (t.pos.shifted 2) (Token.templateBody behind).content).2 := by
    rw [hliteral, split, String.toList_ofList]
    rfl
  rw [← hsplit] at hiff
  refine ⟨before, behind, htext, ?_, hliteral, hiff, ?_⟩
  · rw [hpos, after_start_eq_endPosition]
  · intro hsharp
    exact hiff.2 fun stretch hstretch => (hsharp stretch hstretch).mono fun _ => SharpComment.split

/-- A comment that starts with `/*/` and has a brace in it: the splitter ends the interpolation at
    that brace. -/
theorem holes_eq_stretches_iff_early_star :
    Token.stretchesFrom ⟨1, 3⟩ "$\x7ba/*/\x7d*/\x7d\"".toList = [(⟨1, 5⟩, "a/*/\x7d*/".toList)]
      ∧ holes (split "$\x7ba/*/\x7d*/\x7d" ⟨1, 3⟩) = [(⟨1, 5⟩, "a/*/".toList)]
      ∧ ∃ t ∈ Token.tokenize "t\"$\x7ba/*/\x7d*/\x7d\"", t.kind = .template
        ∧ t.literal = "$\x7ba/*/\x7d*/\x7d"
        ∧ ∃ before behind, "t\"$\x7ba/*/\x7d*/\x7d\"".toList = before ++ 't' :: '"' :: behind
          ∧ (holes (split t.literal (t.pos.shifted 2))
              = Token.stretchesFrom (t.pos.shifted 2) behind
            ↔ ∀ stretch ∈ Token.stretchesFrom (t.pos.shifted 2) behind,
              Passes SplitComment 1 (stretch.2 ++ ['}'])) := by
  refine ⟨by decide +kernel, by decide +kernel, ?_⟩
  have ht : (⟨.template, "$\x7ba/*/\x7d*/\x7d", some "t\"$\x7ba/*/\x7d*/\x7d\"", ⟨1, 1⟩⟩ : Token)
      ∈ Token.tokenize "t\"$\x7ba/*/\x7d*/\x7d\"" := by decide +kernel
  obtain ⟨before, behind, htext, -, -, hiff, -⟩ := holes_eq_stretches_iff ht rfl
  exact ⟨_, ht, rfl, rfl, before, behind, htext, hiff⟩

end Welle.Template
