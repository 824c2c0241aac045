import Welle.Proofs.Places
import Welle.Proofs.Spelling

set_option autoImplicit false

/-! # Tokens in front of a line feed

A token ends in front of a line feed at the latest, or it contains the line feed because it is still
open there. So the tokens of a text, none of which is left open, are the same when a line feed and
more text follow it, and then the tokens of that text follow. -/

namespace Welle

/-! ## Ends of comments and quoted text -/

namespace Text

variable (more : List Char)

theorem takeWhile_feed {p : Char → Bool} (hp : p '\n' = false) (cs : List Char) :
    (cs ++ '\n' :: more).takeWhile p = cs.takeWhile p := by
  induction cs with
  | nil => exact List.takeWhile_cons_of_neg (by simp [hp])
  | cons c cs ih => simp only [List.cons_append, List.takeWhile_cons, ih]

theorem dropWhile_feed {p : Char → Bool} (hp : p '\n' = false) (cs : List Char) :
    (cs ++ '\n' :: more).dropWhile p = cs.dropWhile p ++ '\n' :: more := by
  induction cs with
  | nil => exact List.dropWhile_cons_of_neg (by simp [hp])
  | cons c cs ih =>
    simp only [List.cons_append, List.dropWhile_cons, ih]
    split <;> rfl

theorem head?_feed {d : Char} (hd : d ≠ '\n') (cs : List Char) :
    (cs ++ '\n' :: more).head? = some d ↔ cs.head? = some d := by
  cases cs with
  | nil => simp [hd.symm]
  | cons c cs => rfl

/-- Whether a character follows another one on the same line. -/
theorem followedBy_feed {d : Char} (hd : d ≠ '\n') (p : Bool) (cs : List Char) :
    (p && decide ((cs ++ '\n' :: more).head? = some d)) = (p && decide (cs.head? = some d)) := by
  simp only [head?_feed more hd]

theorem cons_of_followedBy {d : Char} {p : Bool} {cs : List Char}
    (h : (p && decide (cs.head? = some d)) = true) : ∃ ds, cs = d :: ds := by
  rw [Bool.and_eq_true_iff, decide_eq_true_eq] at h
  exact List.head?_eq_some_iff.1 h.2

theorem closeLine_feed (cs : List Char) : closeLine (cs ++ '\n' :: more)
    = ((closeLine cs).1, (closeLine cs).2 ++ '\n' :: more) := by
  rw [closeLine, takeWhile_feed more (by decide), dropWhile_feed more (by decide)]
  rfl

theorem closeComment_feed {cs : List Char} {split : List Char × List Char}
    (h : closeComment cs = some split) :
    closeComment (cs ++ '\n' :: more) = some (split.1, split.2 ++ '\n' :: more) := by
  induction cs generalizing split with
  | nil => cases h
  | cons c cs ih =>
    rw [closeComment] at h
    rw [List.cons_append, closeComment]
    simp only [head?_feed more (show '/' ≠ '\n' by decide)]
    split at h
    next hclose =>
      rw [if_pos hclose]
      obtain rfl := Option.some.inj h
      cases cs with
      | nil => simp at hclose
      | cons d cs => rfl
    next hopen =>
      rw [if_neg hopen]
      obtain ⟨inner, hinner, rfl⟩ := Option.map_eq_some_iff.1 h
      rw [ih hinner]
      rfl

theorem closeQuote_feed {mark : Char} {cs : List Char} (h : (closeQuote mark cs).2 ≠ []) :
    closeQuote mark (cs ++ '\n' :: more)
      = ((closeQuote mark cs).1, (closeQuote mark cs).2 ++ '\n' :: more) := by
  fun_induction closeQuote mark cs with
  | case1 => exact absurd rfl h
  | case2 => exact absurd rfl h
  | case3 c d cs hescape ih =>
    rw [List.cons_append, List.cons_append, closeQuote, if_pos hescape, ih h]
    rfl
  | case4 d cs hescape =>
    rw [List.cons_append, List.cons_append, closeQuote, if_neg hescape, if_pos rfl]
  | case5 c d cs hescape hmark ih =>
    rw [List.cons_append, List.cons_append, closeQuote, if_neg hescape, if_neg hmark,
      ← List.cons_append, ih h]
    rfl

end Text

namespace Token

variable (more : List Char)

/-! ## Open tokens -/

theorem skipInterpolation_feed {depth : Nat} {cs : List Char} {split : List Char × List Char}
    (h : skipInterpolation depth cs = some split) :
    skipInterpolation depth (cs ++ '\n' :: more) = some (split.1, split.2 ++ '\n' :: more) := by
  fun_induction skipInterpolation depth cs generalizing split with
  | case1 => cases h
  | case2 depth cs ih =>
    obtain ⟨inner, hinner, rfl⟩ := Option.map_eq_some_iff.1 h
    rw [List.cons_append, skipInterpolation, if_pos rfl, ih hinner]
    rfl
  | case3 depth cs hdepth =>
    obtain rfl := Option.some.inj h
    rw [List.cons_append, skipInterpolation, if_neg (by decide), if_pos rfl, if_pos hdepth]
  | case4 depth cs hdepth _ ih =>
    obtain ⟨inner, hinner, rfl⟩ := Option.map_eq_some_iff.1 h
    rw [List.cons_append, skipInterpolation, if_neg (by decide), if_pos rfl, if_neg hdepth, ih hinner]
    rfl
  | case5 depth c cs hopen hclose hquote ih =>
    obtain ⟨inner, hinner, rfl⟩ := Option.map_eq_some_iff.1 h
    -- quoted text that reached the end would leave nothing to close the interpolation
    have hclosed : (Text.closeQuote c cs).2 ≠ [] := by
      intro hnil
      rw [hnil] at hinner
      simp [skipInterpolation] at hinner
    rw [List.cons_append, skipInterpolation, if_neg hopen, if_neg hclose, if_pos hquote,
      Text.closeQuote_feed more hclosed, ih hinner]
    rfl
  | case6 depth c cs hopen hclose hquote hline ih =>
    obtain ⟨inner, hinner, rfl⟩ := Option.map_eq_some_iff.1 h
    rw [List.cons_append, skipInterpolation, if_neg hopen, if_neg hclose, if_neg hquote,
      Text.followedBy_feed more (by decide), if_pos hline, Text.closeLine_feed, ih hinner]
    rfl
  | case7 => cases h
  | case8 depth c cs hopen hclose hquote hline hstar comment hcomment ih =>
    obtain ⟨inner, hinner, rfl⟩ := Option.map_eq_some_iff.1 h
    obtain ⟨ds, rfl⟩ := Text.cons_of_followedBy hstar
    have hcomment' : Text.closeComment (('*' :: ds ++ '\n' :: more).drop 1) = some _ :=
      Text.closeComment_feed more hcomment
    rw [List.cons_append, skipInterpolation, if_neg hopen, if_neg hclose, if_neg hquote,
      Text.followedBy_feed more (by decide), if_neg hline, Text.followedBy_feed more (by decide),
      if_pos hstar]
    split
    next hnone =>
      rw [hcomment'] at hnone
      cases hnone
    next comment' hsome =>
      rw [hcomment'] at hsome
      obtain rfl := Option.some.inj hsome
      rw [ih hinner]
      rfl
  | case9 depth c cs hopen hclose hquote hline hstar ih =>
    obtain ⟨inner, hinner, rfl⟩ := Option.map_eq_some_iff.1 h
    rw [List.cons_append, skipInterpolation, if_neg hopen, if_neg hclose, if_neg hquote,
      Text.followedBy_feed more (by decide), if_neg hline, Text.followedBy_feed more (by decide),
      if_neg hstar, ih hinner]
    rfl

/-- The body with more text behind it. -/
def Body.before (b : Body) (more : List Char) : Body := { b with rest := b.rest ++ more }

theorem Body.push_before (b : Body) (content text more : List Char) :
    (b.before more).push content text = (b.push content text).before more := rfl

theorem stringBody_feed {cs : List Char} (h : (stringBody cs).closed = true) :
    stringBody (cs ++ '\n' :: more) = (stringBody cs).before ('\n' :: more) := by
  fun_induction stringBody cs with
  | case1 | case2 | case4 => cases h
  | case3 cs hfeed =>
    rw [List.cons_append, stringBody.eq_def]
    rfl
  | case5 e cs d hescape _ _ ih =>
    rw [← Body.push_before, ← ih h]
    simp [stringBody, hescape]
  | case6 e cs hescape _ _ ih =>
    rw [← Body.push_before, ← ih h]
    simp [stringBody, hescape]
  | case7 c cs hfeed hquote hslash ih =>
    rw [← Body.push_before, ← ih h, List.cons_append, stringBody.eq_def]
    simp only [if_neg hfeed, if_neg hquote, if_neg hslash]

theorem tripleBody_feed {cs : List Char} (h : (tripleBody cs).closed = true) :
    tripleBody (cs ++ '\n' :: more) = (tripleBody cs).before ('\n' :: more) := by
  fun_induction tripleBody cs with
  | case1 => cases h
  | case2 c cs hclose =>
    obtain ⟨rest, hrest⟩ := List.isPrefixOf_iff_prefix.1 hclose
    rw [← hrest]
    rfl
  | case3 c cs hopen ih =>
    -- the line feed is none of the three quotes
    have hopen' : ¬tripleQuote.isPrefixOf (c :: (cs ++ '\n' :: more)) = true := by
      rcases cs with _ | ⟨d, _ | ⟨e, cs⟩⟩
      · simp [tripleQuote]
      · simp [tripleQuote]
      · simpa [tripleQuote] using hopen
    rw [← Body.push_before, ← ih h, List.cons_append, tripleBody, if_neg hopen']

theorem templateBody_feed {cs : List Char} (h : (templateBody cs).closed = true) :
    templateBody (cs ++ '\n' :: more) = (templateBody cs).before ('\n' :: more) := by
  fun_induction templateBody cs with
  | case1 | case2 | case4 | case5 | case7 => cases h
  | case3 cs _ =>
    rw [List.cons_append, templateBody.eq_def]
    rfl
  | case6 e cs hfeed _ _ ih =>
    rw [← Body.push_before, ← ih h]
    simp [templateBody, hfeed]
  | case8 c cs hfeed hquote hslash hopen hole hhole text ih =>
    obtain ⟨ds, rfl⟩ := Text.cons_of_followedBy hopen
    have hhole' : skipInterpolation 1 (('\x7b' :: ds ++ '\n' :: more).drop 1) = some _ :=
      skipInterpolation_feed more hhole
    rw [← Body.push_before, ← ih h, List.cons_append, templateBody.eq_def]
    dsimp only
    rw [if_neg hfeed, if_neg hquote, if_neg hslash, Text.followedBy_feed more (by decide),
      if_pos hopen]
    split
    next hnone =>
      rw [hhole'] at hnone
      cases hnone
    next hole' hsome =>
      rw [hhole'] at hsome
      obtain rfl := Option.some.inj hsome
      rfl
  | case9 c cs hfeed hquote hslash hopen ih =>
    rw [← Body.push_before, ← ih h, List.cons_append, templateBody.eq_def]
    dsimp only
    rw [if_neg hfeed, if_neg hquote, if_neg hslash, Text.followedBy_feed more (by decide),
      if_neg hopen]

/-! ## Lexemes -/

/-- The lexeme with more text behind it. -/
def Lexeme.before (lexeme : Lexeme) (more : List Char) : Lexeme :=
  { lexeme with rest := lexeme.rest ++ more }

theorem Body.lexeme_before {b : Body} (hclosed : b.closed = true) (kind : Kind) (fault : Fault)
    (mark : List Char) :
    (b.before more).lexeme kind fault mark = (b.lexeme kind fault mark).before more := by
  have hclosed' : (b.before more).closed = true := hclosed
  rw [Body.lexeme, Body.lexeme, if_pos hclosed, if_pos hclosed']
  rfl

/-- A body that makes up a lexeme is closed. -/
theorem Body.closed_of_lexeme {b : Body} {kind : Kind} {fault : Fault} {mark : List Char}
    (h : (b.lexeme kind fault mark).kind ≠ .illegal) : b.closed = true := by
  by_contra hopen
  rw [Body.lexeme, if_neg hopen] at h
  exact h rfl

theorem scanRaw_feed {cs : List Char} (h : (scanRaw cs).kind ≠ .illegal) :
    scanRaw (cs ++ '\n' :: more) = (scanRaw cs).before ('\n' :: more) := by
  unfold scanRaw at h ⊢
  generalize hp : (fun c => decide (c ≠ Text.backtick)) = p at h ⊢
  cases hclose : cs.dropWhile p with
  | nil =>
    rw [hclose] at h
    exact absurd rfl h
  | cons close rest =>
    have hstop : ¬p close = true := by
      have hhead := List.head?_dropWhile_not p cs
      rw [hclose, List.head?_cons] at hhead
      simpa using hhead
    have hinside : ∀ c ∈ cs.takeWhile p, p c = true := fun c hc => List.mem_takeWhile_imp hc
    have hsplit : cs ++ '\n' :: more = cs.takeWhile p ++ close :: (rest ++ '\n' :: more) :=
      calc cs ++ '\n' :: more
          = (cs.takeWhile p ++ close :: rest) ++ '\n' :: more := by
            rw [← hclose, List.takeWhile_append_dropWhile]
        _ = cs.takeWhile p ++ close :: (rest ++ '\n' :: more) := by
            rw [List.append_assoc, List.cons_append]
    have htake : (cs ++ '\n' :: more).takeWhile p = cs.takeWhile p := by
      rw [hsplit, List.takeWhile_append_of_pos hinside, List.takeWhile_cons_of_neg hstop,
        List.append_nil]
    have hdrop : (cs ++ '\n' :: more).dropWhile p = close :: (rest ++ '\n' :: more) := by
      rw [hsplit, List.dropWhile_append_of_pos hinside, List.dropWhile_cons_of_neg hstop]
    rw [htake, hdrop]
    rfl

/-- Whether a string goes over several lines is seen from two more quotes. -/
theorem scanQuoted_feed {cs : List Char}
    (h : (if cs.take 2 = ['"', '"'] then scanTriple (cs.drop 2) else scanString cs).kind
      ≠ .illegal) :
    (if (cs ++ '\n' :: more).take 2 = ['"', '"'] then scanTriple ((cs ++ '\n' :: more).drop 2)
      else scanString (cs ++ '\n' :: more))
      = (if cs.take 2 = ['"', '"'] then scanTriple (cs.drop 2) else scanString cs).before
        ('\n' :: more) := by
  by_cases htriple : cs.take 2 = ['"', '"']
  · obtain ⟨ds, rfl⟩ : ∃ ds, cs = '"' :: '"' :: ds :=
      ⟨cs.drop 2, by simpa [htriple] using (List.take_append_drop 2 cs).symm⟩
    have hclosed : (tripleBody ds).closed = true := Body.closed_of_lexeme h
    show (tripleBody (ds ++ '\n' :: more)).lexeme _ _ _ = _
    rw [tripleBody_feed more hclosed, Body.lexeme_before _ hclosed]
    rfl
  · have htriple' : ¬(cs ++ '\n' :: more).take 2 = ['"', '"'] := by
      rcases cs with _ | ⟨d, _ | ⟨e, cs⟩⟩
      · simp
      · simp
      · exact htriple
    rw [if_neg htriple] at h ⊢
    have hclosed := Body.closed_of_lexeme h
    rw [if_neg htriple', scanString, stringBody_feed more hclosed, Body.lexeme_before _ hclosed]
    rfl

theorem takeFraction_feed (cs : List Char) : takeFraction (cs ++ '\n' :: more)
    = ((takeFraction cs).1, (takeFraction cs).2 ++ '\n' :: more) := by
  rcases cs with _ | ⟨c, _ | ⟨d, cs⟩⟩
  · rfl
  · by_cases hc : c = '.'
    · subst hc
      rfl
    · simp [takeFraction, hc]
  · by_cases hc : c = '.'
    · subst hc
      simp only [takeFraction, List.cons_append]
      split
      · rw [← List.cons_append, Text.takeWhile_feed more (by decide),
          Text.dropWhile_feed more (by decide)]
      · rfl
    · simp [takeFraction, hc]

theorem takeExponent_feed (cs : List Char) : takeExponent (cs ++ '\n' :: more)
    = ((takeExponent cs).1, (takeExponent cs).2 ++ '\n' :: more) := by
  rcases cs with _ | ⟨e, _ | ⟨s, cs⟩⟩
  · rfl
  · simp only [takeExponent, List.cons_append, List.nil_append]
    split <;> rfl
  · simp only [takeExponent, List.cons_append]
    split
    · split
      · rw [Text.takeWhile_feed more (by decide), Text.dropWhile_feed more (by decide)]
      · rw [← List.cons_append, Text.takeWhile_feed more (by decide),
          Text.dropWhile_feed more (by decide)]
    · rfl

theorem scanDecimal_feed (cs : List Char) :
    scanDecimal (cs ++ '\n' :: more) = (scanDecimal cs).before ('\n' :: more) := by
  simp only [scanDecimal, Text.takeWhile_feed more (show isGrouped '\n' = false by decide),
    Text.dropWhile_feed more (show isGrouped '\n' = false by decide), takeFraction_feed,
    takeExponent_feed, Text.takeWhile_feed more (show isIdentContinue '\n' = false by decide),
    Text.dropWhile_feed more (show isIdentContinue '\n' = false by decide)]
  rfl

theorem scanNumber_of_plain {c : Char} {cs : List Char}
    (h : c = '0' → ∀ mark, cs.head? = some mark → isBaseMark mark = false) :
    scanNumber (c :: cs) = scanDecimal (c :: cs) := by
  unfold scanNumber
  split
  next mark rest heq =>
    obtain ⟨rfl, rfl⟩ := List.cons.inj heq
    rw [if_neg (by simp [h rfl mark rfl])]
  next => rfl

theorem scanNumber_feed (c : Char) (cs : List Char) :
    scanNumber (c :: cs ++ '\n' :: more) = (scanNumber (c :: cs)).before ('\n' :: more) := by
  -- no base mark is a line feed, so both sides have one or none
  by_cases hmark : c = '0' ∧ ∃ mark, cs.head? = some mark ∧ isBaseMark mark = true
  · obtain ⟨rfl, mark, hhead, hmark⟩ := hmark
    rcases cs with _ | ⟨d, cs⟩
    · cases hhead
    · obtain rfl := Option.some.inj hhead
      have hfeed : (fun c => Char.isAlphanum c || decide (c = '_')) '\n' = false := by decide
      simp only [scanNumber, List.cons_append, if_pos hmark]
      rw [Text.takeWhile_feed more hfeed, Text.dropWhile_feed more hfeed]
      rfl
  · have hplain : c = '0' → ∀ mark, cs.head? = some mark → isBaseMark mark = false := by
      intro hc mark hhead
      by_contra hbase
      exact hmark ⟨hc, mark, hhead, by simpa using hbase⟩
    have hplain' : c = '0' → ∀ mark, (cs ++ '\n' :: more).head? = some mark →
        isBaseMark mark = false := by
      intro hc mark hhead
      cases cs with
      | nil =>
        obtain rfl := Option.some.inj hhead
        rfl
      | cons d cs => exact hplain hc mark hhead
    rw [List.cons_append, scanNumber_of_plain hplain, scanNumber_of_plain hplain']
    exact scanDecimal_feed more (c :: cs)

theorem scanWord_feed (cs : List Char) :
    scanWord (cs ++ '\n' :: more) = (scanWord cs).before ('\n' :: more) := by
  simp only [scanWord, Text.takeWhile_feed more (show isIdentContinue '\n' = false by decide),
    Text.dropWhile_feed more (show isIdentContinue '\n' = false by decide)]
  rfl

/-- No operator goes over a line feed. -/
theorem punctuation_feed (c : Char) (cs : List Char) :
    punctuation? (c :: (cs ++ '\n' :: more)) = punctuation? (c :: cs) := by
  rcases cs with _ | ⟨d, _ | ⟨e, cs⟩⟩
  · simp [punctuation?]
  · simp [punctuation?]
  · rfl

theorem scanPunctuation_feed {c : Char} {cs : List Char}
    (h : (scanPunctuation c cs).kind ≠ .illegal) :
    scanPunctuation c (cs ++ '\n' :: more) = (scanPunctuation c cs).before ('\n' :: more) := by
  unfold scanPunctuation at h ⊢
  rw [punctuation_feed]
  cases hfound : punctuation? (c :: cs) with
  | none =>
    rw [hfound] at h
    exact absurd rfl h
  | some found =>
    have hwidth : found.2 - 1 ≤ cs.length := by
      obtain ⟨-, text, rest, rfl, -, hwidth⟩ := punctuation_spelled hfound
      rw [hwidth, List.length_append]
      omega
    dsimp only
    rw [List.take_append_of_le_length hwidth, List.drop_append_of_le_length hwidth]
    rfl

/-- A lexeme that is a token is the same in front of a line feed. -/
theorem scan_feed {c : Char} {cs : List Char} (h : (scan c cs).kind ≠ .illegal) :
    scan c (cs ++ '\n' :: more) = (scan c cs).before ('\n' :: more) := by
  unfold scan at h ⊢
  rw [Text.followedBy_feed more (show '*' ≠ '\n' by decide),
    Text.followedBy_feed more (show '"' ≠ '\n' by decide)]
  by_cases hcomment : (c = '/' && cs.head? = some '*') = true
  · rw [if_pos hcomment] at h
    exact absurd rfl h
  by_cases hfeed : c = '\n'
  · simp only [if_neg hcomment, if_pos hfeed]
    rfl
  by_cases hquote : c = '"'
  · simp only [if_neg hcomment, if_neg hfeed, if_pos hquote] at h ⊢
    exact scanQuoted_feed more h
  by_cases hraw : c = Text.backtick
  · simp only [if_neg hcomment, if_neg hfeed, if_neg hquote, if_pos hraw] at h ⊢
    exact scanRaw_feed more h
  simp only [if_neg hcomment, if_neg hfeed, if_neg hquote, if_neg hraw] at h ⊢
  by_cases htemplate : (c = 't' && cs.head? = some '"') = true
  · simp only [if_pos htemplate] at h ⊢
    obtain ⟨ds, rfl⟩ := Text.cons_of_followedBy htemplate
    have hclosed : (templateBody ds).closed = true := Body.closed_of_lexeme h
    show (templateBody (ds ++ '\n' :: more)).lexeme _ _ _ = _
    rw [templateBody_feed more hclosed, Body.lexeme_before _ hclosed]
    rfl
  simp only [if_neg htemplate] at h ⊢
  by_cases hdigit : c.isDigit = true
  · simp only [if_pos hdigit]
    exact scanNumber_feed more c cs
  by_cases hstart : isIdentStart c = true
  · simp only [if_neg hdigit, if_pos hstart]
    exact scanWord_feed more (c :: cs)
  simp only [if_neg hdigit, if_neg hstart] at h ⊢
  exact scanPunctuation_feed more h

/-! ## Tokens -/

/-- A gap ends in front of a line feed unless a comment is open there. -/
theorem skipGap_feed {cs : List Char}
    (h : ∀ c rest, (skipGap cs).2 = c :: rest → (scan c rest).kind ≠ .illegal) :
    skipGap (cs ++ '\n' :: more) = ((skipGap cs).1, (skipGap cs).2 ++ '\n' :: more) := by
  fun_induction skipGap cs with
  | case1 => exact skipGap_of_lineEnd (by simp)
  | case2 c cs hgap ih =>
    rw [List.cons_append, skipGap, if_pos hgap, ih h]
    rfl
  | case3 c cs hgap hline ih =>
    rw [List.cons_append, skipGap, if_neg hgap, Text.followedBy_feed more (by decide), if_pos hline,
      Text.closeLine_feed, ih h]
    rfl
  | case4 c cs hgap hline hblock hcomment =>
    -- an open comment is not skipped, and the lexeme that starts there is illegal
    have hopen : (scan c cs).kind = .illegal := by
      rw [scan, if_pos hblock]
      rfl
    exact absurd hopen (h c cs rfl)
  | case5 c cs hgap hline hblock comment hcomment ih =>
    obtain ⟨ds, rfl⟩ := Text.cons_of_followedBy hblock
    have hcomment' : Text.closeComment (('*' :: ds ++ '\n' :: more).drop 1) = some _ :=
      Text.closeComment_feed more hcomment
    rw [List.cons_append, skipGap, if_neg hgap, Text.followedBy_feed more (by decide), if_neg hline,
      Text.followedBy_feed more (by decide), if_pos hblock]
    split
    next hnone =>
      rw [hcomment'] at hnone
      cases hnone
    next comment' hsome =>
      rw [hcomment'] at hsome
      obtain rfl := Option.some.inj hsome
      rw [ih h]
      rfl
  | case6 c cs hgap hline hblock =>
    rw [List.cons_append, skipGap, if_neg hgap, Text.followedBy_feed more (by decide), if_neg hline,
      Text.followedBy_feed more (by decide), if_neg hblock]

/-- The token of a line feed. -/
def feed (pos : Position) : Token := ⟨.newline, "\n", none, pos⟩

theorem tokensFrom_nil (pos : Position) : tokensFrom pos [] = [endOfText pos] := by
  have hgap : skipGap [] = ([], []) := by rw [skipGap.eq_def]
  exact tokensFrom_of_end hgap

/-- The tokens of a text are the same in front of a line feed if all of them are legal, and then the
    tokens of what follows come. -/
theorem tokensFrom_feed {pos : Position} {cs : List Char}
    (h : ∀ t ∈ tokensFrom pos cs, t.kind ≠ .illegal) :
    tokensFrom pos (cs ++ '\n' :: more) = beforeEnd (tokensFrom pos cs)
      ++ feed (pos.after cs) :: tokensFrom ((pos.after cs).next '\n') more := by
  fun_induction tokensFrom pos cs with
  | case1 pos cs gap hgap =>
    have hcs : gap = cs := by
      have happend := skipGap_append cs
      rwa [hgap, List.append_nil] at happend
    have hfeed : skipGap (cs ++ '\n' :: more) = (gap, '\n' :: more) := by
      rw [skipGap_feed more (by simp [hgap]), hgap]
      rfl
    rw [tokensFrom_of_skipGap hfeed, hcs]
    rfl
  | case2 pos cs gap c rest hgap lexeme start ih =>
    rw [List.forall_mem_cons] at h
    have hfeed : skipGap (cs ++ '\n' :: more) = (gap, c :: (rest ++ '\n' :: more)) := by
      rw [skipGap_feed more, hgap]
      · rfl
      · intro d ds hrest
        rw [hgap] at hrest
        obtain ⟨rfl, rfl⟩ := List.cons.inj hrest
        exact h.1
    have hend : pos.after cs = (start.after lexeme.text).after lexeme.rest := by
      rw [← skipGap_append cs, hgap, Position.after_append, ← scan_append c rest,
        Position.after_append]
    have hinside : lexeme.kind ≠ .eof := (written_scan c rest).inside
    have hcons (ts : List Token) : beforeEnd (⟨lexeme.kind, lexeme.literal, lexeme.raw, start⟩ :: ts)
        = ⟨lexeme.kind, lexeme.literal, lexeme.raw, start⟩ :: beforeEnd ts := by
      simp [beforeEnd, hinside]
    rw [tokensFrom_of_skipGap hfeed, scan_feed more h.1, hcons, hend]
    exact congrArg _ (ih h.2)

/-- The tokens of a text end with the one that ends it. -/
theorem tokenize_eq_concat (text : String) :
    tokenize text = beforeEnd (tokenize text) ++ [endOfText (endPosition text)] := by
  obtain ⟨front, hfront, hinside⟩ := tokensFrom_eq_concat .start text.toList
  rw [after_start_eq_endPosition, String.ofList_toList] at hfront
  have hbefore : beforeEnd (tokenize text) = front := by
    rw [tokenize, tokenizeAt, hfront, beforeEnd,
      List.takeWhile_append_of_pos (by simpa using hinside)]
    simp [endOfText]
  rw [hbefore]
  exact hfront

theorem mem_beforeEnd {text : String} {t : Token} (ht : t ∈ tokenize text) (hkind : t.kind ≠ .eof) :
    t ∈ beforeEnd (tokenize text) := by
  rw [tokenize_eq_concat, List.mem_append, List.mem_singleton] at ht
  rcases ht with ht | rfl
  · exact ht
  · exact absurd rfl hkind

end Token

end Welle
