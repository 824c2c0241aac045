import Welle.Token.Lexeme

set_option autoImplicit false

/-! # From text to tokens

`Token.tokenize` cuts a text into tokens. Each step skips a gap (blanks and complete comments) and
reads one lexeme, and the list ends with the one token of kind `eof`. A token stands where the text
before it ends: positions are those of `Position.after`. -/

namespace Welle.Token

/-! ## Gaps -/

/-- Splits behind the gap at the head of a text: blanks, line comments up to their line feed, and
    block comments that are closed. -/
def skipGap (cs : List Char) : List Char × List Char :=
  match cs with
  | [] => ([], [])
  | c :: cs =>
    if isGap c then Text.onto [c] (skipGap cs)
    else if c = '/' && cs.head? = some '/' then
      Text.onto (c :: (Text.closeLine cs).1) (skipGap (Text.closeLine cs).2)
    else if c = '/' && cs.head? = some '*' then
      match _h : Text.closeComment (cs.drop 1) with
      | none => ([], c :: cs)
      | some comment => Text.onto (c :: (cs.take 1 ++ comment.1)) (skipGap comment.2)
    else ([], c :: cs)
termination_by cs.length
decreasing_by
  all_goals simp only [List.length_cons]
  · omega
  · have := Text.length_snd_le (Text.closeLine_append cs); omega
  · have := Text.length_snd_le (Text.closeComment_append _h)
    simp only [List.length_drop] at this
    omega

/-- A gap and the text behind it are the text again. -/
theorem skipGap_append (cs : List Char) : (skipGap cs).1 ++ (skipGap cs).2 = cs := by
  fun_induction skipGap cs with
  | case1 => rfl
  | case2 c cs _ ih => simp [ih]
  | case3 c cs _ _ ih => simp [ih, Text.closeLine_append]
  | case4 => rfl
  | case5 c cs _ _ _ comment hcomment ih =>
    rw [Text.onto_append, ih, List.cons_append, List.append_assoc,
      Text.closeComment_append hcomment, List.take_append_drop]
  | case6 => rfl

/-! ## Tokens -/

/-- The tokens of a text whose first character stands at `pos`, up to and including `eof`. -/
def tokensFrom (pos : Position) (cs : List Char) : List Token :=
  match _h : skipGap cs with
  | (gap, []) => [endOfText (pos.after gap)]
  | (gap, c :: rest) =>
    let lexeme := scan c rest
    let start := pos.after gap
    ⟨lexeme.kind, lexeme.literal, lexeme.raw, start⟩
      :: tokensFrom (start.after lexeme.text) lexeme.rest
termination_by cs.length
decreasing_by
  have hgap := Text.length_snd_le (skipGap_append cs)
  have hscan := scan_rest_length c rest
  simp only [_h, List.length_cons] at hgap
  omega

/-- The tokens of a text that stands at `origin` within a larger one. -/
def tokenizeAt (text : String) (origin : Position) : List Token := tokensFrom origin text.toList

/-- The tokens of a text. -/
def tokenize (text : String) : List Token := tokenizeAt text .start

/-- The tokens in front of the end of the text. -/
def beforeEnd (tokens : List Token) : List Token := tokens.takeWhile (·.kind ≠ .eof)

end Welle.Token
