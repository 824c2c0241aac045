import Welle.Proofs.Printing.Lexing

set_option autoImplicit false

/-! # Tokens of numbers

The scanner and the check of a literal decide on their own where a number ends and whether it is a
float. They agree: a text that is accepted is one token, of the kind that the check says, and a
number token of any text that is accepted has that kind too. For the latter it is scanned a second
time, standing alone. -/

namespace Welle.Token

/-- The kinds of numbers. -/
def Kind.isNumber (kind : Kind) : Bool := kind = .int || kind = .float

variable {c : Char} {cs : List Char}

theorem isNumber_body (b : Body) {kind : Kind} (h : kind.isNumber = false) (fault : Fault)
    (mark : List Char) : (b.lexeme kind fault mark).kind.isNumber = false := by
  unfold Body.lexeme
  split
  · exact h
  · rfl

theorem isNumber_scanRaw (cs : List Char) : (scanRaw cs).kind.isNumber = false := by
  unfold scanRaw
  dsimp only
  split <;> rfl

theorem isNumber_scanWord (cs : List Char) : (scanWord cs).kind.isNumber = false := by
  change (Kind.ofWord _).isNumber = false
  rcases Kind.ofWord_eq (String.ofList (cs.takeWhile isIdentContinue)) with h | h
  · rw [h]
    rfl
  · by_contra hnumber
    simp only [Bool.not_eq_false, Kind.isNumber, Bool.or_eq_true, decide_eq_true_eq] at hnumber
    rcases hnumber with hnumber | hnumber
    · rw [hnumber] at h
      cases h
    · rw [hnumber] at h
      cases h

theorem isNumber_scanPunctuation (c : Char) (cs : List Char) :
    (scanPunctuation c cs).kind.isNumber = false := by
  unfold scanPunctuation
  split
  next kind width h =>
    obtain ⟨-, -, -, -, hint, hfloat⟩ := punctuation_kind h
    simp [Lexeme.plain, Kind.isNumber, hint, hfloat]
  next => rfl

/-- Only what starts with a digit is scanned as a number. -/
theorem isDigit_of_isNumber (h : (scan c cs).kind.isNumber = true) : c.isDigit = true := by
  by_contra hdigit
  have hnot : (scan c cs).kind.isNumber = false := by
    unfold scan
    split
    · rfl
    split
    · rfl
    split
    · split
      · exact isNumber_body _ rfl _ _
      · exact isNumber_body _ rfl _ _
    split
    · exact isNumber_scanRaw cs
    split
    · exact isNumber_body _ rfl _ _
    split
    · exact isNumber_scanWord (c :: cs)
    · exact isNumber_scanPunctuation c cs
  rw [hnot] at h
  cases h

/-- A number stands for itself. -/
theorem literal_scanNumber (cs : List Char) :
    (scanNumber cs).literal.toList = (scanNumber cs).text := by
  unfold scanNumber
  split
  · split
    · exact String.toList_ofList
    · exact String.toList_ofList
  · exact String.toList_ofList

/-- A number token of a text is what a number at its place is scanned as. -/
theorem exists_scanNumber {text : String} {origin : Position} {t : Token}
    (ht : t ∈ tokenizeAt text origin) (hkind : t.kind.isNumber = true) :
    ∃ cs, t.kind = (scanNumber cs).kind ∧ t.literal.toList = (scanNumber cs).text := by
  obtain ⟨before, behind, -, rfl⟩ := mem_tokensFrom ht
  cases behind with
  | nil => cases hkind
  | cons c cs =>
    rw [ofHead, scan_of_isDigit (isDigit_of_isNumber hkind)]
    exact ⟨c :: cs, rfl, literal_scanNumber (c :: cs)⟩

/-- The kind of a literal that stands alone. -/
theorem kind_of_text {base : Nat} {isFloat : Bool}
    (h : Numeral.IsLiteral base isFloat (scanNumber cs).text) :
    (scanNumber cs).kind = if isFloat then .float else .int := by
  have hagain := scanNumber_text cs
  have hliteral := Numeral.scanNumber_append_rest h Numeral.endsNumber_nil
  rw [List.append_nil, hagain] at hliteral
  exact congrArg Lexeme.kind hliteral

/-- A text that is accepted as a number is one token, of the kind that the check says. Where a number
    token of any text is accepted, its kind is the one that the check says. -/
theorem tokenize_literal {literal : String} {n : Numeral.Normalized}
    (h : Numeral.normalize literal = .ok n) :
    tokenize literal = [⟨if n.isFloat then .float else .int, literal, none, .start⟩,
        endOfText (endPosition literal)]
      ∧ ∀ text origin, ∀ t ∈ tokenizeAt text origin, t.kind = .int ∨ t.kind = .float →
        t.literal = literal → (t.kind = .float ↔ n.isFloat = true) := by
  have hliteral := (Numeral.normalize_eq_ok_iff.1 h).1
  refine ⟨?_, fun text origin t ht hkind hsame => ?_⟩
  · have htokens := tokensFrom_number .start hliteral Numeral.endsNumber_nil
    rw [List.append_nil, tokensFrom_nil, after_start_eq_endPosition, String.ofList_toList] at htokens
    exact htokens
  · -- what follows the token in its text may not end a number, so the literal is scanned again
    obtain ⟨cs, hscan, htext⟩ := exists_scanNumber ht (by simpa [Kind.isNumber] using hkind)
    rw [← hsame, htext] at hliteral
    rw [hscan, kind_of_text hliteral]
    cases n.isFloat <;> simp

/-- A float with underscores and a sign, alone and behind a sum that looks like an exponent. -/
theorem tokenize_literal_signed :
    tokenize "1_0.5E+2_0"
        = [⟨.float, "1_0.5E+2_0", none, ⟨1, 1⟩⟩, endOfText (endPosition "1_0.5E+2_0")]
      ∧ ∃ t ∈ tokenizeAt "xs[0x1e+1_0.5E+2_0...3]" .start,
        t.pos = ⟨1, 9⟩ ∧ t.literal = "1_0.5E+2_0" ∧ t.kind = .float := by
  have h : Numeral.normalize "1_0.5E+2_0" = .ok ⟨"10.5e+20", 10, true⟩ := by decide +kernel
  obtain ⟨halone, hwithin⟩ := tokenize_literal h
  have hmem : ∃ t ∈ tokenizeAt "xs[0x1e+1_0.5E+2_0...3]" .start,
      t.pos = ⟨1, 9⟩ ∧ t.literal = "1_0.5E+2_0" ∧ t.kind.isNumber = true := by decide +kernel
  obtain ⟨t, ht, hpos, hliteral, hkind⟩ := hmem
  exact ⟨halone, t, ht, hpos, hliteral,
    (hwithin _ _ t ht (by simpa [Kind.isNumber] using hkind) hliteral).2 rfl⟩

end Welle.Token
