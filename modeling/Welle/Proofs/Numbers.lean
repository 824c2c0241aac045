import Mathlib
import Welle.Proofs.Literals
import Welle.Token.Lexeme

set_option autoImplicit false

/-! # Scanning literals

A literal is scanned as a whole, as a float or as an integer, whatever stands behind it, if that
neither goes on with a word nor with a fraction. And what is scanned as a number is scanned in the same
way when it stands alone, since nothing of what follows decides how far its parts reach. -/

namespace Welle.Numeral

/-! ## Digits -/

variable {base : Nat} {isFloat : Bool} {c : Char} {cs rest : List Char}

theorem digitValue?_of_isDigit (h : c.isDigit = true) :
    Text.digitValue? c = some (c.toNat - '0'.toNat) := by
  rw [Text.digitValue?, if_pos]
  simpa [Char.isDigit, Char.le_def, UInt32.le_iff_toNat_le] using h

/-- The characters with a value are the digits, which are below ten, and some letters. -/
theorem digitValue?_cases {value : Nat} (h : Text.digitValue? c = some value) :
    (c.isDigit = true ∧ value < 10) ∨ (c.isDigit = false ∧ c.isAlpha = true ∧ 10 ≤ value) := by
  cases hdigit : c.isDigit with
  | true =>
    rw [digitValue?_of_isDigit hdigit] at h
    simp only [Char.isDigit, Bool.and_eq_true, decide_eq_true_eq, UInt32.le_iff_toNat_le] at hdigit
    have hlast : c.toNat ≤ 57 := hdigit.2
    have hvalue : c.toNat - 48 = value := Option.some.inj h
    exact .inl ⟨rfl, by omega⟩
  | false =>
    refine .inr ⟨rfl, ?_⟩
    rw [Text.digitValue?, if_neg (by simpa [Char.isDigit, Char.le_def, UInt32.le_iff_toNat_le] using hdigit)]
      at h
    simp only [Char.isAlpha, Char.isUpper, Char.isLower, Bool.or_eq_true, Bool.and_eq_true,
      decide_eq_true_eq, Char.le_def, UInt32.le_iff_toNat_le] at h ⊢
    have hends : 'f'.val.toNat ≤ 'z'.val.toNat ∧ 'F'.val.toNat ≤ 'Z'.val.toNat := by decide
    split at h
    next hlower =>
      have hvalue := Option.some.inj h
      exact ⟨by omega, by omega⟩
    split at h
    next hupper =>
      have hvalue := Option.some.inj h
      exact ⟨by omega, by omega⟩
    · cases h

theorem isAlphanum_of_isDigitOf (h : Text.isDigitOf base c = true) : c.isAlphanum = true := by
  obtain ⟨value, hvalue, -⟩ := (Option.any_eq_true ..).1 h
  rw [Char.isAlphanum]
  rcases digitValue?_cases hvalue with ⟨hdigit, -⟩ | ⟨-, halpha, -⟩
  · rw [hdigit, Bool.or_true]
  · rw [halpha, Bool.true_or]

theorem isDigitOf_ten (c : Char) : Text.isDigitOf 10 c = c.isDigit := by
  cases hvalue : Text.digitValue? c with
  | none =>
    have hdigit : c.isDigit = false := by
      by_contra h
      rw [digitValue?_of_isDigit (by simpa using h)] at hvalue
      cases hvalue
    rw [Text.isDigitOf, hvalue, hdigit]
    rfl
  | some value =>
    rw [Text.isDigitOf, hvalue, Option.any_some]
    rcases digitValue?_cases hvalue with ⟨hdigit, hlt⟩ | ⟨hdigit, -, hle⟩
    · simpa [hdigit] using hlt
    · simpa [hdigit] using hle

/-! ## What stands behind a number -/

/-- A text behind a number that is not part of it. -/
structure EndsNumber (rest : List Char) : Prop where
  word : ∀ c, rest.head? = some c → Token.isIdentContinue c = false
  fraction : ∀ c ds, rest = '.' :: c :: ds → c.isDigit = false

theorem endsNumber_nil : EndsNumber [] := ⟨by simp, by simp⟩

theorem EndsNumber.not_grouped (h : EndsNumber rest) (hc : rest.head? = some c) :
    Token.isGrouped c = false := by
  have hword := h.word c hc
  simp only [Token.isIdentContinue, Token.isIdentStart, Bool.or_eq_false_iff] at hword
  rw [Token.isGrouped, hword.2, hword.1.1.1, Bool.or_false]

theorem EndsNumber.not_baseMark (h : EndsNumber rest) (hc : rest.head? = some c) (base : Nat) :
    (c, base) ∉ baseMarks := by
  have hmarks : ∀ entry ∈ baseMarks, Token.isIdentContinue entry.1 = true := by decide
  intro hmark
  have hcontinue := hmarks _ hmark
  rw [h.word c hc] at hcontinue
  cases hcontinue

/-! ## The parts of a number -/

theorem IsGroup.isGrouped (h : IsGroup 10 cs) : ∀ c ∈ cs, Token.isGrouped c = true := by
  intro c hc
  rw [Token.isGrouped, Bool.or_eq_true, decide_eq_true_eq, ← isDigitOf_ten]
  exact h.digit_or_underscore c hc

theorem IsGroup.exists_cons (h : IsGroup 10 cs) : ∃ c ds, cs = c :: ds ∧ c.isDigit = true := by
  obtain ⟨c, ds, rfl⟩ := List.exists_cons_of_ne_nil h.ne_nil
  exact ⟨c, ds, rfl, by rw [← isDigitOf_ten, (isGroup_cons_iff.1 h).1]⟩

/-- A group is taken as a whole where no further digits follow. -/
theorem IsGroup.span_append {behind : List Char} (h : IsGroup 10 cs)
    (hbehind : ∀ c, behind.head? = some c → Token.isGrouped c = false) :
    (cs ++ behind).takeWhile Token.isGrouped = cs
      ∧ (cs ++ behind).dropWhile Token.isGrouped = behind :=
  Text.span_append h.isGrouped hbehind

theorem IsPowerPart.not_grouped (h : IsPowerPart cs) (hrest : EndsNumber rest)
    (hc : (cs ++ rest).head? = some c) : Token.isGrouped c = false := by
  rcases h with rfl | ⟨mark, sign, digits, rfl, hmark, -, -⟩
  · exact hrest.not_grouped hc
  · obtain rfl : mark = c := Option.some.inj hc
    simp only [List.mem_cons, List.not_mem_nil, or_false] at hmark
    rcases hmark with rfl | rfl <;> rfl

theorem IsPointPart.not_grouped {power : List Char} (h : IsPointPart cs) (hpower : IsPowerPart power)
    (hrest : EndsNumber rest) (hc : (cs ++ (power ++ rest)).head? = some c) :
    Token.isGrouped c = false := by
  rcases h with rfl | ⟨digits, rfl, -⟩
  · exact hpower.not_grouped hrest hc
  · obtain rfl := Option.some.inj hc
    rfl

theorem takeFraction_append_rest {power : List Char} (h : IsPointPart cs) (hpower : IsPowerPart power)
    (hrest : EndsNumber rest) :
    Token.takeFraction (cs ++ (power ++ rest)) = (cs, power ++ rest) := by
  rcases h with rfl | ⟨digits, rfl, hdigits⟩
  · -- no fraction: what follows starts with no point in front of a digit
    rw [List.nil_append]
    unfold Token.takeFraction
    split
    next d ds hcs =>
      rcases hpower with rfl | ⟨mark, sign, digits, rfl, hmark, -, -⟩
      · rw [List.nil_append] at hcs
        rw [if_neg (by simp [hrest.fraction d ds hcs])]
      · rw [(List.cons.inj hcs).1] at hmark
        exact absurd hmark (by decide)
    · rfl
  · have htake := hdigits.span_append fun _ => hpower.not_grouped hrest
    obtain ⟨d, ds, rfl, hdigit⟩ := hdigits.exists_cons
    rw [List.cons_append, List.cons_append, Token.takeFraction.eq_def]
    simp only [hdigit, if_true]
    rw [← List.cons_append, htake.1, htake.2]

theorem takeExponent_append_rest (h : IsPowerPart cs) (hrest : EndsNumber rest) :
    Token.takeExponent (cs ++ rest) = (cs, rest) := by
  rcases h with rfl | ⟨mark, sign, digits, rfl, hmark, hsign, hdigits⟩
  · rw [List.nil_append]
    cases rest with
    | nil => rfl
    | cons c rest =>
      have hplain : (c = 'e' || c = 'E') = false := by
        by_contra hc
        simp only [Bool.not_eq_false, Bool.or_eq_true, decide_eq_true_eq] at hc
        have hword := hrest.word c rfl
        rcases hc with rfl | rfl <;> cases hword
      simp only [Token.takeExponent, hplain, Bool.false_eq_true, if_false]
  · have htake := hdigits.span_append fun _ => hrest.not_grouped
    have hmark : (mark = 'e' || mark = 'E') = true := by simpa using hmark
    obtain ⟨d, ds, rfl, hdigit⟩ := hdigits.exists_cons
    rw [List.cons_append] at htake
    simp only [List.mem_cons, List.not_mem_nil, or_false] at hsign
    rcases hsign with rfl | rfl | rfl <;> simp only [List.cons_append, List.nil_append] <;>
      rw [Token.takeExponent, if_pos hmark]
    · have hplain : (d = '+' || d = '-') = false := by
        by_contra hd
        simp only [Bool.not_eq_false, Bool.or_eq_true, decide_eq_true_eq] at hd
        rcases hd with rfl | rfl <;> cases hdigit
      simp only [hplain, Bool.false_eq_true, if_false, htake]
    · simp only [decide_true, Bool.true_or, if_true, htake]
    · simp only [decide_true, Bool.or_true, if_true, htake]

/-! ## Literals -/

/-- A decimal is scanned as a whole. -/
theorem scanDecimal_append_rest {whole point power : List Char}
    (h : Parts isFloat cs whole point power) (hrest : EndsNumber rest) :
    Token.scanDecimal (cs ++ rest) = .plain (if isFloat then .float else .int) cs rest := by
  obtain ⟨rfl, hwhole, hpoint, hpower, rfl⟩ := h
  have hend : rest.takeWhile Token.isIdentContinue = []
      ∧ rest.dropWhile Token.isIdentContinue = rest := by
    cases rest with
    | nil => exact ⟨rfl, rfl⟩
    | cons c rest => simp [hrest.word c rfl]
  have htake := hwhole.span_append fun _ => hpoint.not_grouped hpower hrest
  rw [List.append_assoc, List.append_assoc, Token.scanDecimal, htake.1, htake.2,
    takeFraction_append_rest hpoint hpower hrest]
  simp only [takeExponent_append_rest hpower hrest, hend.1, hend.2, List.append_nil,
    List.append_assoc]
  cases point.isEmpty && power.isEmpty <;> rfl

/-- A literal starts with a digit. -/
theorem IsLiteral.exists_cons (h : IsLiteral base isFloat cs) :
    ∃ c ds, cs = c :: ds ∧ c.isDigit = true := by
  cases h with
  | based _ _ => exact ⟨'0', _, rfl, rfl⟩
  | integer hdigits => exact hdigits.exists_cons
  | float hwhole _ _ _ =>
    obtain ⟨c, ds, rfl, hdigit⟩ := hwhole.exists_cons
    exact ⟨c, _, List.cons_append, hdigit⟩

theorem isBaseMark_iff : Token.isBaseMark c = true ↔ ∃ base, (c, base) ∈ baseMarks := by
  simp only [Token.isBaseMark, baseMarks, List.mem_cons, List.not_mem_nil, Prod.mk.injEq, or_false,
    exists_or, exists_eq_right, Bool.or_eq_true, decide_eq_true_eq, or_assoc]

/-- A literal is scanned as a whole. -/
theorem scanNumber_append_rest (h : IsLiteral base isFloat cs) (hrest : EndsNumber rest) :
    Token.scanNumber (cs ++ rest) = .plain (if isFloat then .float else .int) cs rest := by
  have hdecimal (h : IsLiteral 10 isFloat cs) :
      Token.scanNumber (cs ++ rest) = .plain (if isFloat then .float else .int) cs rest := by
    obtain ⟨whole, point, power, hparts⟩ := isLiteral_ten_iff.1 h
    rw [← scanDecimal_append_rest hparts hrest]
    unfold Token.scanNumber
    split
    next mark digits hcs =>
      rw [if_neg]
      rw [isBaseMark_iff]
      rintro ⟨base, hmark⟩
      exact hparts.not_baseMark (fun base hhead => hrest.not_baseMark hhead base) hcs base hmark
    next => rfl
  cases h with
  | based hmark hdigits =>
    rename_i mark digits
    have hword : ∀ c, rest.head? = some c → (c.isAlphanum || c = '_') = false := by
      intro c hc
      have hcontinue := hrest.word c hc
      simp only [Token.isIdentContinue, Token.isIdentStart, Bool.or_eq_false_iff] at hcontinue
      simp [Char.isAlphanum, hcontinue]
    have htake : (digits ++ rest).takeWhile (fun c => c.isAlphanum || c = '_') = digits
        ∧ (digits ++ rest).dropWhile (fun c => c.isAlphanum || c = '_') = rest := by
      refine Text.span_append (fun c hc => ?_) hword
      rw [Bool.or_eq_true, decide_eq_true_eq]
      exact (hdigits.digit_or_underscore c hc).imp_left isAlphanum_of_isDigitOf
    rw [List.cons_append, List.cons_append, Token.scanNumber, if_pos (isBaseMark_iff.2 ⟨_, hmark⟩)]
    simp only [htake.1, htake.2, Bool.false_eq_true, if_false]
  | integer hdigits => exact hdecimal (.integer hdigits)
  | float hwhole hpoint hpower hne => exact hdecimal (.float hwhole hpoint hpower hne)

end Welle.Numeral

namespace Welle.Token

/-! ## Scanning again -/

variable {c : Char} {cs behind : List Char}

theorem head?_of_start {xs ys : List Char} (h : xs <+: ys) (hc : xs.head? = some c) :
    ys.head? = some c := by
  obtain ⟨zs, rfl⟩ := h
  rw [List.head?_append, hc]
  rfl

/-- Characters of a class are taken again from what they were taken from, however much of it is
    left. -/
theorem span_again {p : Char → Bool} (h : behind <+: cs.dropWhile p) :
    (cs.takeWhile p ++ behind).takeWhile p = cs.takeWhile p
      ∧ (cs.takeWhile p ++ behind).dropWhile p = behind := by
  refine Text.span_append (fun c hc => List.mem_takeWhile_imp hc) fun c hc => ?_
  have hhead := List.head?_dropWhile_not p cs
  rw [head?_of_start h hc] at hhead
  simpa using hhead

theorem dropWhile_takeWhile (p : Char → Bool) (cs : List Char) :
    (cs.takeWhile p).dropWhile p = [] :=
  List.dropWhile_eq_nil_iff.2 fun _ hc => List.mem_takeWhile_imp hc

/-- Where a fraction ends does not depend on what follows. -/
theorem takeFraction_again (h : behind <+: (takeFraction cs).2) :
    takeFraction ((takeFraction cs).1 ++ behind) = ((takeFraction cs).1, behind) := by
  by_cases hpoint : ∃ d ds, cs = '.' :: d :: ds ∧ d.isDigit = true
  · obtain ⟨d, ds, rfl, hdigit⟩ := hpoint
    have htake : takeFraction ('.' :: d :: ds)
        = ('.' :: (d :: ds).takeWhile isGrouped, (d :: ds).dropWhile isGrouped) := by
      rw [takeFraction, if_pos hdigit]
    rw [htake] at h ⊢
    have hspan := span_again h
    have hgrouped : isGrouped d = true := by rw [isGrouped, hdigit, Bool.true_or]
    rw [List.takeWhile_cons_of_pos hgrouped, List.cons_append] at hspan ⊢
    rw [List.cons_append, takeFraction, if_pos hdigit, hspan.1, hspan.2]
  · have hplain {zs : List Char} (hzs : zs <+: cs) : takeFraction zs = ([], zs) := by
      obtain ⟨ds, rfl⟩ := hzs
      unfold takeFraction
      split
      next d rest =>
        refine if_neg fun hdigit => hpoint ⟨d, rest ++ ds, rfl, hdigit⟩
      next => rfl
    rw [hplain List.prefix_rfl] at h ⊢
    exact hplain h

/-- Where an exponent ends does not depend on what follows. -/
theorem takeExponent_again (h : behind <+: (takeExponent cs).2) :
    takeExponent ((takeExponent cs).1 ++ behind) = ((takeExponent cs).1, behind) := by
  cases cs with
  | nil =>
    obtain rfl := List.prefix_nil.1 h
    rfl
  | cons mark ds =>
    by_cases hmark : (mark = 'e' || mark = 'E') = true
    swap
    · have hplain (zs : List Char) : takeExponent (mark :: zs) = ([], mark :: zs) := by
        cases zs <;> exact if_neg hmark
      rw [hplain] at h ⊢
      cases behind with
      | nil => rfl
      | cons c behind =>
        obtain rfl := (List.cons_prefix_cons.1 h).1
        exact hplain behind
    -- what is left of the text starts with a sign only if the text does
    by_cases hsign : ∃ sign digits, ds = sign :: digits ∧ (sign = '+' || sign = '-') = true
    · obtain ⟨sign, digits, rfl, hsign⟩ := hsign
      have htake : takeExponent (mark :: sign :: digits)
          = (mark :: sign :: digits.takeWhile isGrouped, digits.dropWhile isGrouped) := by
        simp only [takeExponent, if_pos hmark, if_pos hsign]
      rw [htake] at h ⊢
      have hspan := span_again h
      simp only [List.cons_append, takeExponent, if_pos hmark, if_pos hsign, hspan.1, hspan.2]
    · have hplain {zs : List Char} (hzs : zs <+: ds) : takeExponent (mark :: zs)
          = (mark :: zs.takeWhile isGrouped, zs.dropWhile isGrouped) := by
        obtain ⟨rest, rfl⟩ := hzs
        cases zs with
        | nil => exact if_pos hmark
        | cons c zs =>
          rw [takeExponent, if_pos hmark]
          exact if_neg fun hc => hsign ⟨c, zs ++ rest, rfl, hc⟩
      rw [hplain List.prefix_rfl] at h ⊢
      have hspan := span_again h
      have hprefix : ds.takeWhile isGrouped ++ behind <+: ds := by
        obtain ⟨rest, hrest⟩ := h
        refine ⟨rest, ?_⟩
        rw [List.append_assoc, hrest, List.takeWhile_append_dropWhile]
      rw [List.cons_append, hplain hprefix, hspan.1, hspan.2]

theorem scanDecimal_text (cs : List Char) :
    scanDecimal (scanDecimal cs).text = .plain (scanDecimal cs).kind (scanDecimal cs).text [] := by
  simp only [scanDecimal, Lexeme.plain, List.append_assoc]
  generalize hbehind : cs.dropWhile isGrouped = behind
  generalize hfraction : takeFraction behind = fraction
  generalize hexponent : takeExponent fraction.2 = exponent
  generalize htail : exponent.2.takeWhile isIdentContinue = tail
  -- from the last part to the first: each is taken again in front of what was taken behind it
  have hword : tail <+: exponent.2 := htail ▸ List.takeWhile_prefix _
  have hpower : takeExponent (exponent.1 ++ tail) = (exponent.1, tail) := by
    subst hexponent
    exact takeExponent_again hword
  have hrest : exponent.1 ++ tail <+: fraction.2 := by
    rw [← takeExponent_append fraction.2, hexponent]
    exact (List.prefix_append_right_inj _).2 hword
  have hpoint : takeFraction (fraction.1 ++ (exponent.1 ++ tail)) = (fraction.1, exponent.1 ++ tail) := by
    subst hfraction
    exact takeFraction_again hrest
  have hmarked : fraction.1 ++ (exponent.1 ++ tail) <+: behind := by
    rw [← takeFraction_append behind, hfraction]
    exact (List.prefix_append_right_inj _).2 hrest
  have hspan := span_again (hbehind ▸ hmarked)
  have hend : tail.takeWhile isIdentContinue = tail ∧ tail.dropWhile isIdentContinue = [] := by
    subst htail
    exact ⟨List.takeWhile_idem, dropWhile_takeWhile _ _⟩
  simp only [hspan.1, hspan.2, hpoint, hpower, hend.1, hend.2]

/-- A number is scanned in the same way when it stands alone. -/
theorem scanNumber_text (cs : List Char) :
    scanNumber (scanNumber cs).text = .plain (scanNumber cs).kind (scanNumber cs).text [] := by
  by_cases hmarked : ∃ mark digits, cs = '0' :: mark :: digits ∧ isBaseMark mark = true
  · obtain ⟨mark, digits, rfl, hmark⟩ := hmarked
    simp only [scanNumber, if_pos hmark, Lexeme.plain, List.takeWhile_idem, dropWhile_takeWhile]
  · have hplain {zs : List Char} (hzs : zs <+: cs) : scanNumber zs = scanDecimal zs := by
      obtain ⟨rest, rfl⟩ := hzs
      unfold scanNumber
      split
      next mark digits => exact if_neg fun hmark => hmarked ⟨mark, digits ++ rest, rfl, hmark⟩
      next => rfl
    have hprefix : (scanDecimal cs).text <+: cs := ⟨_, scanDecimal_append cs⟩
    rw [hplain List.prefix_rfl, hplain hprefix, scanDecimal_text]

end Welle.Token
