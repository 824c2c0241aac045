import Mathlib
import Welle.Proofs.Numbers

set_option autoImplicit false

/-! # Printed numbers

`IsDecimal` describes the texts that numbers are printed as. Such a text is a literal without
underscores, and with nothing in it that is written in another way, so it is accepted as it stands.
An integer is read back as itself, and a float as the number that its text stands for. -/

namespace Welle

namespace Numeral

/-! ## Decimal texts -/

/-- One digit or more. -/
structure IsDigits (cs : List Char) : Prop where
  ne_nil : cs ≠ []
  digits : ∀ c ∈ cs, c.isDigit = true

/-- Nothing, or a point and digits. -/
def IsFraction (cs : List Char) : Prop := cs = [] ∨ ∃ digits, cs = '.' :: digits ∧ IsDigits digits

/-- Nothing, or the mark of an exponent and digits, which may be negative. -/
def IsExponent (cs : List Char) : Prop :=
  cs = [] ∨ ∃ sign digits, cs = 'e' :: (sign ++ digits) ∧ (sign = [] ∨ sign = ['-'])
    ∧ IsDigits digits

/-- A printed number. A float has a fraction or an exponent. -/
def IsDecimal (isFloat : Bool) (cs : List Char) : Prop :=
  ∃ whole fraction exponent, cs = whole ++ (fraction ++ exponent) ∧ IsDigits whole
    ∧ IsFraction fraction ∧ IsExponent exponent ∧ isFloat = !(fraction.isEmpty && exponent.isEmpty)

theorem isDigits_toDigits (n : Nat) : IsDigits (Nat.toDigits 10 n) where
  ne_nil := Nat.toDigits_ne_nil
  digits := fun _ hc => Nat.isDigit_of_mem_toDigits (by omega) (by omega) hc

theorem ne_of_isDigit {c d : Char} (h : c.isDigit = true) (hd : d.isDigit = false) : c ≠ d := by
  rintro rfl
  rw [h] at hd
  cases hd

theorem IsDigits.isGroup {cs : List Char} (h : IsDigits cs) : IsGroup 10 cs := by
  obtain ⟨hne, hdigits⟩ := h
  induction cs with
  | nil => exact absurd rfl hne
  | cons c cs ih =>
    rw [List.forall_mem_cons, ← isDigitOf_ten] at hdigits
    by_cases hcs : cs = []
    · subst hcs
      exact .digit hdigits.1
    · exact .next hdigits.1 (ih hcs hdigits.2)

/-- Nothing in a text is left out or written in another way when it is cleaned. -/
def IsClean (cs : List Char) : Prop := ∀ c ∈ cs, c ≠ '_' ∧ c ≠ 'E'

theorem IsClean.append {cs ds : List Char} (h : IsClean cs) (h' : IsClean ds) : IsClean (cs ++ ds) :=
  List.forall_mem_append.2 ⟨h, h'⟩

theorem IsDigits.isClean {cs : List Char} (h : IsDigits cs) : IsClean cs := fun c hc =>
  ⟨ne_of_isDigit (h.digits c hc) rfl, ne_of_isDigit (h.digits c hc) rfl⟩

theorem IsClean.cleaned_eq {cs : List Char} (h : IsClean cs) : cleaned 10 cs = cs := by
  rw [cleaned_ten fun hmem => (h _ hmem).2 rfl, stripUnderscores, List.filter_eq_self]
  exact fun c hc => by simpa using (h c hc).1

/-- A printed number is a literal that is clean. -/
theorem IsDecimal.isLiteral {isFloat : Bool} {cs : List Char} (h : IsDecimal isFloat cs) :
    IsLiteral 10 isFloat cs ∧ IsClean cs := by
  obtain ⟨whole, fraction, exponent, rfl, hwhole, hfraction, hexponent, hfloat⟩ := h
  have hpoint : IsPointPart fraction ∧ IsClean fraction := by
    rcases hfraction with rfl | ⟨digits, rfl, hdigits⟩
    · exact ⟨.inl rfl, List.forall_mem_nil _⟩
    · refine ⟨.inr ⟨digits, rfl, hdigits.isGroup⟩, List.forall_mem_cons.2 ⟨by decide, hdigits.isClean⟩⟩
  have hpower : IsPowerPart exponent ∧ IsClean exponent := by
    rcases hexponent with rfl | ⟨sign, digits, rfl, hsign, hdigits⟩
    · exact ⟨.inl rfl, List.forall_mem_nil _⟩
    · have hsigned : IsClean sign := by
        rcases hsign with rfl | rfl
        · exact List.forall_mem_nil _
        · exact List.forall_mem_singleton.2 (by decide)
      refine ⟨.inr ⟨'e', sign, digits, rfl, by decide, ?_, hdigits.isGroup⟩,
        List.forall_mem_cons.2 ⟨by decide, hsigned.append hdigits.isClean⟩⟩
      rcases hsign with rfl | rfl <;> decide
  refine ⟨isLiteral_ten_iff.2 ⟨whole, fraction, exponent, rfl, hwhole.isGroup, hpoint.1, hpower.1,
    hfloat⟩, hwhole.isClean.append (hpoint.2.append hpower.2)⟩

/-- A printed number is accepted as it stands. -/
theorem normalize_of_isDecimal {isFloat : Bool} {literal : String}
    (h : IsDecimal isFloat literal.toList) : normalize literal = .ok ⟨literal, 10, isFloat⟩ := by
  obtain ⟨hliteral, hclean⟩ := h.isLiteral
  exact normalize_eq_ok_iff.2 ⟨hliteral, hclean.cleaned_eq.symm⟩

/-! ## Integers -/

/-- An integer literal is within the signed 64-bit range. -/
theorem lt_of_parse {literal : String} {value : Int} (h : parse literal = .ok (.int value)) :
    value < 2 ^ 63 := by
  unfold parse at h
  rcases hchecked : normalize literal with e | checked
  · rw [hchecked] at h
    cases h
  · simp only [hchecked, bind, Except.bind] at h
    split at h
    · split at h <;> cases h
    · split at h
      next hlt =>
        obtain rfl := Number.int.inj (Except.ok.inj h)
        exact Int.ofNat_lt.2 hlt
      · cases h

theorem toList_toString (n : Nat) : (toString (n : Int)).toList = Nat.toDigits 10 n :=
  Nat.toList_repr

/-- The text of an integer is a number. -/
theorem isDecimal_toString (n : Nat) : IsDecimal false (toString (n : Int)).toList := by
  rw [toList_toString]
  exact ⟨Nat.toDigits 10 n, [], [], by simp, isDigits_toDigits n, .inl rfl, .inl rfl, rfl⟩

theorem positional_eq_ofDigitChars {cs : List Char} (h : ∀ c ∈ cs, c.isDigit = true) (init : Nat) :
    cs.foldl (fun n c => n * 10 + (Text.digitValue? c).getD 0) init = Nat.ofDigitChars 10 cs init := by
  induction cs generalizing init with
  | nil => rw [List.foldl_nil, Nat.ofDigitChars_nil]
  | cons c cs ih =>
    rw [List.forall_mem_cons] at h
    rw [List.foldl_cons, ih h.2, digitValue?_of_isDigit h.1, Nat.ofDigitChars_cons, Nat.mul_comm]
    rfl

/-- The text of an integer is read as that integer. -/
theorem parse_toString {n : Nat} (h : n < 2 ^ 63) : parse (toString (n : Int)) = .ok (.int n) := by
  have hvalue : Text.positional 10 (Nat.toDigits 10 n) = n := by
    rw [Text.positional, positional_eq_ofDigitChars (isDigits_toDigits n).digits,
      Nat.ofDigitChars_ten_toDigits]
  rw [parse, normalize_of_isDecimal (isDecimal_toString n)]
  simp only [bind, Except.bind, pure, Except.pure, toList_toString, hvalue, Bool.false_eq_true,
    if_false]
  exact if_pos h

/-! ## Floats -/

theorem IsDigits.of_subset {cs ds : List Char} (h : IsDigits cs) (hsub : ds ⊆ cs) (hne : ds ≠ []) :
    IsDigits ds :=
  ⟨hne, fun c hc => h.digits c (hsub hc)⟩

theorem IsDigits.zeros_append {cs : List Char} (h : IsDigits cs) (n : Nat) :
    IsDigits (List.replicate n '0' ++ cs) where
  ne_nil := List.append_ne_nil_of_right_ne_nil _ h.ne_nil
  digits := by
    rw [List.forall_mem_append]
    refine ⟨fun c hc => ?_, h.digits⟩
    rw [List.eq_of_mem_replicate hc]
    rfl

theorem IsDigits.append_zeros {cs : List Char} (h : IsDigits cs) (n : Nat) :
    IsDigits (cs ++ List.replicate n '0') :=
  (h.zeros_append n).of_subset (by simp) (List.append_ne_nil_of_left_ne_nil h.ne_nil _)

/-- An integer is printed as its sign and digits. -/
theorem exists_sign (i : Int) : ∃ sign digits, (toString i).toList = sign ++ digits
    ∧ (sign = [] ∨ sign = ['-']) ∧ IsDigits digits := by
  cases i with
  | ofNat n => exact ⟨[], _, toList_toString n, .inl rfl, isDigits_toDigits n⟩
  | negSucc n =>
    refine ⟨['-'], Nat.toDigits 10 (n + 1), ?_, .inr rfl, isDigits_toDigits _⟩
    change ("-" ++ Nat.repr (n + 1)).toList = _
    simp

/-- The text of a decimal, which has a fraction or an exponent, is the text of a float. -/
theorem isDecimal_write (layout : Decimal.Layout) (x : Decimal) :
    IsDecimal true (x.write layout).toList := by
  have hzero : IsDigits ['0'] := ⟨by simp, by simp⟩
  unfold Decimal.write
  split
  · exact ⟨['0'], ['.', '0'], [], rfl, hzero, .inr ⟨_, rfl, hzero⟩, .inl rfl, rfl⟩
  extract_lets digits point fraction
  have hdigits : IsDigits digits := isDigits_toDigits x.coefficient
  have hpoint : point = digits.length + x.exponent := rfl
  clear_value digits point
  split
  next =>
    split
    next =>
      refine ⟨['0'], '.' :: (List.replicate (-point).toNat '0' ++ digits), [], ?_, hzero,
        .inr ⟨_, rfl, hdigits.zeros_append _⟩, .inl rfl, rfl⟩
      simp [Decimal.zeros]
    split
    next =>
      -- the point is between two digits
      have hinside : 0 < point.toNat ∧ point.toNat < digits.length := by omega
      refine ⟨digits.take point.toNat, '.' :: digits.drop point.toNat, [], by simp, ?_,
        .inr ⟨_, rfl, ?_⟩, .inl rfl, rfl⟩
      · refine hdigits.of_subset (List.take_subset _ _) (List.ne_nil_of_length_pos ?_)
        rw [List.length_take]
        omega
      · refine hdigits.of_subset (List.drop_subset _ _) (List.ne_nil_of_length_pos ?_)
        rw [List.length_drop]
        omega
    next =>
      refine ⟨digits ++ List.replicate x.exponent.toNat '0', ['.', '0'], [], ?_,
        hdigits.append_zeros _, .inr ⟨_, rfl, hzero⟩, .inl rfl, rfl⟩
      simp [Decimal.zeros]
  next =>
    obtain ⟨sign, power, hpower, hsign, hpower'⟩ := exists_sign (point - 1)
    have hfirst : IsDigits (digits.take 1) :=
      hdigits.of_subset (List.take_subset _ _) (by simp [hdigits.ne_nil])
    refine ⟨digits.take 1, if fraction.isEmpty then [] else '.' :: fraction,
      'e' :: (sign ++ power), ?_, hfirst, ?_, .inr ⟨sign, power, rfl, hsign, hpower'⟩, by simp⟩
    · rw [← hpower]
      cases fraction <;> simp
    · cases hfraction : fraction with
      | nil => exact .inl rfl
      | cons c cs =>
        refine .inr ⟨fraction, by simp [hfraction], ?_⟩
        exact hdigits.of_subset (List.drop_subset _ _) (by simp [hfraction])

theorem isDecimal_writeFloat (value : Double) : IsDecimal true (writeFloat value).toList :=
  isDecimal_write layout value.shortest

/-- The text that a float is printed as stands for it. -/
def PrintsExactly (value : Double) : Prop :=
  (decimal (writeFloat value).toList).toDouble? = some value

/-- The text of a float is read as the float that it stands for. -/
theorem parse_writeFloat {value : Double} (h : PrintsExactly value) :
    parse (writeFloat value) = .ok (.float value) := by
  rw [PrintsExactly] at h
  rw [parse, normalize_of_isDecimal (isDecimal_writeFloat value)]
  simp only [bind, Except.bind, pure, Except.pure, if_true, h]

end Numeral

end Welle
