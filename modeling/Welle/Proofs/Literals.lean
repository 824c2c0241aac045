import Mathlib.Data.List.TakeWhile
import Mathlib.Data.Nat.Digits.Defs
import Welle.Numeral

set_option autoImplicit false

/-! # The grammar of numeric literals

`IsLiteral` says which texts are numbers: a base mark and digits of that base, decimal digits, or
decimal digits with a fraction or an exponent, each group of digits with single underscores between
its digits at most. `Numeral.normalize` cuts a text at its marks before it looks at the pieces, so
whatever is out of place ends up in some piece, which is then no group. It accepts the literals of
the grammar and no other text. -/

namespace Welle

/-- A text is cut behind the characters of a class where none follows. -/
theorem Text.span_append {p : Char → Bool} {cs rest : List Char} (h : ∀ c ∈ cs, p c = true)
    (hrest : ∀ c, rest.head? = some c → p c = false) :
    (cs ++ rest).takeWhile p = cs ∧ (cs ++ rest).dropWhile p = rest := by
  rw [List.takeWhile_append_of_pos h, List.dropWhile_append_of_pos h]
  cases rest with
  | nil => simp
  | cons c rest => simp [hrest c rfl]

namespace Numeral

/-! ## The grammar -/

/-- Digits of a base with single underscores only between them. -/
inductive IsGroup (base : Nat) : List Char → Prop where
  | digit {c : Char} : Text.isDigitOf base c = true → IsGroup base [c]
  | next {c : Char} {cs : List Char} :
      Text.isDigitOf base c = true → IsGroup base cs → IsGroup base (c :: cs)
  | grouped {c : Char} {cs : List Char} :
      Text.isDigitOf base c = true → IsGroup base cs → IsGroup base (c :: '_' :: cs)

/-- The letters that mark a base behind a zero. -/
def baseMarks : List (Char × Nat) :=
  [('x', 16), ('X', 16), ('b', 2), ('B', 2), ('o', 8), ('O', 8)]

/-- Nothing, or a point and a group of digits. -/
def IsPointPart (cs : List Char) : Prop :=
  cs = [] ∨ ∃ digits, cs = '.' :: digits ∧ IsGroup 10 digits

/-- Nothing, or the mark of an exponent, a sign that may be left out, and a group of digits. -/
def IsPowerPart (cs : List Char) : Prop :=
  cs = [] ∨ ∃ mark sign digits, cs = mark :: (sign ++ digits) ∧ mark ∈ ['e', 'E']
    ∧ sign ∈ [[], ['+'], ['-']] ∧ IsGroup 10 digits

/-- The numbers, each with its base and whether it is a float. -/
inductive IsLiteral : (base : Nat) → (isFloat : Bool) → List Char → Prop where
  | based {mark : Char} {base : Nat} {digits : List Char} :
      (mark, base) ∈ baseMarks → IsGroup base digits → IsLiteral base false ('0' :: mark :: digits)
  | integer {digits : List Char} : IsGroup 10 digits → IsLiteral 10 false digits
  | float {whole point power : List Char} :
      IsGroup 10 whole → IsPointPart point → IsPowerPart power → point ≠ [] ∨ power ≠ [] →
      IsLiteral 10 true (whole ++ (point ++ power))

/-- A literal of the base without its mark and its underscores. An exponent is marked in lower
    case. -/
def cleaned (base : Nat) (cs : List Char) : List Char :=
  if base = 10 then (stripUnderscores cs).map fun c => if c = 'E' then 'e' else c
  else stripUnderscores (cs.drop 2)

/-- The value of digits, the last one the lowest. -/
def valueOf (base : Nat) (digits : List Char) : Nat :=
  Nat.ofDigits base (digits.reverse.map fun c => (Text.digitValue? c).getD 0)

/-! ## Groups of digits -/

variable {base : Nat} {c : Char} {cs : List Char}

/-- A group starts with a digit, and goes on as a group, if at all, with or without an underscore
    in front. -/
theorem isGroup_cons_iff : IsGroup base (c :: cs) ↔ Text.isDigitOf base c = true
    ∧ (cs = [] ∨ IsGroup base cs ∨ ∃ ds, cs = '_' :: ds ∧ IsGroup base ds) := by
  constructor
  · rintro (hc | ⟨hc, h⟩ | ⟨hc, h⟩)
    · exact ⟨hc, .inl rfl⟩
    · exact ⟨hc, .inr (.inl h)⟩
    · exact ⟨hc, .inr (.inr ⟨_, rfl, h⟩)⟩
  · rintro ⟨hc, rfl | h | ⟨ds, rfl, h⟩⟩
    · exact .digit hc
    · exact .next hc h
    · exact .grouped hc h

theorem not_isGroup_nil : ¬IsGroup base [] := nofun

theorem not_isGroup_underscore : ¬IsGroup base ('_' :: cs) := fun h => by
  cases (isGroup_cons_iff.1 h).1

/-- What is checked behind a digit is how a group that starts with the digit goes on, and what is
    checked elsewhere is a group. -/
theorem checkDigits_eq_ok (base : Nat) (cs : List Char) :
    (checkDigits base false cs = .ok () ↔ IsGroup base cs)
      ∧ ∀ c, Text.isDigitOf base c = true →
        (checkDigits base true cs = .ok () ↔ IsGroup base (c :: cs)) := by
  induction cs with
  | nil =>
    refine ⟨?_, fun c hc => ?_⟩
    · simp [checkDigits, not_isGroup_nil]
    · simp [checkDigits, IsGroup.digit hc]
  | cons d ds ih =>
    refine ⟨?_, fun c hc => ?_⟩ <;> rw [checkDigits]
    · by_cases hd : d = '_'
      · subst hd
        simp [not_isGroup_underscore]
      by_cases hdigit : Text.isDigitOf base d = true
      · rw [if_neg hd, if_pos hdigit, ih.2 d hdigit]
      · simp [hd, hdigit, isGroup_cons_iff]
    · by_cases hd : d = '_'
      · subst hd
        simp only [if_true, ih.1]
        rw [isGroup_cons_iff]
        simp [hc, not_isGroup_underscore]
      by_cases hdigit : Text.isDigitOf base d = true
      · rw [if_neg hd, if_pos hdigit, ih.2 d hdigit, @isGroup_cons_iff base c (d :: ds)]
        simp [hc, hd]
      · rw [isGroup_cons_iff, isGroup_cons_iff]
        simp [hd, hdigit]

theorem checkGroup_eq_ok : checkGroup base cs = .ok () ↔ IsGroup base cs := by
  unfold checkGroup
  cases cs with
  | nil => simp [not_isGroup_nil]
  | cons c cs => simpa using (checkDigits_eq_ok base (c :: cs)).1

theorem IsGroup.ne_nil (h : IsGroup base cs) : cs ≠ [] := by
  rintro rfl
  exact not_isGroup_nil h

/-- A group has digits and underscores in it. -/
theorem IsGroup.digit_or_underscore (h : IsGroup base cs) :
    ∀ c ∈ cs, Text.isDigitOf base c = true ∨ c = '_' := by
  induction h with
  | digit hc => simp [hc]
  | next hc _ ih => simpa [hc] using ih
  | grouped hc _ ih => simpa [hc] using ih

theorem IsGroup.not_mem (h : IsGroup base cs) (hdigit : Text.isDigitOf base c = false)
    (hc : c ≠ '_') : c ∉ cs := by
  intro hmem
  rcases h.digit_or_underscore c hmem with hd | hd
  · rw [hd] at hdigit
    cases hdigit
  · exact hc hd

/-! ## Marks -/

/-- Where a text is cut: nowhere, or at the first mark. -/
theorem splitAtFirst_cases (p : Char → Bool) (cs : List Char) :
    ((∀ c ∈ cs, p c = false) ∧ splitAtFirst p cs = (cs, none))
      ∨ ∃ front mark behind, cs = front ++ mark :: behind ∧ (∀ c ∈ front, p c = false)
        ∧ p mark = true ∧ splitAtFirst p cs = (front, some behind) := by
  have hfront : ∀ c ∈ cs.takeWhile (!p ·), p c = false := fun c hc => by
    simpa using List.mem_takeWhile_imp hc
  have happend := List.takeWhile_append_dropWhile (p := (!p ·)) (l := cs)
  unfold splitAtFirst
  cases hbehind : cs.dropWhile (!p ·) with
  | nil =>
    rw [hbehind, List.append_nil] at happend
    rw [happend] at hfront
    exact .inl ⟨hfront, rfl⟩
  | cons mark behind =>
    have hmark := List.head?_dropWhile_not (!p ·) cs
    rw [hbehind] at hmark happend
    exact .inr ⟨_, mark, behind, happend.symm, hfront, by simpa using hmark, rfl⟩

/-- A literal has a base mark, or none of the two cuts at its head applies. -/
theorem splitBase_cases (cs : List Char) :
    (∃ mark base digits, cs = '0' :: mark :: digits ∧ (mark, base) ∈ baseMarks
      ∧ splitBase cs = (base, digits))
      ∨ splitBase cs = (10, cs) := by
  unfold splitBase
  split
  next mark digits =>
    split
    next h =>
      refine .inl ⟨mark, 16, digits, rfl, ?_, rfl⟩
      simpa [baseMarks] using h
    split
    next h =>
      refine .inl ⟨mark, 2, digits, rfl, ?_, rfl⟩
      simpa [baseMarks] using h
    split
    next h =>
      refine .inl ⟨mark, 8, digits, rfl, ?_, rfl⟩
      simpa [baseMarks] using h
    · exact .inr rfl
  · exact .inr rfl

theorem splitBase_based {mark : Char} {digits : List Char} (h : (mark, base) ∈ baseMarks) :
    splitBase ('0' :: mark :: digits) = (base, digits) := by
  simp only [baseMarks, List.mem_cons, Prod.mk.injEq, List.not_mem_nil, or_false] at h
  rcases h with ⟨rfl, rfl⟩ | ⟨rfl, rfl⟩ | ⟨rfl, rfl⟩ | ⟨rfl, rfl⟩ | ⟨rfl, rfl⟩ | ⟨rfl, rfl⟩ <;> rfl

/-! ## Parts of a decimal -/

/-- A number without a base mark, in its parts. -/
structure Parts (isFloat : Bool) (cs whole point power : List Char) : Prop where
  text : cs = whole ++ (point ++ power)
  isGroup : IsGroup 10 whole
  isPoint : IsPointPart point
  isPower : IsPowerPart power
  float : isFloat = !(point.isEmpty && power.isEmpty)

theorem IsPointPart.not_mem {point : List Char} (h : IsPointPart point)
    (hdigit : Text.isDigitOf 10 c = false) (hc : c ≠ '_') (hpoint : c ≠ '.') : c ∉ point := by
  rcases h with rfl | ⟨digits, rfl, hdigits⟩
  · exact List.not_mem_nil
  · rw [List.mem_cons]
    rintro (hhead | hmem)
    · exact hpoint hhead
    · exact hdigits.not_mem hdigit hc hmem

theorem isLiteral_ten_iff {isFloat : Bool} :
    IsLiteral 10 isFloat cs ↔ ∃ whole point power, Parts isFloat cs whole point power := by
  constructor
  · rintro (⟨hmark, -⟩ | hdigits | ⟨hwhole, hpoint, hpower, hne⟩)
    · simp [baseMarks] at hmark
    · exact ⟨cs, [], [], by simp, hdigits, .inl rfl, .inl rfl, rfl⟩
    · refine ⟨_, _, _, rfl, hwhole, hpoint, hpower, ?_⟩
      simpa [List.isEmpty_iff, or_iff_not_imp_left] using hne
  · rintro ⟨whole, point, power, rfl, hwhole, hpoint, hpower, rfl⟩
    by_cases hne : point = [] ∧ power = []
    · obtain ⟨rfl, rfl⟩ := hne
      simpa using IsLiteral.integer hwhole
    · have hmarked : (point.isEmpty && power.isEmpty) = false := by
        simpa using hne
      rw [hmarked]
      exact .float hwhole hpoint hpower (not_and_or.1 hne)

/-- A number with a base mark is no decimal: what stands behind its zero is neither a digit nor a mark
    of a decimal, nor what follows the number. -/
theorem Parts.not_baseMark {isFloat : Bool} {whole point power rest : List Char} {mark : Char}
    {digits : List Char} (h : Parts isFloat cs whole point power)
    (hrest : ∀ base, rest.head? = some mark → (mark, base) ∉ baseMarks)
    (hcs : cs ++ rest = '0' :: mark :: digits) (base : Nat) : (mark, base) ∉ baseMarks := by
  have hmarks : ∀ entry ∈ baseMarks, Text.isDigitOf 10 entry.1 = false ∧ entry.1 ≠ '_'
      ∧ entry.1 ≠ '.' ∧ entry.1 ∉ ['e', 'E'] := by decide
  intro hmark
  obtain ⟨hdigit, hunderscore, hpoint, hpower⟩ := hmarks _ hmark
  obtain ⟨c, ds, rfl⟩ := List.exists_cons_of_ne_nil h.isGroup.ne_nil
  rw [h.text, List.cons_append, List.cons_append] at hcs
  have hbehind := (List.cons.inj hcs).2
  cases ds with
  | cons d ds =>
    obtain rfl : d = mark := (List.cons.inj hbehind).1
    exact h.isGroup.not_mem hdigit hunderscore (by simp)
  | nil =>
    rcases h.isPoint with rfl | ⟨_, rfl, -⟩
    · rcases h.isPower with rfl | ⟨_, _, _, rfl, hmem, -⟩
      · exact hrest base (by simpa using congrArg List.head? hbehind) hmark
      · exact hpower ((List.cons.inj hbehind).1 ▸ hmem)
    · exact hpoint (List.cons.inj hbehind).1.symm

theorem Parts.splitBase {isFloat : Bool} {whole point power : List Char}
    (h : Parts isFloat cs whole point power) : splitBase cs = (10, cs) := by
  rcases splitBase_cases cs with ⟨mark, base, digits, hcs, hmark, -⟩ | hplain
  · have hcs' : cs ++ [] = '0' :: mark :: digits := by rw [List.append_nil, hcs]
    exact absurd hmark (h.not_baseMark (by simp) hcs' base)
  · exact hplain

/-- The base of a literal is the one that it is marked with. -/
theorem IsLiteral.base_eq {isFloat : Bool} (h : IsLiteral base isFloat cs) :
    (splitBase cs).1 = base := by
  have hdecimal (h : IsLiteral 10 isFloat cs) : (splitBase cs).1 = 10 := by
    obtain ⟨whole, point, power, hparts⟩ := isLiteral_ten_iff.1 h
    rw [hparts.splitBase]
  cases h with
  | based hmark _ => rw [splitBase_based hmark]
  | integer hdigits => exact hdecimal (.integer hdigits)
  | float hwhole hpoint hpower hne => exact hdecimal (.float hwhole hpoint hpower hne)

theorem ne_ten_of_mem {mark : Char} (h : (mark, base) ∈ baseMarks) : base ≠ 10 := by
  rintro rfl
  simp [baseMarks] at h

theorem isLiteral_based_iff {mark : Char} {digits : List Char} {isFloat : Bool}
    (hmark : (mark, base) ∈ baseMarks) :
    IsLiteral base isFloat ('0' :: mark :: digits) ↔ isFloat = false ∧ IsGroup base digits := by
  constructor
  · generalize hcs : '0' :: mark :: digits = cs
    rintro (⟨-, hgroup⟩ | - | -)
    · exact ⟨rfl, (List.cons.inj (List.cons.inj hcs).2).2 ▸ hgroup⟩
    · exact absurd rfl (ne_ten_of_mem hmark)
    · exact absurd rfl (ne_ten_of_mem hmark)
  · rintro ⟨rfl, hgroup⟩
    exact .based hmark hgroup

/-! ## Checking -/

section Checking

variable {whole point power : List Char}

theorem stripUnderscores_append (xs ys : List Char) :
    stripUnderscores (xs ++ ys) = stripUnderscores xs ++ stripUnderscores ys :=
  List.filter_append ..

theorem stripUnderscores_cons (hc : c ≠ '_') :
    stripUnderscores (c :: cs) = c :: stripUnderscores cs :=
  List.filter_cons_of_pos (by simpa using hc)

theorem splitAtFirst_none {p : Char → Bool} (h : ∀ c ∈ cs, p c = false) :
    splitAtFirst p cs = (cs, none) := by
  rcases splitAtFirst_cases p cs with ⟨-, hnone⟩ | ⟨front, mark, behind, rfl, -, hmark, -⟩
  · exact hnone
  · rw [h mark (by simp)] at hmark
    cases hmark

theorem splitAtFirst_some {p : Char → Bool} {behind : List Char} (h : ∀ c ∈ cs, p c = false)
    (hc : p c = true) : splitAtFirst p (cs ++ c :: behind) = (cs, some behind) := by
  have hspan : (cs ++ c :: behind).takeWhile (fun c => !p c) = cs
      ∧ (cs ++ c :: behind).dropWhile (fun c => !p c) = c :: behind := by
    refine Text.span_append (fun d hd => by simp [h d hd]) fun d hd => ?_
    rw [← Option.some.inj hd, hc]
    rfl
  rw [splitAtFirst, hspan.1, hspan.2]

theorem bind_eq_ok {α β : Type} {x : Except Error α} {f : α → Except Error β} {b : β} :
    x >>= f = .ok b ↔ ∃ a, x = .ok a ∧ f a = .ok b := by
  cases x <;> simp [bind, Except.bind]

/-- What is accepted in front of an exponent: a group, and perhaps a fraction. -/
theorem normalizeMantissa_eq_ok {text : List Char} : normalizeMantissa cs = .ok text
    ↔ (∃ whole point, cs = whole ++ point ∧ IsGroup 10 whole ∧ IsPointPart point)
      ∧ text = stripUnderscores cs := by
  constructor
  · intro h
    unfold normalizeMantissa at h
    split at h
    · cases h
    -- the first point, if there is one, ends the whole part
    rcases splitAtFirst_cases (· = '.') cs with
      ⟨-, hsplit⟩ | ⟨front, mark, behind, rfl, -, hmark, hsplit⟩
    · simp only [hsplit, bind_eq_ok] at h
      obtain ⟨_, hgroup, htext⟩ := h
      exact ⟨⟨cs, [], by simp, checkGroup_eq_ok.1 hgroup, .inl rfl⟩, (Except.ok.inj htext).symm⟩
    · obtain rfl : mark = '.' := by simpa using hmark
      simp only [hsplit] at h
      split at h
      · cases h
      simp only [bind_eq_ok] at h
      obtain ⟨_, hfront, _, hbehind, htext⟩ := h
      refine ⟨⟨front, '.' :: behind, rfl, checkGroup_eq_ok.1 hfront,
        .inr ⟨behind, rfl, checkGroup_eq_ok.1 hbehind⟩⟩, ?_⟩
      rw [← Except.ok.inj htext, stripUnderscores_append, stripUnderscores_cons (by decide)]
  · rintro ⟨⟨whole, point, rfl, hwhole, hpoint⟩, rfl⟩
    have hempty : whole.isEmpty = false := by simpa using hwhole.ne_nil
    have hplain : ∀ c ∈ whole, decide (c = '.') = false := fun c hc => by
      rw [decide_eq_false_iff_not]
      rintro rfl
      exact hwhole.not_mem rfl (by decide) hc
    rcases hpoint with rfl | ⟨digits, rfl, hdigits⟩
    · rw [List.append_nil, normalizeMantissa, splitAtFirst_none hplain]
      simp [hempty, checkGroup_eq_ok.2 hwhole, bind, Except.bind, pure, Except.pure]
    · have hempty' : digits.isEmpty = false := by simpa using hdigits.ne_nil
      rw [normalizeMantissa, splitAtFirst_some hplain (by decide), stripUnderscores_append,
        stripUnderscores_cons (by decide)]
      simp [hempty, hempty', checkGroup_eq_ok.2 hwhole, checkGroup_eq_ok.2 hdigits, bind, Except.bind,
        pure, Except.pure]

/-- What is accepted behind the mark of an exponent: a sign that may be left out, and a group. -/
theorem normalizeExponent_eq_ok {text : List Char} : normalizeExponent cs = .ok text
    ↔ (∃ sign digits, cs = sign ++ digits ∧ sign ∈ [[], ['+'], ['-']] ∧ IsGroup 10 digits)
      ∧ text = 'e' :: stripUnderscores cs := by
  have hsign : ∀ sign ∈ [[], ['+'], ['-']], stripUnderscores sign = sign := by decide
  constructor
  · intro h
    simp only [normalizeExponent] at h
    split at h
    · cases h
    simp only [bind_eq_ok] at h
    obtain ⟨_, hgroup, htext⟩ := h
    have hcs : cs = (splitSign cs).1 ++ (splitSign cs).2 ∧ (splitSign cs).1 ∈ [[], ['+'], ['-']] := by
      unfold splitSign
      split
      · split
        next hc => simpa using hc
        next => simp
      · simp
    obtain ⟨happend, hmem⟩ := hcs
    refine ⟨⟨_, _, happend, hmem, checkGroup_eq_ok.1 hgroup⟩, ?_⟩
    conv_rhs => rw [happend, stripUnderscores_append, hsign _ hmem]
    exact (Except.ok.inj htext).symm
  · rintro ⟨⟨sign, digits, rfl, hmem, hdigits⟩, rfl⟩
    have hsplit : splitSign (sign ++ digits) = (sign, digits) := by
      obtain ⟨c, ds, rfl⟩ := List.exists_cons_of_ne_nil hdigits.ne_nil
      have hplain : (c = '+' || c = '-') = false := by
        by_contra hc
        simp only [Bool.not_eq_false, Bool.or_eq_true, decide_eq_true_eq] at hc
        rcases hc with rfl | rfl <;> cases (isGroup_cons_iff.1 hdigits).1
      simp only [List.mem_cons, List.not_mem_nil, or_false] at hmem
      rcases hmem with rfl | rfl | rfl <;> simp [splitSign, hplain]
    have hempty : digits.isEmpty = false := by simpa using hdigits.ne_nil
    rw [normalizeExponent, hsplit, stripUnderscores_append, hsign _ hmem]
    simp [hempty, checkGroup_eq_ok.2 hdigits, bind, Except.bind, pure, Except.pure]

/-- A literal with a base mark is accepted if a group of that base follows. -/
theorem normalize_based {literal : String} {n : Normalized} {mark : Char} {digits : List Char}
    (hmark : (mark, base) ∈ baseMarks) (hliteral : literal.toList = '0' :: mark :: digits) :
    normalize literal = .ok n
      ↔ IsGroup base digits ∧ n = ⟨String.ofList (stripUnderscores digits), base, false⟩ := by
  simp only [normalize, hliteral, splitBase_based hmark, ne_eq, ne_ten_of_mem hmark,
    not_false_eq_true, if_true]
  constructor
  · intro h
    split at h
    · cases h
    simp only [bind_eq_ok] at h
    obtain ⟨_, hgroup, hn⟩ := h
    exact ⟨checkGroup_eq_ok.1 hgroup, (Except.ok.inj hn).symm⟩
  · rintro ⟨hgroup, rfl⟩
    have hpoint : '.' ∉ digits := hgroup.not_mem rfl (by decide)
    simp [hpoint, checkGroup_eq_ok.2 hgroup, bind, Except.bind, pure, Except.pure]

theorem cleaned_ten (h : 'E' ∉ cs) : cleaned 10 cs = stripUnderscores cs := by
  have hsame : ∀ c ∈ stripUnderscores cs, (if c = 'E' then 'e' else c) = c := by
    intro c hc
    refine if_neg ?_
    rintro rfl
    exact h (List.mem_filter.1 hc).1
  rw [cleaned, if_pos rfl, List.map_congr_left hsame, List.map_id']

theorem cleaned_ten_append {front behind : List Char} {mark : Char} (hfront : 'E' ∉ front)
    (hmark : isExponentMark mark = true) (hbehind : 'E' ∉ behind) :
    cleaned 10 (front ++ mark :: behind) = stripUnderscores front ++ 'e' :: stripUnderscores behind := by
  rw [← cleaned_ten hfront, ← cleaned_ten hbehind]
  simp only [isExponentMark, Bool.or_eq_true, decide_eq_true_eq] at hmark
  rcases hmark with rfl | rfl <;> simp [cleaned, stripUnderscores]

/-- No mark of an exponent is in front of the exponent. -/
theorem isExponentMark_mantissa (hwhole : IsGroup 10 whole) (hpoint : IsPointPart point) :
    ∀ c ∈ whole ++ point, isExponentMark c = false := by
  intro c hc
  rw [← Bool.not_eq_true, isExponentMark, Bool.or_eq_true, decide_eq_true_eq, decide_eq_true_eq]
  rintro (rfl | rfl) <;> rcases List.mem_append.1 hc with hmem | hmem
  · exact hwhole.not_mem rfl (by decide) hmem
  · exact hpoint.not_mem rfl (by decide) (by decide) hmem
  · exact hwhole.not_mem rfl (by decide) hmem
  · exact hpoint.not_mem rfl (by decide) (by decide) hmem

theorem not_mem_signed {sign digits : List Char} (hsign : sign ∈ [[], ['+'], ['-']])
    (hdigits : IsGroup 10 digits) : 'E' ∉ sign ++ digits := by
  have hall : ∀ sign ∈ [[], ['+'], ['-']], 'E' ∉ sign := by decide
  rw [List.mem_append]
  rintro (hmem | hmem)
  · exact hall sign hsign hmem
  · exact hdigits.not_mem rfl (by decide) hmem

/-- What is accepted without a base mark has the parts of a decimal. -/
theorem parts_of_normalize {literal : String} {n : Normalized}
    (hbase : splitBase literal.toList = (10, literal.toList)) (h : normalize literal = .ok n) :
    (∃ whole point power, Parts n.isFloat literal.toList whole point power)
      ∧ n = ⟨String.ofList (cleaned 10 literal.toList), 10, n.isFloat⟩ := by
  simp only [normalize, hbase, ne_eq, not_true_eq_false, if_false] at h
  generalize literal.toList = cs at h ⊢
  rcases splitAtFirst_cases isExponentMark cs with
    ⟨hnone, hsplit⟩ | ⟨front, mark, behind, rfl, hfront, hmark, hsplit⟩
  · -- without an exponent the point decides whether a group or a mantissa is checked
    have hlower : 'E' ∉ cs := fun hmem => by cases hnone _ hmem
    simp only [hsplit, Option.isNone_none, Bool.and_true, Bool.not_eq_true'] at h
    rw [cleaned_ten hlower]
    split at h
    · simp only [bind_eq_ok] at h
      obtain ⟨_, hgroup, hn⟩ := h
      obtain rfl := Except.ok.inj hn
      exact ⟨⟨cs, [], [], by simp, checkGroup_eq_ok.1 hgroup, .inl rfl, .inl rfl, rfl⟩, rfl⟩
    next hcontains =>
      simp only [bind_eq_ok, normalizeMantissa_eq_ok] at h
      obtain ⟨_, ⟨⟨whole, point, rfl, hwhole, hpoint⟩, rfl⟩, hn⟩ := h
      obtain rfl := Except.ok.inj hn
      have hne : point.isEmpty = false := by
        rw [List.isEmpty_eq_false_iff]
        rintro rfl
        have hmem : '.' ∉ whole := hwhole.not_mem rfl (by decide)
        simp [hmem] at hcontains
      exact ⟨⟨whole, point, [], by simp, hwhole, hpoint, .inl rfl, by simp [hne]⟩, rfl⟩
  · -- with an exponent a mantissa is checked in front of it
    simp only [hsplit, Option.isNone_some, Bool.and_false, Bool.false_eq_true, if_false, bind_eq_ok,
      normalizeMantissa_eq_ok, normalizeExponent_eq_ok] at h
    obtain ⟨_, ⟨⟨whole, point, rfl, hwhole, hpoint⟩, rfl⟩, _,
      ⟨⟨sign, digits, rfl, hsign, hdigits⟩, rfl⟩, hn⟩ := h
    obtain rfl := Except.ok.inj hn
    have hmem : mark ∈ ['e', 'E'] := by simpa [isExponentMark] using hmark
    refine ⟨⟨whole, point, mark :: (sign ++ digits), by simp, hwhole, hpoint,
      .inr ⟨mark, sign, digits, rfl, hmem, hsign, hdigits⟩, by simp⟩, ?_⟩
    rw [cleaned_ten_append (fun h => by cases hfront _ h) hmark (not_mem_signed hsign hdigits)]

/-- What has the parts of a decimal is accepted and cleaned. -/
theorem normalize_of_parts {literal : String} {isFloat : Bool}
    (h : Parts isFloat literal.toList whole point power) :
    normalize literal = .ok ⟨String.ofList (cleaned 10 literal.toList), 10, isFloat⟩ := by
  simp only [normalize, h.splitBase, ne_eq, not_true_eq_false, if_false]
  obtain ⟨htext, hwhole, hpoint, hpower, rfl⟩ := h
  have hfront := isExponentMark_mantissa hwhole hpoint
  have hlower : 'E' ∉ whole ++ point := fun h => by cases hfront _ h
  have hmantissa := normalizeMantissa_eq_ok.2 ⟨⟨whole, point, rfl, hwhole, hpoint⟩, rfl⟩
  rw [htext, ← List.append_assoc]
  rcases hpower with rfl | ⟨mark, sign, digits, rfl, hmem, hsign, hdigits⟩
  · rw [List.append_nil, splitAtFirst_none hfront, cleaned_ten hlower]
    rcases hpoint with rfl | ⟨digits, rfl, -⟩
    · have hplain : '.' ∉ whole := hwhole.not_mem rfl (by decide)
      simp [hplain, checkGroup_eq_ok.2 hwhole, bind, Except.bind, pure, Except.pure]
    · simp [hmantissa, bind, Except.bind, pure, Except.pure]
  · have hmark : isExponentMark mark = true := by simpa [isExponentMark] using hmem
    have hexponent := normalizeExponent_eq_ok.2 ⟨⟨sign, digits, rfl, hsign, hdigits⟩, rfl⟩
    rw [splitAtFirst_some hfront hmark,
      cleaned_ten_append hlower hmark (not_mem_signed hsign hdigits)]
    simp [hmantissa, hexponent, bind, Except.bind, pure, Except.pure]

/-- A text is accepted exactly if it is a literal, and it is cleaned then. -/
theorem normalize_eq_ok_iff {literal : String} {n : Normalized} : normalize literal = .ok n
    ↔ IsLiteral n.base n.isFloat literal.toList
      ∧ n.text.toList = cleaned n.base literal.toList := by
  obtain ⟨text, base, isFloat⟩ := n
  rcases splitBase_cases literal.toList with ⟨mark, marked, digits, hliteral, hmark, hsplit⟩ | hdecimal
  · have hcleaned : cleaned marked ('0' :: mark :: digits) = stripUnderscores digits :=
      if_neg (ne_ten_of_mem hmark)
    rw [normalize_based hmark hliteral, hliteral]
    dsimp only
    constructor
    · rintro ⟨hgroup, hn⟩
      obtain ⟨rfl, rfl, rfl⟩ := Normalized.mk.inj hn
      exact ⟨.based hmark hgroup, by rw [hcleaned, String.toList_ofList]⟩
    · rintro ⟨h, htext⟩
      obtain rfl : marked = base := by
        rw [← h.base_eq, ← hliteral, hsplit]
      obtain ⟨rfl, hgroup⟩ := (isLiteral_based_iff hmark).1 h
      rw [hcleaned] at htext
      rw [← htext, String.ofList_toList]
      exact ⟨hgroup, rfl⟩
  · dsimp only
    constructor
    · intro h
      obtain ⟨hparts, hn⟩ := parts_of_normalize hdecimal h
      obtain ⟨rfl, rfl, -⟩ := Normalized.mk.inj hn
      exact ⟨isLiteral_ten_iff.2 hparts, String.toList_ofList⟩
    · rintro ⟨h, htext⟩
      obtain rfl : 10 = base := by
        rw [← h.base_eq, hdecimal]
      obtain ⟨whole, point, power, hparts⟩ := isLiteral_ten_iff.1 h
      rw [normalize_of_parts hparts, ← htext, String.ofList_toList]

/-! ## Values -/

/-- The value of digits can be summed up from the first one on. -/
theorem valueOf_eq (base : Nat) (digits : List Char) :
    valueOf base digits = Text.positional base digits := by
  rw [valueOf, List.map_reverse, Nat.ofDigits_eq_foldr, List.foldr_reverse, List.foldl_map,
    Text.positional]
  refine congrArg (fun f => digits.foldl f 0) (funext fun n => funext fun c => ?_)
  rw [Nat.mul_comm n base, Nat.add_comm]
  rfl

/-- An integer literal is read as the value of its digits, if that is in range. -/
theorem parse_of_integer {literal : String} (h : IsLiteral base false literal.toList) :
    parse literal = if valueOf base (cleaned base literal.toList) < 2 ^ 63
      then .ok (.int (valueOf base (cleaned base literal.toList))) else .error .integerRange := by
  have hchecked : normalize literal
      = .ok ⟨String.ofList (cleaned base literal.toList), base, false⟩ :=
    normalize_eq_ok_iff.2 ⟨h, String.toList_ofList⟩
  rw [parse, hchecked, valueOf_eq]
  simp only [bind, Except.bind, Bool.false_eq_true, if_false, String.toList_ofList]
  rfl

/-- A text is accepted exactly if it is a literal. What is left of it then is its text without base
    mark and underscores, and it is a float exactly if it has a fraction or an exponent. An integer has
    the value of its digits in its base where that is below `2 ^ 63`, and no value otherwise. -/
theorem normalize_accepts_iff (literal : String) :
    ((∃ n, normalize literal = .ok n) ↔ ∃ base isFloat, IsLiteral base isFloat literal.toList)
      ∧ (∀ n, normalize literal = .ok n ↔ IsLiteral n.base n.isFloat literal.toList
        ∧ n.text.toList = cleaned n.base literal.toList)
      ∧ ∀ base, IsLiteral base false literal.toList →
        parse literal = if valueOf base (cleaned base literal.toList) < 2 ^ 63
          then .ok (.int (valueOf base (cleaned base literal.toList))) else .error .integerRange := by
  refine ⟨⟨?_, ?_⟩, fun n => normalize_eq_ok_iff, fun base => parse_of_integer⟩
  · rintro ⟨n, hn⟩
    exact ⟨n.base, n.isFloat, (normalize_eq_ok_iff.1 hn).1⟩
  · rintro ⟨base, isFloat, h⟩
    exact ⟨⟨String.ofList (cleaned base literal.toList), base, isFloat⟩,
      normalize_eq_ok_iff.2 ⟨h, String.toList_ofList⟩⟩

/-- The largest integer and the one behind it, in groups of digits and behind a base mark. -/
theorem normalize_accepts_iff_largest :
    IsLiteral 16 false "0X7fff_FFFF_ffff_FFFF".toList
      ∧ parse "0X7fff_FFFF_ffff_FFFF" = .ok (.int 9223372036854775807)
      ∧ IsLiteral 10 false "9_223_372_036_854_775_808".toList
      ∧ parse "9_223_372_036_854_775_808" = .error .integerRange := by
  have hlargest : IsLiteral 16 false "0X7fff_FFFF_ffff_FFFF".toList :=
    ((normalize_accepts_iff _).2.1 ⟨"7fffFFFFffffFFFF", 16, false⟩).1 (by decide +kernel) |>.1
  have hbehind : IsLiteral 10 false "9_223_372_036_854_775_808".toList :=
    ((normalize_accepts_iff _).2.1 ⟨"9223372036854775808", 10, false⟩).1 (by decide +kernel) |>.1
  refine ⟨hlargest, ?_, hbehind, ?_⟩
  · rw [(normalize_accepts_iff _).2.2 16 hlargest]
    decide +kernel
  · rw [(normalize_accepts_iff _).2.2 10 hbehind]
    decide +kernel

end Checking

end Numeral

end Welle
