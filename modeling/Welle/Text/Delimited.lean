set_option autoImplicit false

/-! # Ends of comments and quoted text

Where a comment or a quotation ends, given the characters behind its beginning. Each function splits
its input in two; the `_append` lemmas say that the two parts together are the input again. -/

namespace Welle.Text

/-- The mark around a string without escapes. -/
def backtick : Char := '\x60'

/-- The split with `text` in front of its first part. -/
def onto (text : List Char) (split : List Char × List Char) : List Char × List Char :=
  (text ++ split.1, split.2)

@[simp] theorem onto_append (text : List Char) (split : List Char × List Char) :
    (onto text split).1 ++ (onto text split).2 = text ++ (split.1 ++ split.2) :=
  List.append_assoc ..

/-- Splits behind the first `*/`, if there is one. -/
def closeComment : List Char → Option (List Char × List Char)
  | [] => none
  | c :: cs =>
    if c = '*' && cs.head? = some '/' then some (c :: cs.take 1, cs.drop 1)
    else (closeComment cs).map (onto [c])

/-- Splits behind the next character `mark`, or at the end of the text. Inside double quotes a
    backslash takes the following character with it. -/
def closeQuote (mark : Char) : List Char → List Char × List Char
  | [] => ([], [])
  | [c] => ([c], [])
  | c :: d :: cs =>
    if c = '\\' && mark = '"' then onto [c, d] (closeQuote mark cs)
    else if c = mark then ([c], d :: cs)
    else onto [c] (closeQuote mark (d :: cs))

/-- The end of a line comment: everything up to the line feed. -/
def closeLine (cs : List Char) : List Char × List Char :=
  (cs.takeWhile (· ≠ '\n'), cs.dropWhile (· ≠ '\n'))

/-! ## Nothing is lost -/

theorem closeComment_append {cs : List Char} {split : List Char × List Char}
    (h : closeComment cs = some split) : split.1 ++ split.2 = cs := by
  induction cs generalizing split with
  | nil => simp [closeComment] at h
  | cons c cs ih =>
    rw [closeComment] at h
    split at h
    · obtain rfl := Option.some.inj h
      exact congrArg (c :: ·) (List.take_append_drop 1 cs)
    · obtain ⟨inner, hinner, rfl⟩ := Option.map_eq_some_iff.1 h
      simp [ih hinner]

theorem closeQuote_append (mark : Char) (cs : List Char) :
    (closeQuote mark cs).1 ++ (closeQuote mark cs).2 = cs := by
  fun_induction closeQuote mark cs <;> simp_all

theorem closeLine_append (cs : List Char) : (closeLine cs).1 ++ (closeLine cs).2 = cs :=
  List.takeWhile_append_dropWhile

theorem length_snd_le {cs : List Char} {split : List Char × List Char}
    (h : split.1 ++ split.2 = cs) : split.2.length ≤ cs.length := by
  have := congrArg List.length h
  rw [List.length_append] at this
  omega

end Welle.Text
