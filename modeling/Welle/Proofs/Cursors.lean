import Mathlib.Order.Bounds.Basic
import Welle.Editor.Highlight
import Welle.Proofs.Editor

set_option autoImplicit false

/-! # Cursors and source positions

Source positions count the UTF-8 bytes of a line and cursors its UTF-16 units, so they meet where
both stand between the same two characters. A position between characters has a cursor that leads
back to it. A cursor may also stand inside a surrogate pair or behind the end of its line. It then
leads to the last place between characters that is not past it, as `Text.splitUnits` cuts the line
there. -/

namespace Welle

namespace Text

/-! ## Columns between characters -/

/-- The UTF-16 columns in front of the characters of a line and at its end. -/
def unitColumns (line : List Char) : Set Nat :=
  {u | ∃ taken, taken <+: line ∧ u = unitLength taken}

theorem splitUnits_append (n : Nat) (cs : List Char) :
    (splitUnits n cs).1 ++ (splitUnits n cs).2 = cs := by
  induction cs generalizing n with
  | nil => rfl
  | cons c cs ih =>
    rw [splitUnits]
    split
    · exact congrArg (c :: ·) (ih (n - units c))
    · rfl

theorem unitLength_splitUnits_le (n : Nat) (cs : List Char) :
    unitLength (splitUnits n cs).1 ≤ n := by
  induction cs generalizing n with
  | nil => exact Nat.zero_le n
  | cons c cs ih =>
    rw [splitUnits]
    split
    next hfits =>
      have hrest := ih (n - units c)
      simp only [unitLength]
      omega
    next => exact Nat.zero_le n

/-- No beginning of the text that fits is longer than what is cut off. -/
theorem unitLength_le_splitUnits {n : Nat} {taken cs : List Char} (h : taken <+: cs)
    (hfits : unitLength taken ≤ n) : unitLength taken ≤ unitLength (splitUnits n cs).1 := by
  induction cs generalizing n taken with
  | nil =>
    rw [List.prefix_nil.1 h]
    exact Nat.zero_le _
  | cons c cs ih =>
    cases taken with
    | nil => exact Nat.zero_le _
    | cons d taken =>
      obtain ⟨rfl, htail⟩ := List.cons_prefix_cons.1 h
      rw [unitLength] at hfits
      have hrest : unitLength taken ≤ unitLength (splitUnits (n - units d) cs).1 :=
        ih htail (by omega)
      rw [splitUnits, if_pos (by omega), unitLength]
      exact Nat.add_le_add_left hrest _

theorem isGreatest_splitUnits (n : Nat) (line : List Char) :
    IsGreatest {u ∈ unitColumns line | u ≤ n} (unitLength (splitUnits n line).1) := by
  constructor
  · exact ⟨⟨_, ⟨_, splitUnits_append n line⟩, rfl⟩, unitLength_splitUnits_le n line⟩
  · rintro u ⟨⟨taken, htaken, rfl⟩, hfits⟩
    exact unitLength_le_splitUnits htaken hfits

end Text

namespace Editor

/-! ## Order -/

theorem notAfter_iff (a b : Cursor) :
    a.notAfter b ↔ a.line < b.line ∨ a.line = b.line ∧ a.character ≤ b.character := by
  simp [Cursor.notAfter]

theorem notAfter_refl (a : Cursor) : a.notAfter a := by
  rw [notAfter_iff]
  omega

theorem notAfter_trans {a b c : Cursor} (h : a.notAfter b) (h' : b.notAfter c) : a.notAfter c := by
  rw [notAfter_iff] at *
  omega

/-- More text ends later. -/
theorem endCursor_append (xs ys : List Char) :
    (endCursor (String.ofList xs)).notAfter (endCursor (String.ofList (xs ++ ys))) := by
  induction ys using List.reverseRecOn with
  | nil =>
    rw [List.append_nil]
    exact notAfter_refl _
  | append_singleton ys c ih =>
    refine notAfter_trans ih ?_
    rw [← List.append_assoc]
    rw [notAfter_iff]
    unfold endCursor
    simp only [String.toList_ofList, lastLine_concat, List.count_append]
    by_cases hc : c = '\n'
    · simp [hc]
    · simp [hc, Text.unitLength_append]

/-- Of two beginnings of a text, the one that does not end behind the other is a beginning of the
    other. -/
theorem prefix_of_after_le {text xs ys : List Char} (hx : xs <+: text) (hy : ys <+: text)
    (h : Position.start.after xs ≤ Position.start.after ys) : xs <+: ys := by
  obtain hle | hle := Nat.le_total xs.length ys.length
  · exact List.prefix_of_prefix_length_le hx hy hle
  · obtain ⟨zs, rfl⟩ := List.prefix_of_prefix_length_le hy hx hle
    cases zs with
    | nil => simp
    | cons z zs =>
      rw [Position.after_append] at h
      have hlt := Position.lt_after (Position.start.after ys) (List.cons_ne_nil z zs)
      exact absurd (Position.lt_of_lt_of_le hlt h) (Position.lt_irrefl _)

/-! ## From one to the other -/

/-- A source position in front of a character of a line, or at the end of a line. -/
inductive OnBoundary (text : String) : Position → Prop where
  | intro {n : Nat} {xs ys : List Char} (h : Text.line? text n = some (xs ++ ys)) :
      OnBoundary text ⟨n + 1, Text.byteLength xs + 1⟩

/-- A text goes on with `part` from a position on. -/
def HasAt (text : String) (pos : Position) (part : String) : Prop :=
  ∃ before behind, text.toList = before ++ (part.toList ++ behind)
    ∧ pos = Position.start.after before

theorem cursorOf_of_line? {text : String} {n : Nat} {xs ys : List Char}
    (h : Text.line? text n = some (xs ++ ys)) :
    cursorOf text ⟨n + 1, Text.byteLength xs + 1⟩ = ⟨n, Text.unitLength xs⟩ := by
  simp [cursorOf, h, Text.splitBytes_byteLength]

theorem positionOf?_of_line? {text : String} {n : Nat} {xs ys : List Char}
    (h : Text.line? text n = some (xs ++ ys)) :
    positionOf? text ⟨n, Text.unitLength xs⟩ = some ⟨n + 1, Text.byteLength xs + 1⟩ := by
  simp [positionOf?, h, Text.splitUnits_unitLength]

theorem positionOf?_cursorOf_of_onBoundary {text : String} {pos : Position}
    (h : OnBoundary text pos) : positionOf? text (cursorOf text pos) = some pos := by
  obtain ⟨h⟩ := h
  rw [cursorOf_of_line? h, positionOf?_of_line? h]

/-- The position at a cursor has the same line, and is behind what is cut off there. -/
theorem exists_positionOf?_eq {text : String} {cursor : Cursor} {line : List Char}
    (h : Text.line? text cursor.line = some line) :
    ∃ pos, positionOf? text cursor = some pos ∧ cursorOf text pos
      = ⟨cursor.line, Text.unitLength (Text.splitUnits cursor.character line).1⟩ := by
  have hsplit : Text.line? text cursor.line = some
      ((Text.splitUnits cursor.character line).1 ++ (Text.splitUnits cursor.character line).2) := by
    rw [Text.splitUnits_append, h]
  exact ⟨_, by rw [positionOf?, h, Option.map_some], cursorOf_of_line? hsplit⟩

theorem identRange_of_hasAt {text name : String} {pos : Position} (h : HasAt text pos name)
    (hline : '\n' ∉ name.toList) (hname : name ≠ "") : identRange text ⟨name, pos⟩
      = ⟨cursorOf text pos, cursorOf text (pos.shifted name.utf8ByteSize)⟩ := by
  obtain ⟨before, behind, htext, rfl⟩ := h
  have hend : (Position.start.after before).shifted name.utf8ByteSize
      = Position.start.after (before ++ name.toList) := by
    rw [Position.after_append, Position.after_of_not_mem _ hline, Position.shifted,
      Text.utf8ByteSize_eq]
  have hrange : identRange text ⟨name, Position.start.after before⟩ =
      ⟨endCursor (String.ofList before), endCursor (String.ofList (before ++ name.toList))⟩ :=
    identRange_of_append htext rfl hline (by simpa using hname)
  rw [hrange, hend, cursorOf_after htext, cursorOf_after (by rw [htext, List.append_assoc])]

/-- A position between characters is had back from its cursor. A cursor in a line that exists has a
    position, whose cursor is the greatest one between characters of the line that is not past it.
    And the range of a name that stands at a position reaches from the cursor of its first byte to
    that of the byte behind its last. -/
theorem positionOf?_cursorOf (text : String) :
    (∀ pos, OnBoundary text pos → positionOf? text (cursorOf text pos) = some pos)
    ∧ (∀ cursor line, Text.line? text cursor.line = some line →
      ∃ pos, positionOf? text cursor = some pos ∧ (cursorOf text pos).line = cursor.line
        ∧ IsGreatest {u ∈ Text.unitColumns line | u ≤ cursor.character}
            (cursorOf text pos).character)
    ∧ ∀ pos name, HasAt text pos name → '\n' ∉ name.toList → name ≠ "" →
      identRange text ⟨name, pos⟩
        = ⟨cursorOf text pos, cursorOf text (pos.shifted name.utf8ByteSize)⟩ := by
  refine ⟨fun pos => positionOf?_cursorOf_of_onBoundary, fun cursor line hline => ?_, ?_⟩
  · obtain ⟨pos, hpos, hcursor⟩ := exists_positionOf?_eq hline
    refine ⟨pos, hpos, ?_⟩
    rw [hcursor]
    exact ⟨rfl, Text.isGreatest_splitUnits cursor.character line⟩
  · intro pos name hat hline hname
    exact identRange_of_hasAt hat hline hname

/-- In a line with characters of one, two and four bytes the last name leads back to itself, and a
    cursor inside a surrogate pair leads to the start of its character. -/
theorem positionOf?_cursorOf_mixed :
    let text := "π = \"𝄞\" + x\n"
    positionOf? text (cursorOf text ⟨1, 15⟩) = some ⟨1, 15⟩
      ∧ (∃ pos, positionOf? text ⟨0, 6⟩ = some pos ∧ cursorOf text pos = ⟨0, 5⟩
        ∧ IsGreatest {u ∈ Text.unitColumns "π = \"𝄞\" + x".toList | u ≤ 6} 5)
      ∧ identRange text ⟨"π", ⟨1, 1⟩⟩ = ⟨⟨0, 0⟩, ⟨0, 1⟩⟩ := by
  intro text
  obtain ⟨hback, hcut, hrange⟩ := positionOf?_cursorOf text
  have hline : Text.line? text 0 = some ("π = \"𝄞\" + ".toList ++ "x".toList) := by decide
  refine ⟨hback ⟨1, 15⟩ (.intro hline), ?_, ?_⟩
  · obtain ⟨pos, hpos, -, hgreatest⟩ := hcut ⟨0, 6⟩ _ hline
    have hstart : positionOf? text ⟨0, 6⟩ = some ⟨1, 7⟩ := by decide +kernel
    obtain rfl : pos = ⟨1, 7⟩ := Option.some.inj (hpos.symm.trans hstart)
    have hcursor : cursorOf text ⟨1, 7⟩ = ⟨0, 5⟩ := by decide +kernel
    rw [hcursor] at hgreatest
    exact ⟨⟨1, 7⟩, hpos, hcursor, hgreatest⟩
  · have hname : HasAt text ⟨1, 1⟩ "π" := ⟨[], " = \"𝄞\" + x\n".toList, by decide +kernel, rfl⟩
    have hends : (⟨cursorOf text ⟨1, 1⟩, cursorOf text ⟨1, 3⟩⟩ : Range) = ⟨⟨0, 0⟩, ⟨0, 1⟩⟩ := by
      decide +kernel
    exact (hrange ⟨1, 1⟩ "π" hname (by decide) (by decide)).trans hends

end Editor

end Welle
