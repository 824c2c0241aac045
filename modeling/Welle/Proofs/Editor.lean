import Welle.Editor.Range
import Welle.Proofs.Located

set_option autoImplicit false

/-! # Where editors see identifiers

A place in a text splits it into what stands before and the rest. The cursor of the place and its
position both say how many lines stand before and how long the last of them is; so each can be had
from the other, and the range of an identifier starts and ends where the identifier does. -/

namespace Welle

/-! ## Lines -/

theorem lastLine_concat (cs : List Char) (c : Char) :
    lastLine (cs ++ [c]) = if c = '\n' then [] else lastLine cs ++ [c] := by
  by_cases hc : c = '\n' <;> simp [lastLine, hc]

theorem lastLine_append (before : List Char) {cs : List Char} (h : '\n' ∉ cs) :
    lastLine (before ++ cs) = lastLine before ++ cs := by
  induction cs using List.reverseRecOn with
  | nil => simp
  | append_singleton cs c ih =>
    simp only [List.mem_append, List.mem_singleton, not_or] at h
    rw [← List.append_assoc, lastLine_concat, if_neg (Ne.symm h.2), ih h.1, List.append_assoc]

namespace Text

theorem byteLength_append (xs ys : List Char) :
    byteLength (xs ++ ys) = byteLength xs + byteLength ys := by
  induction xs with
  | nil => simp [byteLength]
  | cons c cs ih => simp [byteLength, ih, Nat.add_assoc]

theorem utf8ByteSize_eq (s : String) : s.utf8ByteSize = byteLength s.toList := by
  have hlist (cs : List Char) : (String.ofList cs).utf8ByteSize = byteLength cs := by
    induction cs with
    | nil => rfl
    | cons c cs ih =>
      have hcons : String.ofList (c :: cs) = String.singleton c ++ String.ofList cs := by
        rw [← String.toList_inj]
        simp
      rw [hcons, String.utf8ByteSize_append, String.utf8ByteSize_singleton, ih, byteLength]
  rw [← hlist s.toList, String.ofList_toList]

theorem unitLength_append (xs ys : List Char) :
    unitLength (xs ++ ys) = unitLength xs + unitLength ys := by
  induction xs with
  | nil => simp [unitLength]
  | cons c cs ih => simp [unitLength, ih, Nat.add_assoc]

theorem units_pos (c : Char) : 0 < units c := by
  unfold units
  split <;> omega

theorem unitLength_pos {cs : List Char} (h : cs ≠ []) : 0 < unitLength cs := by
  cases cs with
  | nil => exact absurd rfl h
  | cons c cs => exact Nat.add_pos_left (units_pos c) _

theorem splitBytes_byteLength (xs ys : List Char) :
    splitBytes (byteLength xs) (xs ++ ys) = (xs, ys) := by
  induction xs with
  | nil =>
    cases ys with
    | nil => rfl
    | cons c ys => simp [byteLength, splitBytes, Nat.ne_of_gt c.utf8Size_pos]
  | cons c cs ih => simp [byteLength, splitBytes, ih]

theorem splitUnits_unitLength (xs ys : List Char) :
    splitUnits (unitLength xs) (xs ++ ys) = (xs, ys) := by
  induction xs with
  | nil =>
    cases ys with
    | nil => rfl
    | cons c ys => simp [unitLength, splitUnits, Nat.ne_of_gt (units_pos c)]
  | cons c cs ih => simp [unitLength, splitUnits, ih]

theorem dropBytes?_byteLength (xs ys : List Char) :
    dropBytes? (byteLength xs) (xs ++ ys) = some ys := by
  induction xs with
  | nil => cases ys <;> rfl
  | cons c cs ih =>
    obtain ⟨n, hn⟩ := Nat.exists_eq_succ_of_ne_zero (Nat.ne_of_gt c.utf8Size_pos)
    have hlen : byteLength (c :: cs) = (n + byteLength cs) + 1 := by
      rw [byteLength, hn]
      omega
    rw [hlen, List.cons_append, dropBytes?, if_pos (by omega), ← ih]
    congr 1
    omega

theorem length_splitOn (sep : Char) (cs : List Char) :
    (cs.splitOn sep).length = cs.count sep + 1 := by
  induction cs with
  | nil => rfl
  | cons c cs ih =>
    rw [List.splitOn_cons_eq_if_modifyHead]
    by_cases hc : c = sep <;> simp [hc, ih]

theorem head?_splitOn (sep : Char) (cs : List Char) :
    (cs.splitOn sep)[0]? = some (cs.takeWhile (· ≠ sep)) := by
  induction cs with
  | nil => rfl
  | cons c cs ih =>
    rw [List.splitOn_cons_eq_if_modifyHead]
    by_cases hc : c = sep
    · simp [hc]
    · simpa [hc] using ih

/-- The line of a place: what stands before the place, and what follows up to the line feed. -/
theorem line?_of_append {text : String} {before rest : List Char}
    (h : text.toList = before ++ rest) :
    line? text (before.count '\n') = some (lastLine before ++ rest.takeWhile (· ≠ '\n')) := by
  rw [line?, lines, h]
  clear h
  induction before using List.reverseRecOn generalizing rest with
  | nil => exact head?_splitOn '\n' rest
  | append_singleton before c ih =>
    rw [List.append_assoc, List.singleton_append, lastLine_concat, List.count_append]
    by_cases hc : c = '\n'
    · subst hc
      rw [List.splitOn_append_cons_self, List.getElem?_append_right (by simp [length_splitOn])]
      simpa [length_splitOn] using head?_splitOn '\n' rest
    · have hcount : List.count '\n' [c] = 0 := by simp [hc]
      rw [hcount, Nat.add_zero, ih, if_neg hc]
      simp [hc]

end Text

theorem after_start (before : List Char) : Position.start.after before =
    ⟨before.count '\n' + 1, Text.byteLength (lastLine before) + 1⟩ := by
  induction before using List.reverseRecOn with
  | nil => rfl
  | append_singleton before c ih =>
    rw [Position.after_append, ih, lastLine_concat, List.count_append, Position.after_cons,
      Position.after_nil, Position.next]
    by_cases hc : c = '\n'
    · simp [hc, Text.byteLength]
    · simp [hc, Text.byteLength_append, Text.byteLength]
      omega

/-- Within a line a position moves by the bytes of the text. -/
theorem Position.after_of_not_mem (p : Position) {cs : List Char} (h : '\n' ∉ cs) :
    p.after cs = ⟨p.line, p.column + Text.byteLength cs⟩ := by
  induction cs generalizing p with
  | nil => rfl
  | cons c cs ih =>
    rw [List.mem_cons, not_or] at h
    rw [Position.after_cons, ih _ h.2, Position.next, if_neg (Ne.symm h.1), Text.byteLength,
      Nat.add_assoc]

namespace Editor

/-! ## Cursors and positions -/

theorem cursorOf_after {text : String} {before rest : List Char}
    (h : text.toList = before ++ rest) :
    cursorOf text (Position.start.after before) = endCursor (String.ofList before) := by
  rw [after_start]
  simp [cursorOf, Text.line?_of_append h, endCursor, Text.splitBytes_byteLength]

theorem positionOf?_endCursor {text : String} {before rest : List Char}
    (h : text.toList = before ++ rest) :
    positionOf? text (endCursor (String.ofList before)) = some (Position.start.after before) := by
  rw [after_start]
  simp [positionOf?, Text.line?_of_append h, endCursor, Text.splitUnits_unitLength]

theorem charsFrom_after {text : String} {before rest : List Char}
    (h : text.toList = before ++ rest) :
    charsFrom text (Position.start.after before) = rest.takeWhile (· ≠ '\n') := by
  rw [after_start]
  simp [charsFrom, Text.line?_of_append h, Text.byteLength_append, Text.dropBytes?_byteLength]

/-! ## Identifiers -/

/-- A range covers the whole of a word that stands `offset` characters behind the start of a
    text. -/
def CoversWord (text : String) (range : Range) (word : String) (offset : Nat) : Prop :=
  ∃ before behind, text.toList = before ++ (word.toList ++ behind) ∧ before.length = offset
    ∧ Token.IsWordText word.toList ∧ Token.EndsWord behind
    ∧ range = ⟨endCursor (String.ofList before), endCursor (String.ofList (before ++ word.toList))⟩

theorem newline_not_mem {word : List Char} (h : Token.IsWordText word) : '\n' ∉ word := by
  intro hmem
  have hcontinue := h.continues _ hmem
  exact absurd hcontinue (by decide)

theorem ne_nil_of_isWordText {word : List Char} (h : Token.IsWordText word) : word ≠ [] := by
  rintro rfl
  obtain ⟨c, hc, -⟩ := h.starts
  cases hc

/-- The range of a name is that of its characters. -/
theorem identRange_of_append {text : String} {id : Ident} {before behind : List Char}
    (h : text.toList = before ++ (id.name.toList ++ behind))
    (hpos : id.pos = Position.start.after before) (hline : '\n' ∉ id.name.toList)
    (hname : id.name.toList ≠ []) :
    identRange text id =
      ⟨endCursor (String.ofList before), endCursor (String.ofList (before ++ id.name.toList))⟩ := by
  have htake : (id.name.toList ++ behind).takeWhile (· ≠ '\n') =
      id.name.toList ++ behind.takeWhile (· ≠ '\n') := by
    refine List.takeWhile_append_of_pos fun c hc => ?_
    simpa using fun heq : c = '\n' => hline (heq ▸ hc)
  have hcovered : ((charsFrom text id.pos).take id.name.length) = id.name.toList := by
    rw [hpos, charsFrom_after h, htake, ← String.length_toList, List.take_left]
  have hwidth : 1 ≤ Text.unitLength id.name.toList := Text.unitLength_pos hname
  rw [identRange, charRange, hcovered, hpos, cursorOf_after h, String.length_toList, Nat.sub_self,
    Nat.add_zero, Nat.max_eq_left hwidth]
  simp [endCursor, lastLine_append before hline, Text.unitLength_append,
    List.count_eq_zero_of_not_mem hline]

/-- The range of a word is that of its characters. -/
theorem identRange_of_isWordText {text : String} {id : Ident} {before behind : List Char}
    (h : text.toList = before ++ (id.name.toList ++ behind))
    (hpos : id.pos = Position.start.after before) (hword : Token.IsWordText id.name.toList) :
    identRange text id =
      ⟨endCursor (String.ofList before), endCursor (String.ofList (before ++ id.name.toList))⟩ :=
  identRange_of_append h hpos (newline_not_mem hword) (ne_nil_of_isWordText hword)

/-- The range of an identifier of a program covers one whole word. -/
theorem identRange_covers {text : String} {id : Ident}
    (h : id ∈ (Program.parse text).program.idents) :
    ∃ offset, CoversWord text (identRange text id) id.name offset := by
  obtain ⟨before, behind, htext, hpos, hword, hends⟩ := Program.located_of_mem h
  exact ⟨before.length, before, behind, htext, rfl, hword, hends,
    identRange_of_isWordText htext hpos hword⟩

/-- The start of the range of an identifier leads back to the identifier. -/
theorem positionOf?_identRange {text : String} {id : Ident}
    (h : id ∈ (Program.parse text).program.idents) :
    positionOf? text (identRange text id).start = some id.pos := by
  obtain ⟨before, behind, htext, hpos, hword, -⟩ := Program.located_of_mem h
  rw [identRange_of_isWordText htext hpos hword, hpos]
  exact positionOf?_endCursor htext

/-- Identifiers with the same range are the same. -/
theorem eq_of_identRange_eq {text : String} {a b : Ident}
    (ha : a ∈ (Program.parse text).program.idents) (hb : b ∈ (Program.parse text).program.idents)
    (h : identRange text a = identRange text b) : a = b := by
  have hpos := (positionOf?_identRange ha).symm.trans (h ▸ positionOf?_identRange hb)
  exact Program.eq_of_pos_eq ha hb (Option.some.inj hpos)

end Editor

end Welle
