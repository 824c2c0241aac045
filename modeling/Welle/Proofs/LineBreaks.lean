import Welle.Document
import Welle.Proofs.Editor

set_option autoImplicit false

/-! # Where edits land

Edits and positions count lines in different ways. For positions a line ends at a line feed; for
edits it also ends at other characters. `Stands` says where a cursor stands when lines end at line
feeds. The offset that an edit takes for the cursor is never behind that place, and it is that place
exactly when no line ends in another way before the last character in front of it. A carriage return
in front of a line feed makes no difference. -/

namespace Welle

namespace Document

/-! ## Lines of edits -/

/-- Whether a character ends a line of edits when `rest` follows. The line of a carriage return in
    front of a line feed ends with the line feed. -/
def endsLine (c : Char) (rest : List Char) : Bool :=
  isLineBreak c && !(c = '\r' && rest.head? = some '\n')

theorem endsLine_feed (rest : List Char) : endsLine '\n' rest = true := rfl

theorem endsLine_append (c : Char) {before : List Char} (h : before ≠ []) (behind : List Char) :
    endsLine c (before ++ behind) = endsLine c before := by
  obtain ⟨d, before, rfl⟩ := List.exists_cons_of_ne_nil h
  rfl

theorem units_of_endsLine {c : Char} {rest : List Char} (h : endsLine c rest = true) :
    Text.units c = 1 := by
  have hmem : c ∈ ['\n', '\x0b', '\x0c', '\r', '\u0085', '\u2028', '\u2029'] :=
    List.contains_iff_mem.1 (Bool.and_eq_true_iff.1 h).1
  have hall : ['\n', '\x0b', '\x0c', '\r', '\u0085', '\u2028', '\u2029'].all
      (Text.units · = 1) = true := by
    decide
  exact of_decide_eq_true (List.all_eq_true.1 hall c hmem)

theorem lines_ne_nil (cs : List Char) : lines cs ≠ [] := by
  unfold lines
  split
  · simp
  · simp
  · split
    · simp
    · split <;> simp

theorem lines_of_endsLine {c : Char} {rest : List Char} (h : endsLine c rest = true) :
    lines (c :: rest) = [c] :: lines rest := by
  have hbreak : isLineBreak c = true := (Bool.and_eq_true_iff.1 h).1
  rw [lines, if_pos hbreak]
  rintro cs rfl rfl
  simp [endsLine] at h

theorem lines_of_not_endsLine {c : Char} {rest : List Char} (h : endsLine c rest = false) :
    ∃ line more, lines rest = line :: more ∧ lines (c :: rest) = (c :: line) :: more := by
  obtain ⟨line, more, hlines⟩ := List.exists_cons_of_ne_nil (lines_ne_nil rest)
  refine ⟨line, more, hlines, ?_⟩
  by_cases hbreak : isLineBreak c = true
  · -- a carriage return goes to the line of the line feed
    have hpair : c = '\r' ∧ rest.head? = some '\n' := by simpa [endsLine, hbreak] using h
    obtain ⟨rfl, hhead⟩ := hpair
    obtain ⟨cs, rfl⟩ := List.head?_eq_some_iff.1 hhead
    rw [lines_of_endsLine (endsLine_feed cs)] at hlines
    obtain ⟨rfl, rfl⟩ := List.cons.inj hlines
    rw [lines]
  · rw [lines, if_neg hbreak, hlines]
    rintro cs rfl rfl
    exact hbreak rfl

/-! ## Offsets along a text -/

theorem offset_nil (cursor : Editor.Cursor) : offset [] cursor = 0 := by
  obtain ⟨line, character⟩ := cursor
  cases line <;> simp [offset, lines, charsBefore, Text.splitUnits]

theorem offset_succ_of_endsLine {c : Char} {rest : List Char} (h : endsLine c rest = true)
    (line character : Nat) :
    offset (c :: rest) ⟨line + 1, character⟩ = offset rest ⟨line, character⟩ + 1 := by
  unfold offset
  simp only [lines_of_endsLine h, List.getElem?_cons_succ]
  cases (lines rest)[line]? with
  | none => rfl
  | some found =>
    simp
    omega

theorem offset_succ_of_not_endsLine {c : Char} {rest : List Char} (h : endsLine c rest = false)
    (line character : Nat) :
    offset (c :: rest) ⟨line + 1, character⟩ = offset rest ⟨line + 1, character⟩ + 1 := by
  obtain ⟨first, more, hrest, hlines⟩ := lines_of_not_endsLine h
  unfold offset
  simp only [hlines, hrest, List.getElem?_cons_succ]
  cases more[line]? with
  | none => rfl
  | some found =>
    simp
    omega

theorem offset_zero_of_endsLine {c : Char} {rest : List Char} (h : endsLine c rest = true)
    (character : Nat) :
    offset (c :: rest) ⟨0, character⟩ = if c ≠ '\n' ∧ 1 ≤ character then 1 else 0 := by
  unfold offset
  simp only [lines_of_endsLine h, List.getElem?_cons_zero, List.take_zero, List.flatten_nil,
    List.length_nil, Nat.zero_add, charsBefore]
  by_cases hfeed : c = '\n'
  · simp [hfeed, Text.splitUnits]
  · by_cases hpast : 1 ≤ character <;>
      simp [hfeed, hpast, Text.splitUnits, units_of_endsLine h]

theorem offset_zero_of_not_endsLine {c : Char} {rest : List Char} (h : endsLine c rest = false)
    (character : Nat) : offset (c :: rest) ⟨0, character⟩ =
      if Text.units c ≤ character then offset rest ⟨0, character - Text.units c⟩ + 1 else 0 := by
  obtain ⟨first, more, hrest, hlines⟩ := lines_of_not_endsLine h
  have hfeed : c ≠ '\n' := by
    rintro rfl
    rw [endsLine_feed] at h
    cases h
  unfold offset
  simp only [hlines, hrest, List.getElem?_cons_zero, List.take_zero, List.flatten_nil,
    List.length_nil, Nat.zero_add, charsBefore]
  by_cases hfits : Text.units c ≤ character <;> simp [hfeed, hfits, Text.splitUnits]

/-! ## Where a cursor stands -/

/-- A cursor of the given line and column stands between `before` and `behind` when lines end at
    line feeds. On its line it passes the characters that its column has room for, but never the
    line feed. -/
inductive Stands : List Char → List Char → Nat → Nat → Prop where
  | stop {behind : List Char} {character : Nat}
      (h : ∀ c, behind.head? = some c → c ≠ '\n' → character < Text.units c) :
      Stands [] behind 0 character
  | feed {before behind : List Char} {line character : Nat}
      (h : Stands before behind line character) :
      Stands ('\n' :: before) behind (line + 1) character
  | past {c : Char} {before behind : List Char} {line character : Nat} (hc : c ≠ '\n')
      (h : Stands before behind (line + 1) character) :
      Stands (c :: before) behind (line + 1) character
  | along {c : Char} {before behind : List Char} {character : Nat} (hc : c ≠ '\n')
      (h : Stands before behind 0 character) :
      Stands (c :: before) behind 0 (character + Text.units c)

/-- A line of a text starts at a place of the text, and a column of it stands where its units
    end. -/
theorem exists_stands {cs line : List Char} {n : Nat} (h : (cs.splitOn '\n')[n]? = some line)
    (character : Nat) (p : Position) : ∃ before behind, cs = before ++ behind
      ∧ Stands before behind n character
      ∧ p.after before = ⟨p.line + n, (if n = 0 then p.column else 1)
        + Text.byteLength (Text.splitUnits character line).1⟩ := by
  induction cs generalizing n character p line with
  | nil =>
    obtain ⟨rfl, rfl⟩ : n = 0 ∧ line = [] := by
      cases n <;> simp_all
    exact ⟨[], [], rfl, .stop (by simp), by simp [Text.splitUnits, Text.byteLength]⟩
  | cons c cs ih =>
    simp only [List.splitOn_cons_eq_if_modifyHead, beq_iff_eq] at h
    split at h
    next hc =>
      subst hc
      cases n with
      | zero =>
        obtain rfl : [] = line := by simpa using h
        exact ⟨[], '\n' :: cs, rfl, .stop (by simp), by simp [Text.splitUnits, Text.byteLength]⟩
      | succ n =>
        obtain ⟨before, behind, rfl, hstands, hafter⟩ := ih h character (p.next '\n')
        refine ⟨'\n' :: before, behind, rfl, .feed hstands, ?_⟩
        rw [Position.after_cons, hafter]
        simp [Position.next]
        omega
    next hc =>
      obtain ⟨first, more, hpieces⟩ := List.exists_cons_of_ne_nil (List.splitOn_ne_nil '\n' cs)
      simp only [hpieces, List.modifyHead_cons] at h ih
      cases n with
      | zero =>
        obtain rfl : c :: first = line := by simpa using h
        -- a column within a character stands in front of it
        by_cases hfits : Text.units c ≤ character
        · obtain ⟨before, behind, rfl, hstands, hafter⟩ :=
            ih (n := 0) rfl (character - Text.units c) (p.next c)
          have halong := Stands.along hc hstands
          rw [Nat.sub_add_cancel hfits] at halong
          refine ⟨c :: before, behind, rfl, halong, ?_⟩
          rw [Position.after_cons, hafter]
          simp [Position.next, hc, hfits, Text.splitUnits, Text.byteLength, Nat.add_assoc]
        · refine ⟨[], c :: cs, rfl, .stop ?_, ?_⟩
          · intro d hd _
            obtain rfl : c = d := by simpa using hd
            omega
          · simp [Text.splitUnits, hfits, Text.byteLength]
      | succ n =>
        obtain ⟨before, behind, rfl, hstands, hafter⟩ := ih (n := n + 1) h character (p.next c)
        refine ⟨c :: before, behind, rfl, .past hc hstands, ?_⟩
        rw [Position.after_cons, hafter]
        simp [Position.next, hc]

/-! ## Offsets and places -/

/-- A line of edits ends before the last character of a text, and not with a line feed. -/
def BreaksLine (cs : List Char) : Prop :=
  ∃ front c back, cs = front ++ c :: back ∧ back ≠ [] ∧ endsLine c back = true ∧ c ≠ '\n'

theorem not_breaksLine_nil : ¬BreaksLine [] := by
  rintro ⟨front, c, back, h, -⟩
  simp at h

theorem breaksLine_cons {c : Char} {cs : List Char} :
    BreaksLine (c :: cs) ↔ (cs ≠ [] ∧ endsLine c cs = true ∧ c ≠ '\n') ∨ BreaksLine cs := by
  constructor
  · rintro ⟨front, d, back, heq, hback, hends, hd⟩
    cases front with
    | nil =>
      obtain ⟨rfl, rfl⟩ := List.cons.inj heq
      exact .inl ⟨hback, hends, hd⟩
    | cons e front =>
      obtain ⟨rfl, rfl⟩ := List.cons.inj heq
      exact .inr ⟨front, d, back, rfl, hback, hends, hd⟩
  · rintro (⟨hcs, hends, hc⟩ | ⟨front, d, back, rfl, hback, hends, hd⟩)
    · exact ⟨[], c, cs, rfl, hcs, hends, hc⟩
    · exact ⟨c :: front, d, back, rfl, hback, hends, hd⟩

/-- On an earlier line an edit is before the place. -/
theorem offset_lt {before behind : List Char} {m column : Nat}
    (h : Stands before behind m column) {n : Nat} (hn : n < m) (character : Nat) :
    offset (before ++ behind) ⟨n, character⟩ < before.length := by
  induction h generalizing n character with
  | stop => omega
  | @feed before behind m column _ ih =>
    rw [List.cons_append, List.length_cons]
    cases n with
    | zero =>
      rw [offset_zero_of_endsLine (endsLine_feed _)]
      simp
    | succ n =>
      rw [offset_succ_of_endsLine (endsLine_feed _)]
      exact Nat.succ_lt_succ (ih (by omega) character)
  | @past c before behind m column hc _ ih =>
    rw [List.cons_append, List.length_cons]
    -- other characters than a line feed may end a line of the document
    cases hends : endsLine c (before ++ behind) with
    | true =>
      cases n with
      | zero =>
        have hpos := ih (n := 0) (by omega) character
        rw [offset_zero_of_endsLine hends]
        split <;> omega
      | succ n =>
        rw [offset_succ_of_endsLine hends]
        exact Nat.succ_lt_succ (ih (by omega) character)
    | false =>
      cases n with
      | zero =>
        have hpos := ih (n := 0) (by omega) (character - Text.units c)
        rw [offset_zero_of_not_endsLine hends]
        split <;> omega
      | succ n =>
        rw [offset_succ_of_not_endsLine hends]
        exact Nat.succ_lt_succ (ih (by omega) character)
  | along => omega

/-- An edit is at the place of its cursor exactly when no line ends early. -/
theorem offset_eq_iff {before behind : List Char} {line character : Nat}
    (h : Stands before behind line character) :
    offset (before ++ behind) ⟨line, character⟩ = before.length ↔ ¬BreaksLine before := by
  induction h with
  | @stop behind character hstop =>
    have hzero : offset behind ⟨0, character⟩ = 0 := by
      cases behind with
      | nil => exact offset_nil _
      | cons c rest =>
        have hlt := hstop c rfl
        cases hends : endsLine c rest with
        | true =>
          rw [offset_zero_of_endsLine hends, if_neg]
          rintro ⟨hc, hpast⟩
          have := hlt hc
          rw [units_of_endsLine hends] at this
          omega
        | false =>
          have hc : c ≠ '\n' := by
            rintro rfl
            cases hends
          rw [offset_zero_of_not_endsLine hends, if_neg (Nat.not_le.2 (hlt hc))]
    simp [hzero, not_breaksLine_nil]
  | @feed before behind line character _ ih =>
    rw [List.cons_append, offset_succ_of_endsLine (endsLine_feed _), List.length_cons,
      breaksLine_cons, Nat.add_right_cancel_iff, ih]
    simp
  | @past c before behind line character hc hstands ih =>
    have hne : before ≠ [] := by
      rintro rfl
      cases hstands
    rw [List.cons_append, List.length_cons, breaksLine_cons]
    cases hends : endsLine c (before ++ behind) with
    | true =>
      -- the next line of edits has begun, but the cursor is behind a line feed
      have hlt := offset_lt hstands (Nat.lt_succ_self line) character
      rw [endsLine_append c hne] at hends
      rw [offset_succ_of_endsLine (endsLine_append c hne behind ▸ hends)]
      simp [hne, hends, hc]
      omega
    | false =>
      rw [offset_succ_of_not_endsLine hends, Nat.add_right_cancel_iff, ih]
      rw [endsLine_append c hne] at hends
      simp [hends]
  | @along c before behind character hc hstands ih =>
    rw [List.cons_append, List.length_cons, breaksLine_cons]
    cases hends : endsLine c (before ++ behind) with
    | true =>
      have hpast : 1 ≤ character + Text.units c := by
        rw [units_of_endsLine hends]
        omega
      rw [offset_zero_of_endsLine hends, if_pos ⟨hc, hpast⟩]
      by_cases hne : before = []
      · simp [hne, not_breaksLine_nil]
      · rw [endsLine_append c hne] at hends
        have hlen := List.length_pos_of_ne_nil hne
        simp [hne, hends, hc]
    | false =>
      rw [offset_zero_of_not_endsLine hends, if_pos (Nat.le_add_left _ _), Nat.add_sub_cancel,
        Nat.add_right_cancel_iff, ih]
      by_cases hne : before = []
      · simp [hne]
      · rw [endsLine_append c hne] at hends
        simp [hends]

/-- What stands in front of a cursor, and when an edit is there. -/
theorem offset_of_position {text : String} {cursor : Editor.Cursor} {pos : Position}
    (h : Editor.positionOf? text cursor = some pos) : ∃ before behind,
      text.toList = before ++ behind ∧ Position.start.after before = pos
      ∧ (offset text.toList cursor = before.length ↔ ¬BreaksLine before) := by
  obtain ⟨line, hline, rfl⟩ := Option.map_eq_some_iff.1 h
  obtain ⟨before, behind, htext, hstands, hafter⟩ :=
    exists_stands hline cursor.character Position.start
  refine ⟨before, behind, htext, ?_, ?_⟩
  · rw [hafter]
    simp [Position.start, Nat.add_comm]
  · rw [htext]
    exact offset_eq_iff hstands

/-- Beginnings of a text that end at the same position are the same. -/
theorem eq_of_after_eq {text xs ys : List Char} (hx : xs <+: text) (hy : ys <+: text)
    (h : Position.start.after xs = Position.start.after ys) : xs = ys := by
  have hnil {zs more : List Char}
      (h : Position.start.after (zs ++ more) = Position.start.after zs) : more = [] := by
    by_contra hne
    have hlt := Position.lt_after (Position.start.after zs) hne
    rw [← Position.after_append, h] at hlt
    exact Position.lt_irrefl _ hlt
  obtain ⟨more, rfl⟩ | ⟨more, rfl⟩ := List.prefix_or_prefix_of_prefix hx hy
  · rw [hnil h.symm, List.append_nil]
  · rw [hnil h, List.append_nil]

/-- The offset that an edit takes for a cursor is the number of characters in front of the position
    of the cursor, unless a line ends there before the last of them and not with a line feed. Where
    the end of a range is at its place too, the edit replaces what stands between the positions of
    the range and nothing else. -/
theorem offset_eq_length_iff {text : String} {cursor : Editor.Cursor} {pos : Position}
    (h : Editor.positionOf? text cursor = some pos) : ∃ before behind,
      text.toList = before ++ behind ∧ Position.start.after before = pos
      ∧ (offset text.toList cursor = before.length ↔ ¬BreaksLine before)
      ∧ ∀ covered rest stop word, behind = covered ++ rest →
        Editor.positionOf? text stop = some (Position.start.after (before ++ covered)) →
        ¬BreaksLine (before ++ covered) →
        edited text.toList ⟨some ⟨cursor, stop⟩, word⟩ = before ++ word.toList ++ rest := by
  obtain ⟨before, behind, htext, hpos, hiff⟩ := offset_of_position h
  refine ⟨before, behind, htext, hpos, hiff, ?_⟩
  rintro covered rest stop word rfl hstop hwhole
  have hstart : offset text.toList cursor = before.length := by
    rw [hiff]
    rintro ⟨front, c, back, rfl, hback, hends, hc⟩
    refine hwhole ⟨front, c, back ++ covered, by simp, by simp [hback], ?_, hc⟩
    rw [endsLine_append c hback, hends]
  obtain ⟨before', behind', htext', hpos', hiff'⟩ := offset_of_position hstop
  obtain rfl : before' = before ++ covered :=
    eq_of_after_eq ⟨behind', htext'.symm⟩ ⟨rest, by simp [htext]⟩ hpos'
  have hend : offset text.toList stop = (before ++ covered).length := hiff'.2 hwhole
  rw [edited]
  simp only [hstart, hend]
  rw [htext, List.length_append, Nat.min_eq_left (Nat.le_add_right _ _),
    Nat.max_eq_right (Nat.le_add_right _ _), List.take_left, ← List.append_assoc before covered rest,
    ← List.length_append, List.drop_left]

/-- A string with a line separator in it, and a second line. -/
def separatedText : String := "s = \"a\u2028b\"\nx = 1\n"

/-- The name on the second line is behind ten characters, but an edit there takes it for the letter
    behind the separator. -/
theorem edit_behind_separator :
    Editor.positionOf? separatedText ⟨1, 0⟩ = some ⟨2, 1⟩
      ∧ Position.start.after (separatedText.toList.take 10) = ⟨2, 1⟩
      ∧ offset separatedText.toList ⟨1, 0⟩ ≠ 10
      ∧ edited separatedText.toList ⟨some ⟨⟨1, 0⟩, ⟨1, 1⟩⟩, "y"⟩
        = "s = \"a\u2028y\"\nx = 1\n".toList := by
  have hpos : Editor.positionOf? separatedText ⟨1, 0⟩ = some ⟨2, 1⟩ := by decide +kernel
  have hafter : Position.start.after (separatedText.toList.take 10) = ⟨2, 1⟩ := by decide +kernel
  refine ⟨hpos, hafter, fun hoffset => ?_, by decide +kernel⟩
  obtain ⟨before, behind, htext, hbefore, hiff, -⟩ := offset_eq_length_iff hpos
  obtain rfl : before = separatedText.toList.take 10 :=
    eq_of_after_eq ⟨behind, htext.symm⟩ (List.take_prefix _ _) (hbefore.trans hafter.symm)
  refine hiff.1 (hoffset.trans (by decide +kernel))
    ⟨separatedText.toList.take 6, '\u2028', ['b', '"', '\n'], ?_, ?_, ?_, ?_⟩
  all_goals decide +kernel

end Document

end Welle
