import Welle.Template

set_option autoImplicit false

/-! # Segments of a template body

`Divides` says how a body is cut up: texts and interpolations take turns, each one starts where the
one in front of it ends, and a position is the one that is reached by going over everything in front.
The splitter reads a character at a time and keeps the position with it, so what it gives is such a
division if one more character in front of the first text leaves a division. -/

namespace Welle.Template

/-- What a stretch of text stands for when `rest` is behind it. A backslash and the character behind
    it are decoded. A backslash at the end of a body stands for itself, as do all other characters
    except for a dollar sign that opens an interpolation. -/
inductive Decodes (rest : List Char) : List Char → List Char → Prop where
  | nil : Decodes rest [] []
  | backslash : rest = [] → Decodes rest ['\\'] ['\\']
  | escape {e : Char} {cs value : List Char} :
      Decodes rest cs value → Decodes rest ('\\' :: e :: cs) (unescape e ++ value)
  | char {c : Char} {cs value : List Char} :
      c ≠ '\\' → ¬(c = '$' ∧ (cs ++ rest).head? = some '{') → Decodes rest cs value →
      Decodes rest (c :: cs) (c :: value)

/-- The segments of a body whose first character stands at a position: a text alone, or a text, an
    interpolation, and the segments of what is behind its closing brace. An interpolation without a
    closing brace takes up the rest of the body, and the text behind it is empty. -/
inductive Divides : Position → List Char → List Segment → Prop where
  | text {pos : Position} {text value : List Char} :
      Decodes [] text value → Divides pos text [.text (String.ofList value)]
  | closed {pos : Position} {text value source rest : List Char} {segments : List Segment} :
      Decodes ('$' :: '{' :: (source ++ '}' :: rest)) text value →
      Divides (pos.after (text ++ '$' :: '{' :: (source ++ ['}']))) rest segments →
      Divides pos (text ++ '$' :: '{' :: (source ++ '}' :: rest))
        (.text (String.ofList value)
          :: .hole (String.ofList source) ((pos.after text).shifted 2) (pos.after text) :: segments)
  | unclosed {pos : Position} {text value source : List Char} :
      Decodes ('$' :: '{' :: source) text value →
      Divides pos (text ++ '$' :: '{' :: source)
        [.text (String.ofList value),
          .hole (String.ofList source) ((pos.after text).shifted 2) (pos.after text), .text ""]

/-! ## Splitting -/

variable {pos : Position} {c : Char} {cs : List Char} {segments : List Segment}

/-- An interpolation and what stands behind it. -/
theorem splitFrom_hole (pos : Position) (hc : ¬c = '\\')
    (hopen : (c = '$' && cs.head? = some '{') = true) :
    let hole := takeHole 1 (cs.drop 1)
    let behind := (hole.rest.map (splitFrom ((((pos.shifted 2).after hole.source)).next '}'))).getD
      ([], [])
    splitFrom pos (c :: cs) = ([], .hole (String.ofList hole.source) (pos.shifted 2) pos
      :: .text (String.ofList behind.1) :: behind.2) := by
  rw [splitFrom.eq_def]
  simp only [if_neg hc, if_pos hopen]
  split
  next rest hrest => rw [hrest]; rfl
  next hrest => rw [hrest]; rfl

/-- A character that starts neither an escape nor an interpolation is text. -/
theorem splitFrom_char (pos : Position) (hescape : ¬c = '\\')
    (hopen : ¬(c = '$' && cs.head? = some '{') = true) :
    splitFrom pos (c :: cs) = (c :: (splitFrom (pos.next c) cs).1, (splitFrom (pos.next c) cs).2) := by
  rw [splitFrom.eq_def]
  simp only [if_neg hescape, if_neg hopen]

/-- The first text of a division goes on in front, if its decoding does. -/
theorem Divides.prepend (front decoded : List Char) {first : String}
    (h : Divides (pos.after front) cs (.text first :: segments))
    (hfront : ∀ {text rest value}, cs = text ++ rest → Decodes rest text value →
      Decodes rest (front ++ text) (decoded ++ value)) :
    Divides pos (front ++ cs) (.text (String.ofList decoded ++ first) :: segments) := by
  cases h with
  | text hdecodes =>
    rw [← String.ofList_append]
    exact .text (hfront (List.append_nil _).symm hdecodes)
  | closed hdecodes hrest =>
    rw [← String.ofList_append, ← List.append_assoc, ← Position.after_append]
    rw [← Position.after_append, ← List.append_assoc] at hrest
    exact .closed (hfront rfl hdecodes) hrest
  | unclosed hdecodes =>
    rw [← String.ofList_append, ← List.append_assoc, ← Position.after_append]
    exact .unclosed (hfront rfl hdecodes)

/-- The splitter divides a body. -/
theorem divides_splitFrom (pos : Position) (cs : List Char) :
    Divides pos cs (.text (String.ofList (splitFrom pos cs).1) :: (splitFrom pos cs).2) := by
  induction pos, cs using splitFrom.induct with
  | case1 pos =>
    rw [splitFrom]
    exact .text .nil
  | case2 pos =>
    rw [splitFrom]
    exact .text (.backslash rfl)
  | case3 pos e rest ih =>
    rw [splitFrom, if_pos rfl]
    simp only [String.ofList_append]
    exact Divides.prepend ['\\', e] (unescape e) ih fun _ hdecodes => .escape hdecodes
  | case4 pos c cs hc hopen source origin ih =>
    obtain ⟨rfl, hbrace⟩ : c = '$' ∧ cs.head? = some '{' := by simpa using hopen
    obtain ⟨ds, rfl⟩ := List.head?_eq_some_iff.1 hbrace
    -- the text in front is empty, and the source and what is behind it are the rest of the body
    have happend := takeHole_append 1 ds
    rw [splitFrom_hole pos hc hopen]
    simp only [List.drop_one, List.tail_cons] at ih ⊢
    cases hrest : (takeHole 1 ds).rest with
    | none =>
      simp only [hrest, Option.map_none, Option.getD_none, List.append_nil] at happend ⊢
      conv in '$' :: '{' :: ds => rw [← happend]
      exact Divides.unclosed .nil
    | some rest =>
      simp only [hrest, Option.map_some, Option.getD_some] at happend ⊢
      conv in '$' :: '{' :: ds => rw [← happend]
      refine Divides.closed .nil ?_
      have hpos : pos.after ([] ++ '$' :: '{' :: ((takeHole 1 ds).source ++ ['}']))
          = ((pos.shifted 2).after (takeHole 1 ds).source).next '}' := by
        rw [List.nil_append, Position.after_cons, Position.after_cons, Position.after_append]
        rfl
      rw [hpos]
      exact ih rest hrest
  | case5 pos c cs hc hopen ih =>
    rw [splitFrom_char pos hc hopen]
    have hplain {text rest value : List Char} (hcs : cs = text ++ rest)
        (h : Decodes rest text value) : Decodes rest ([c] ++ text) ([c] ++ value) := by
      refine .char hc ?_ h
      change ¬(c = '$' ∧ (text ++ rest).head? = some '{')
      rw [← hcs]
      simpa using hopen
    have hprepend := Divides.prepend [c] [c] ih hplain
    rwa [← String.ofList_append] at hprepend

/-- An interpolation stands in the body, where its positions say. -/
theorem Divides.of_hole {source : String} {origin opening : Position} (h : Divides pos cs segments)
    (hmem : .hole source origin opening ∈ segments) :
    ∃ before behind, cs = before ++ '$' :: '{' :: (source.toList ++ behind)
      ∧ opening = pos.after before ∧ origin = opening.shifted 2
      ∧ (behind = [] ∨ behind.head? = some '}') := by
  induction h with
  | text _ => simp at hmem
  | @closed pos text value inside rest segments _ _ ih =>
    simp only [List.mem_cons, Segment.hole.injEq, reduceCtorEq, false_or] at hmem
    rcases hmem with ⟨rfl, rfl, rfl⟩ | hmem
    · exact ⟨text, '}' :: rest, by rw [String.toList_ofList], rfl, rfl, .inr rfl⟩
    · obtain ⟨before, behind, rfl, rfl, rfl, hbehind⟩ := ih hmem
      refine ⟨text ++ '$' :: '{' :: (inside ++ ['}']) ++ before, behind, by simp, ?_, rfl, hbehind⟩
      exact (Position.after_append ..).symm
  | @unclosed pos text value inside _ =>
    simp only [List.mem_cons, Segment.hole.injEq, reduceCtorEq, List.not_mem_nil, or_false,
      false_or] at hmem
    obtain ⟨rfl, rfl, rfl⟩ := hmem
    exact ⟨text, [], by rw [String.toList_ofList, List.append_nil], rfl, rfl, .inl rfl⟩

/-- The segments of a body are its division into texts and interpolations. Each interpolation stands
    behind a dollar sign and a brace, with its source up to a closing brace or the end of the body,
    and its positions are those that are counted from the origin of the body. -/
theorem split_divides (body : String) (origin : Position) :
    Divides origin body.toList (split body origin)
      ∧ ∀ source place opening, .hole source place opening ∈ split body origin →
        ∃ before behind, body.toList = before ++ '$' :: '{' :: (source.toList ++ behind)
          ∧ opening = origin.after before ∧ place = opening.shifted 2
          ∧ (behind = [] ∨ behind.head? = some '}') :=
  have hdivides := divides_splitFrom origin body.toList
  ⟨hdivides, fun _ _ _ hmem => hdivides.of_hole hmem⟩

/-- Two interpolations, one over two lines and one that is not closed, with an escaped dollar sign and
    characters of two bytes between them. -/
theorem split_divides_lines :
    split "é$\x7ba\n\x7dß\\$\x7b$\x7bb" ⟨3, 5⟩
        = [.text "é", .hole "a\n" ⟨3, 9⟩ ⟨3, 7⟩, .text "ß$\x7b", .hole "b" ⟨4, 9⟩ ⟨4, 7⟩, .text ""]
      ∧ ∃ before behind, "é$\x7ba\n\x7dß\\$\x7b$\x7bb".toList = before ++ '$' :: '{' :: ('b' :: behind)
        ∧ ⟨4, 7⟩ = (⟨3, 5⟩ : Position).after before := by
  have hsplit : split "é$\x7ba\n\x7dß\\$\x7b$\x7bb" ⟨3, 5⟩
      = [.text "é", .hole "a\n" ⟨3, 9⟩ ⟨3, 7⟩, .text "ß$\x7b", .hole "b" ⟨4, 9⟩ ⟨4, 7⟩, .text ""] := by
    decide +kernel
  obtain ⟨before, behind, hbody, hopening, -⟩ :=
    (split_divides "é$\x7ba\n\x7dß\\$\x7b$\x7bb" ⟨3, 5⟩).2 "b" ⟨4, 9⟩ ⟨4, 7⟩ (by simp [hsplit])
  exact ⟨hsplit, before, behind, hbody, hopening⟩

end Welle.Template
