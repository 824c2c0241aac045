import Welle.Proofs.Segments
import Welle.Proofs.Stretches

set_option autoImplicit false

/-! # Texts within a file

A text is lexed at an origin as it is lexed on its own, and only the positions move: those on its
first line by the column of the origin, all others by its line. The source of an interpolation is
such a text within a file, at any depth. It stands in the file where its origin says, so its tokens
have the positions that their characters have in the file. -/

namespace Welle

/-! ## Another origin -/

/-- Where a position of a text is when the text starts at `origin`. -/
def Position.relocated (p origin : Position) : Position :=
  if p.line = 1 then ⟨origin.line, origin.column + p.column - 1⟩
  else ⟨origin.line + p.line - 1, p.column⟩

/-- A position of a text, and where it is when the text starts at `origin`. -/
structure Position.Relocates (origin p q : Position) : Prop where
  line : 1 ≤ p.line
  column : 1 ≤ p.column
  eq : q = p.relocated origin

theorem Position.Relocates.next {origin p q : Position} (h : Relocates origin p q) (c : Char) :
    Relocates origin (p.next c) (q.next c) := by
  obtain ⟨hline, hcolumn, rfl⟩ := h
  by_cases hc : c = '\n'
  · -- behind a line feed the column of the origin no longer counts
    have hfirst : (p.relocated origin).line + 1 = origin.line + (p.line + 1) - 1 := by
      unfold relocated
      split <;> dsimp only <;> omega
    refine ⟨?_, ?_, ?_⟩ <;> simp only [Position.next, if_pos hc]
    · omega
    · omega
    · have hlater : ¬p.line + 1 = 1 := by omega
      rw [hfirst, relocated, if_neg hlater]
  · refine ⟨?_, ?_, ?_⟩ <;> simp only [Position.next, if_neg hc]
    · exact hline
    · omega
    · by_cases hfirst : p.line = 1
      · simp only [relocated, if_pos hfirst, Position.mk.injEq, true_and]
        omega
      · simp only [relocated, if_neg hfirst]

namespace Token

/-- The token at the place that it has when its text starts at `origin`. -/
def relocated (origin : Position) (t : Token) : Token := { t with pos := t.pos.relocated origin }

theorem tokensFrom_relocated (origin : Position) (cs : List Char) :
    tokensFrom origin cs = (tokensFrom .start cs).map (relocated origin) := by
  refine tokensFrom_moved (R := Position.Relocates origin) (fun p q c h => h.next c)
    (fun p q h => h.eq) ⟨Nat.le_refl 1, Nat.le_refl 1, ?_⟩ cs
  have hstart : Position.start.line = 1 := rfl
  rw [Position.relocated, if_pos hstart]
  rfl

/-! ## Interpolations of a file -/

/-- The texts whose tokens are read for a file, each with its origin: the file itself, and the source
    of every interpolation in the templates of these texts. -/
inductive ReadFor (file : String) : String → Position → Prop where
  | file : ReadFor file file .start
  | hole {text source : String} {place origin opening : Position} {t : Token} :
      ReadFor file text place → t ∈ tokenizeAt text place → t.kind = .template →
      .hole source origin opening ∈ Template.split t.literal (t.pos.shifted 2) →
      ReadFor file source origin

/-- The source of an interpolation stands in the text of its template, at its origin. -/
theorem hole_stands {text source : String} {place origin opening : Position} {t : Token}
    (ht : t ∈ tokenizeAt text place) (hkind : t.kind = .template)
    (hhole : .hole source origin opening ∈ Template.split t.literal (t.pos.shifted 2)) :
    ∃ before behind, text.toList = before ++ (source.toList ++ behind)
      ∧ origin = place.after before := by
  obtain ⟨before, body, htext, hpos, hclosed, hliteral⟩ := template_of_mem ht hkind
  obtain ⟨front, behind, hbody, hopening, horigin, -⟩ :=
    (Template.divides_splitFrom (t.pos.shifted 2) t.literal.toList).of_hole hhole
  have hrest : body = t.literal.toList ++ '"' :: (templateBody body).rest := by
    have happend := templateBody_append body
    rw [templateBody_text body hclosed] at happend
    rw [hliteral, String.toList_ofList, ← List.singleton_append, ← List.append_assoc, happend]
  -- two characters of one byte open the body, and two more the interpolation
  refine ⟨before ++ ['t', '"'] ++ front ++ ['$', '{'], behind ++ '"' :: (templateBody body).rest,
    ?_, ?_⟩
  · rw [htext]
    conv_lhs => rw [hrest, hbody]
    simp
  · rw [horigin, hopening, hpos]
    simp only [Position.after_append]
    rfl

/-- What is read for a file stands in it, at its origin. -/
theorem ReadFor.stands {file text : String} {place : Position} (h : ReadFor file text place) :
    ∃ before behind, file.toList = before ++ (text.toList ++ behind)
      ∧ place = Position.start.after before := by
  induction h with
  | file => exact ⟨[], [], by simp, rfl⟩
  | hole _ ht hkind hhole ih =>
    obtain ⟨before, behind, hfile, hplace⟩ := ih
    obtain ⟨before', behind', htext, horigin⟩ := hole_stands ht hkind hhole
    refine ⟨before ++ before', behind' ++ behind, ?_, ?_⟩
    · rw [hfile, htext]
      simp
    · rw [horigin, hplace, Position.after_append]

/-- The tokens of a text at an origin are its tokens, moved there. So the tokens that are read from
    the interpolations of a file, at any depth, are what stands in the file at their positions: each
    is the token at the head of the rest of its interpolation, and its position is where the text of
    the file in front of it ends. -/
theorem tokenizeAt_relocated (text : String) (origin : Position) :
    tokenizeAt text origin = (tokenize text).map (relocated origin)
      ∧ ∀ source place, ReadFor text source place →
        ∃ before behind, text.toList = before ++ (source.toList ++ behind)
          ∧ place = endPosition (String.ofList before)
          ∧ ∀ t ∈ tokenizeAt source place, ∃ front rest, source.toList = front ++ rest
            ∧ t = ofHead (endPosition (String.ofList (before ++ front))) rest := by
  refine ⟨tokensFrom_relocated origin text.toList, fun source place hread => ?_⟩
  obtain ⟨before, behind, htext, rfl⟩ := hread.stands
  refine ⟨before, behind, htext, after_start_eq_endPosition before, fun t ht => ?_⟩
  obtain ⟨front, rest, hsource, rfl⟩ := mem_tokensFrom ht
  exact ⟨front, rest, hsource, by rw [← after_start_eq_endPosition, Position.after_append]⟩

/-- A name in a template within a template, on another line. -/
theorem tokenizeAt_relocated_nested :
    tokenizeAt "y" ⟨2, 8⟩ = [⟨.ident, "y", none, ⟨2, 8⟩⟩, endOfText ⟨2, 9⟩]
      ∧ ∃ before behind, "x = t\"a$\x7b\n t\"é$\x7by\x7d\"\x7d\"".toList = before ++ ('y' :: behind)
        ∧ ⟨2, 8⟩ = endPosition (String.ofList before) := by
  have houter : ReadFor "x = t\"a$\x7b\n t\"é$\x7by\x7d\"\x7d\"" "\n t\"é$\x7by\x7d\"" ⟨1, 10⟩ := by
    have ht : (⟨.template, "a$\x7b\n t\"é$\x7by\x7d\"\x7d",
        some "t\"a$\x7b\n t\"é$\x7by\x7d\"\x7d\"", ⟨1, 5⟩⟩ : Token)
        ∈ tokenizeAt "x = t\"a$\x7b\n t\"é$\x7by\x7d\"\x7d\"" .start := by
      decide +kernel
    have hhole : .hole "\n t\"é$\x7by\x7d\"" ⟨1, 10⟩ ⟨1, 8⟩
        ∈ Template.split "a$\x7b\n t\"é$\x7by\x7d\"\x7d" ⟨1, 7⟩ := by
      decide +kernel
    exact .hole .file ht rfl hhole
  have hinner : ReadFor "x = t\"a$\x7b\n t\"é$\x7by\x7d\"\x7d\"" "y" ⟨2, 8⟩ := by
    have ht : (⟨.template, "é$\x7by\x7d", some "t\"é$\x7by\x7d\"", ⟨2, 2⟩⟩ : Token)
        ∈ tokenizeAt "\n t\"é$\x7by\x7d\"" ⟨1, 10⟩ := by
      decide +kernel
    have hhole : .hole "y" ⟨2, 8⟩ ⟨2, 6⟩ ∈ Template.split "é$\x7by\x7d" ⟨2, 4⟩ := by decide +kernel
    exact .hole houter ht rfl hhole
  obtain ⟨before, behind, htext, hplace, -⟩ := (tokenizeAt_relocated _ .start).2 _ _ hinner
  refine ⟨?_, before, behind, htext, hplace⟩
  rw [(tokenizeAt_relocated "y" ⟨2, 8⟩).1]
  decide +kernel

end Token

end Welle
