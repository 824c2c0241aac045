import Welle.Proofs.Editor
import Welle.Proofs.Places

set_option autoImplicit false

/-! # Tokens spell their text

The tokens of a text stand in it in order, and the one that ends it stands at its end. Where no
token is illegal, the lexemes of the tokens with trivia between them are the text again, and each
token stands where the text in front of its lexeme ends. -/

namespace Welle.Token

/-! ## Trivia -/

/-- What may stand in front of a lexeme when `rest` follows: blanks, block comments that are closed
    by their first `*/`, and a line comment that takes up the rest of its line. -/
inductive Trivia (rest : List Char) : List Char → Prop where
  | nil : Trivia rest []
  | blank {c : Char} {gap : List Char} :
      c = ' ' ∨ c = '\t' ∨ c = '\r' → Trivia rest gap → Trivia rest (c :: gap)
  | lineComment {body : List Char} :
      '\n' ∉ body → (∀ c, rest.head? = some c → c = '\n') → Trivia rest ('/' :: '/' :: body)
  | blockComment {body gap : List Char} :
      ¬['*', '/'] <:+: body ++ ['*'] → Trivia rest gap →
      Trivia rest ('/' :: '*' :: (body ++ '*' :: '/' :: gap))

/-- A comment ends with the first `*/` behind its beginning. -/
theorem closeComment_first {cs : List Char} {split : List Char × List Char}
    (h : Text.closeComment cs = some split) :
    ∃ body, split.1 = body ++ ['*', '/'] ∧ ¬['*', '/'] <:+: body ++ ['*'] := by
  induction cs generalizing split with
  | nil => simp [Text.closeComment] at h
  | cons c cs ih =>
    rw [Text.closeComment] at h
    split at h
    next hclose =>
      obtain ⟨rfl, hslash⟩ : c = '*' ∧ cs.head? = some '/' := by simpa using hclose
      obtain ⟨ds, rfl⟩ := List.head?_eq_some_iff.1 hslash
      obtain rfl := Option.some.inj h
      exact ⟨[], rfl, by decide⟩
    next hopen =>
      obtain ⟨inner, hinner, rfl⟩ := Option.map_eq_some_iff.1 h
      obtain ⟨body, hbody, hfirst⟩ := ih hinner
      refine ⟨c :: body, by simp [Text.onto, hbody], ?_⟩
      rw [List.cons_append, List.infix_cons_iff]
      rintro (hstart | hinfix)
      · -- a mark that starts with `c` would have closed the comment right there
        have happend := Text.closeComment_append hinner
        rw [hbody] at happend
        obtain ⟨rfl, hslash⟩ : '*' = c ∧ ['/'] <+: body ++ ['*'] := by
          simpa [List.cons_prefix_cons] using hstart
        obtain ⟨d, body', hbody'⟩ : ∃ d body', body = d :: body' := by
          cases body with
          | nil => simp at hslash
          | cons d body' => exact ⟨d, body', rfl⟩
        rw [hbody', List.cons_append, List.cons_prefix_cons] at hslash
        apply hopen
        simp [← happend, hbody', ← hslash.1]
      · exact hfirst hinfix

theorem newline_not_mem_closeLine (cs : List Char) : '\n' ∉ (Text.closeLine cs).1 := by
  intro hmem
  simpa using List.mem_takeWhile_imp hmem

theorem head?_closeLine {cs : List Char} {c : Char} (h : (Text.closeLine cs).2.head? = some c) :
    c = '\n' := by
  have hstop := List.head?_dropWhile_not (· ≠ '\n') cs
  rw [show (cs.dropWhile (· ≠ '\n')).head? = some c from h] at hstop
  simpa using hstop

/-- No gap starts at the end of a line. -/
theorem skipGap_of_lineEnd {cs : List Char} (h : ∀ c, cs.head? = some c → c = '\n') :
    skipGap cs = ([], cs) := by
  cases cs with
  | nil => rw [skipGap]
  | cons c cs =>
    obtain rfl := h c rfl
    rw [skipGap]
    simp [isGap]

/-- What is skipped in front of a lexeme is trivia. -/
theorem trivia_skipGap (cs : List Char) : Trivia (skipGap cs).2 (skipGap cs).1 := by
  fun_induction skipGap cs with
  | case1 => exact .nil
  | case2 c cs hgap ih =>
    have hblank : c = ' ' ∨ c = '\t' ∨ c = '\r' := by
      simpa [isGap, or_assoc] using hgap
    exact .blank hblank ih
  | case3 c cs _ hline ih =>
    obtain ⟨rfl, hslash⟩ : c = '/' ∧ cs.head? = some '/' := by simpa using hline
    obtain ⟨ds, rfl⟩ := List.head?_eq_some_iff.1 hslash
    have hstop : ∀ c, (Text.closeLine ('/' :: ds)).2.head? = some c → c = '\n' :=
      fun c => head?_closeLine
    have hbody : (Text.closeLine ('/' :: ds)).1 = '/' :: (Text.closeLine ds).1 := by
      simp [Text.closeLine]
    rw [skipGap_of_lineEnd hstop]
    simp only [Text.onto, hbody, List.append_nil]
    exact .lineComment (newline_not_mem_closeLine ds) hstop
  | case4 => exact .nil
  | case5 c cs _ _ hblock comment hcomment ih =>
    obtain ⟨rfl, hstar⟩ : c = '/' ∧ cs.head? = some '*' := by simpa using hblock
    obtain ⟨ds, rfl⟩ := List.head?_eq_some_iff.1 hstar
    obtain ⟨body, hbody, hfirst⟩ := closeComment_first hcomment
    have htrivia := Trivia.blockComment hfirst ih
    simpa [Text.onto, hbody] using htrivia
  | case6 => exact .nil

/-! ## Lexemes -/

/-- A lexeme that does not end the text and, if it is a token, is written as it stands. -/
structure Lexeme.Written (l : Lexeme) : Prop where
  inside : l.kind ≠ .eof
  spelled : l.kind ≠ .illegal → (l.raw.getD l.literal).toList = l.text

namespace Lexeme

theorem written_plain {kind : Kind} (h : kind ≠ .eof) (text rest : List Char) :
    (plain kind text rest).Written :=
  ⟨h, fun _ => String.toList_ofList⟩

theorem written_decoded {kind : Kind} (h : kind ≠ .eof) (content text rest : List Char) :
    (decoded kind content text rest).Written :=
  ⟨h, fun _ => String.toList_ofList⟩

theorem written_illegal (fault : Fault) (text rest : List Char) :
    (illegal fault text rest).Written :=
  ⟨by simp [illegal], fun h => absurd rfl h⟩

theorem written_body (b : Body) {kind : Kind} (h : kind ≠ .eof) (fault : Fault)
    (mark : List Char) : (b.lexeme kind fault mark).Written := by
  unfold Body.lexeme
  split
  · exact written_decoded h _ _ _
  · exact written_illegal _ _ _

end Lexeme

theorem written_scanDecimal (cs : List Char) : (scanDecimal cs).Written := by
  unfold scanDecimal
  dsimp only
  split <;> exact Lexeme.written_plain (by decide) _ _

theorem written_scanNumber (cs : List Char) : (scanNumber cs).Written := by
  unfold scanNumber
  split
  · split
    · exact Lexeme.written_plain (by decide) _ _
    · exact written_scanDecimal _
  · exact written_scanDecimal cs

theorem written_scanRaw (cs : List Char) : (scanRaw cs).Written := by
  unfold scanRaw
  dsimp only
  split
  · exact Lexeme.written_illegal _ _ _
  · exact Lexeme.written_decoded (by decide) _ _ _

theorem written_scanWord (cs : List Char) : (scanWord cs).Written := by
  refine Lexeme.written_plain (fun heof => ?_) _ _
  rcases Kind.ofWord_eq (String.ofList (cs.takeWhile isIdentContinue)) with h | h
  · rw [heof] at h
    cases h
  · rw [heof] at h
    cases h

theorem written_scanPunctuation (c : Char) (cs : List Char) : (scanPunctuation c cs).Written := by
  unfold scanPunctuation
  split
  next kind width h =>
    obtain ⟨-, -, -, heof, -⟩ := punctuation_kind h
    exact Lexeme.written_plain heof _ _
  next => exact Lexeme.written_illegal _ _ _

theorem written_scan (c : Char) (cs : List Char) : (scan c cs).Written := by
  unfold scan
  split
  · exact Lexeme.written_illegal _ _ _
  split
  · exact Lexeme.written_plain (by decide) _ _
  split
  · split
    · exact Lexeme.written_body _ (by decide) _ _
    · exact Lexeme.written_body _ (by decide) _ _
  split
  · exact written_scanRaw cs
  split
  · exact Lexeme.written_body _ (by decide) _ _
  split
  · exact written_scanNumber (c :: cs)
  split
  · exact written_scanWord (c :: cs)
  · exact written_scanPunctuation c cs

theorem scan_text_ne_nil (c : Char) (cs : List Char) : (scan c cs).text ≠ [] := by
  intro h
  have hhead := scan_head c cs
  rw [h] at hhead
  cases hhead

/-- What is read at the head of a text, if it is a token, is a beginning of the text. -/
theorem lexeme_ofHead {pos : Position} {cs : List Char} (h : (ofHead pos cs).kind ≠ .illegal) :
    (ofHead pos cs).lexeme.toList <+: cs := by
  cases cs with
  | nil => exact List.nil_prefix
  | cons c cs =>
    have htext : (ofHead pos (c :: cs)).lexeme.toList = (scan c cs).text :=
      (written_scan c cs).spelled h
    exact ⟨(scan c cs).rest, by rw [htext, scan_append]⟩

/-! ## Order -/

theorem le_pos_of_mem {pos : Position} {cs : List Char} {t : Token} (h : t ∈ tokensFrom pos cs) :
    pos ≤ t.pos := by
  obtain ⟨before, behind, -, rfl⟩ := mem_tokensFrom h
  rw [pos_ofHead]
  exact Position.le_after pos before

/-- Every token stands in front of the tokens behind it. -/
theorem pairwise_tokensFrom (pos : Position) (cs : List Char) :
    (tokensFrom pos cs).Pairwise fun t u => t.pos < u.pos := by
  fun_induction tokensFrom pos cs with
  | case1 pos cs gap hgap => exact List.pairwise_singleton _ _
  | case2 pos cs gap c rest hgap lexeme start ih =>
    refine List.pairwise_cons.2 ⟨?_, ih⟩
    intro u hu
    have hlt : start < start.after lexeme.text :=
      Position.lt_after start (scan_text_ne_nil c rest)
    exact Position.lt_of_lt_of_le hlt (le_pos_of_mem hu)

/-- Every token ends in front of the tokens behind it. -/
theorem pairwise_lexemes (pos : Position) (cs : List Char) :
    (tokensFrom pos cs).Pairwise fun t u =>
      t.kind ≠ .illegal → t.pos.after t.lexeme.toList ≤ u.pos := by
  fun_induction tokensFrom pos cs with
  | case1 pos cs gap hgap => exact List.pairwise_singleton _ _
  | case2 pos cs gap c rest hgap lexeme start ih =>
    refine List.pairwise_cons.2 ⟨?_, ih⟩
    intro u hu hlegal
    have htext : (lexeme.raw.getD lexeme.literal).toList = lexeme.text :=
      (written_scan c rest).spelled hlegal
    show start.after (lexeme.raw.getD lexeme.literal).toList ≤ u.pos
    rw [htext]
    exact le_pos_of_mem hu

/-- A list of tokens ends with the one token that ends the text, which stands at its end. -/
theorem tokensFrom_eq_concat (pos : Position) (cs : List Char) :
    ∃ front, tokensFrom pos cs = front ++ [endOfText (pos.after cs)]
      ∧ ∀ t ∈ front, t.kind ≠ .eof := by
  fun_induction tokensFrom pos cs with
  | case1 pos cs gap hgap =>
    have happend := skipGap_append cs
    rw [hgap, List.append_nil] at happend
    exact ⟨[], by simp [← happend], by simp⟩
  | case2 pos cs gap c rest hgap lexeme start ih =>
    have happend := skipGap_append cs
    rw [hgap] at happend
    obtain ⟨front, hfront, hinside⟩ := ih
    refine ⟨⟨lexeme.kind, lexeme.literal, lexeme.raw, start⟩ :: front, ?_, ?_⟩
    · have hend : pos.after cs = (start.after lexeme.text).after lexeme.rest := by
        rw [← happend, Position.after_append, ← scan_append c rest, Position.after_append]
      rw [hfront, hend]
      rfl
    · intro t ht
      rcases List.mem_cons.1 ht with rfl | ht
      · exact (written_scan c rest).inside
      · exact hinside t ht

/-! ## Spelling -/

/-- The tokens, read behind the text `before`, spell `cs`: in front of each lexeme stands trivia,
    and a token stands where the text in front of its lexeme ends. -/
def Spells (before : List Char) : List Char → List Token → Prop
  | cs, [] => cs = []
  | cs, t :: ts => ∃ gap rest, cs = gap ++ (t.lexeme.toList ++ rest)
    ∧ Trivia (t.lexeme.toList ++ rest) gap
    ∧ t.pos = endPosition (String.ofList (before ++ gap))
    ∧ Spells (before ++ gap ++ t.lexeme.toList) rest ts

end Welle.Token

namespace Welle

theorem after_start_eq_endPosition (cs : List Char) :
    Position.start.after cs = endPosition (String.ofList cs) := by
  rw [after_start]
  simp [endPosition]

end Welle

namespace Welle.Token

/-- Without an illegal token, the tokens read behind `before` spell what stands behind it. -/
theorem spells_tokensFrom (before cs : List Char)
    (h : ∀ t ∈ tokensFrom (Position.start.after before) cs, t.kind ≠ .illegal) :
    Spells before cs (tokensFrom (Position.start.after before) cs) := by
  generalize hpos : Position.start.after before = pos at h ⊢
  fun_induction tokensFrom pos cs generalizing before with
  | case1 pos cs gap hgap =>
    have happend := skipGap_append cs
    have htrivia := trivia_skipGap cs
    rw [hgap] at happend htrivia
    refine ⟨gap, [], happend.symm, htrivia, ?_, rfl⟩
    rw [← after_start_eq_endPosition, Position.after_append, hpos]
    rfl
  | case2 pos cs gap c rest hgap lexeme start ih =>
    have happend := skipGap_append cs
    have htrivia := trivia_skipGap cs
    rw [hgap] at happend htrivia
    rw [List.forall_mem_cons] at h
    have htext : (lexeme.raw.getD lexeme.literal).toList = lexeme.text :=
      (written_scan c rest).spelled h.1
    have hscan : lexeme.text ++ lexeme.rest = c :: rest := scan_append c rest
    have hstart : Position.start.after (before ++ gap) = start := by
      rw [Position.after_append, hpos]
    refine ⟨gap, lexeme.rest, ?_, ?_, ?_, ?_⟩
    · show cs = gap ++ ((lexeme.raw.getD lexeme.literal).toList ++ lexeme.rest)
      rw [htext, hscan, happend]
    · show Trivia ((lexeme.raw.getD lexeme.literal).toList ++ lexeme.rest) gap
      rw [htext, hscan]
      exact htrivia
    · rw [← after_start_eq_endPosition, hstart]
    · show Spells (before ++ gap ++ (lexeme.raw.getD lexeme.literal).toList) lexeme.rest _
      rw [htext]
      apply ih _ _ h.2
      rw [Position.after_append, hstart]

/-- The tokens of a text stand in order, the last one is the only one that ends it and stands at its
    end, and where no token is illegal the lexemes with trivia between them are the text. -/
theorem tokenize_spells (text : String) :
    (tokenize text).Pairwise (fun t u => t.pos < u.pos)
      ∧ (∃ front, tokenize text = front ++ [endOfText (endPosition text)]
        ∧ ∀ t ∈ front, t.kind ≠ .eof)
      ∧ ((∀ t ∈ tokenize text, t.kind ≠ .illegal) → Spells [] text.toList (tokenize text)) := by
  refine ⟨pairwise_tokensFrom _ _, ?_, spells_tokensFrom [] text.toList⟩
  obtain ⟨front, hfront, hinside⟩ := tokensFrom_eq_concat .start text.toList
  rw [after_start_eq_endPosition, String.ofList_toList] at hfront
  exact ⟨front, hfront, hinside⟩

/-- A text with both kinds of comment, a template, a raw string and characters of several bytes. -/
theorem tokenize_spells_comments :
    (∀ t ∈ tokenize "x /* * ü */ = t\"a$\x7by\x7d\" // é\n\tf(`\x7d`)\r\n", t.kind ≠ .illegal)
      ∧ Spells [] "x /* * ü */ = t\"a$\x7by\x7d\" // é\n\tf(`\x7d`)\r\n".toList
        (tokenize "x /* * ü */ = t\"a$\x7by\x7d\" // é\n\tf(`\x7d`)\r\n") :=
  have hlegal : ∀ t ∈ tokenize "x /* * ü */ = t\"a$\x7by\x7d\" // é\n\tf(`\x7d`)\r\n", t.kind ≠ .illegal := by
    decide +kernel
  ⟨hlegal, (tokenize_spells _).2.2 hlegal⟩

end Welle.Token
