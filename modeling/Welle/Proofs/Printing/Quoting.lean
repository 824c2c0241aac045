import Welle.Proofs.Embedding
import Welle.Proofs.Printing.Lexing
import Welle.Proofs.Segments

set_option autoImplicit false

/-! # Printed strings and templates are read back

Strings and templates are written with escapes, which three readers have to agree with: the lexer
decodes those of a string, it passes over those of a template, and the splitter decodes the latter.
A dollar sign is special to all of them only in front of a brace, and a part of a template is never
followed by one. So a part is written one character at a time, either as an escape that the splitter
takes for that character, or as itself where no reader stops at it (`Writes`). -/

namespace Welle

/-! ## Strings -/

/-- A printed string is one token. Its literal is the string, and it is written as it was printed. -/
theorem Token.tokenize_quote (s : String) :
    tokenize (Literal.quote s) = [⟨.str, s, some (Literal.quote s), .start⟩,
      endOfText (endPosition (Literal.quote s))] := by
  have htext : (Literal.quote s).toList = '"' :: (s.toList.flatMap Literal.escape ++ ['"']) := by
    simp [Literal.quote]
  have hrest : ([] : List Char).head? ≠ some '"' := by simp
  have hscan := scan_quote s.toList hrest
  have hgap : skipGap ('"' :: (s.toList.flatMap Literal.escape ++ ['"']))
      = ([], '"' :: (s.toList.flatMap Literal.escape ++ ['"'])) :=
    skipGap_of_token rfl (noComment_of_ne (by decide))
  rw [tokenize_of_scan htext hgap (by rw [hscan]; rfl), hscan]
  simp only [Lexeme.decoded]
  rw [← htext, String.ofList_toList, String.ofList_toList]

/-! ## Parts of templates -/

section Body

variable {c : Char} {cs : List Char}

/-- A backslash and the character behind it are part of the template they stand in. -/
theorem Token.templateBody_escape (hfeed : c ≠ '\n') :
    templateBody ('\\' :: c :: cs) = (templateBody cs).push ['\\', c] ['\\', c] := by
  rw [templateBody.eq_def]
  simp [hfeed]

/-- A character at which the lexer does not stop is part of the template it stands in. -/
theorem Token.templateBody_char (hfeed : c ≠ '\n') (hquote : c ≠ '"') (hslash : c ≠ '\\')
    (hopen : ¬(c = '$' ∧ cs.head? = some '{')) :
    templateBody (c :: cs) = (templateBody cs).push [c] [c] := by
  rw [templateBody.eq_def]
  simp only []
  rw [if_neg hfeed, if_neg hquote, if_neg hslash, if_neg (by simpa using hopen)]

end Body

namespace Literal

/-- How a character of a template part is written when `cs` is the part behind it: as an escape that
    stands for it, or as itself where no reader stops at it. -/
inductive Writes (c : Char) (cs : List Char) : List Char → Prop where
  | escape {e : Char} : e ≠ '\n' → Template.unescape e = [c] → Writes c cs ['\\', e]
  | plain : c ≠ '\n' → c ≠ '"' → c ≠ '\\' → ¬(c = '$' ∧ cs.head? = some '{') → Writes c cs [c]

variable {cs rest : List Char}

theorem exists_writes (c : Char) (cs : List Char) :
    ∃ written, escapePart (c :: cs) = written ++ escapePart cs ∧ Writes c cs written := by
  refine ⟨_, rfl, ?_⟩
  split
  next hopen =>
    obtain ⟨rfl, -⟩ : c = '$' ∧ cs.head? = some '{' := by simpa using hopen
    exact .escape (by decide) rfl
  next hopen =>
    unfold Literal.escape
    split
    next hc => exact .escape (by decide) (by rw [hc]; rfl)
    next hslash =>
    split
    next hc => exact .escape (by decide) (by rw [hc]; rfl)
    next hquote =>
    split
    next hc => exact .escape (by decide) (by rw [hc]; rfl)
    next hfeed =>
    split
    next hc => exact .escape (by decide) (by rw [hc]; rfl)
    next =>
    split
    next hc => exact .escape (by decide) (by rw [hc]; rfl)
    next => exact .plain hfeed hquote hslash (by simpa using hopen)

/-- A written part starts with a brace only if the part does. -/
theorem head?_of_escapePart (hrest : rest.head? ≠ some '{')
    (h : (escapePart cs ++ rest).head? = some '{') : cs.head? = some '{' := by
  cases cs with
  | nil => exact absurd h hrest
  | cons c cs =>
    obtain ⟨written, hwritten, hwrites⟩ := exists_writes c cs
    rw [hwritten] at h
    cases hwrites with
    | escape => simp at h
    | plain => simpa using h

/-- The splitter decodes a written part to the part. -/
theorem decodes_escapePart (hrest : rest.head? ≠ some '{') :
    Template.Decodes rest (escapePart cs) cs := by
  induction cs with
  | nil => exact .nil
  | cons c cs ih =>
    obtain ⟨written, hwritten, hwrites⟩ := exists_writes c cs
    rw [hwritten]
    cases hwrites with
    | @escape e _ hdecoded =>
      have hescape := Template.Decodes.escape (e := e) ih
      rwa [hdecoded] at hescape
    | plain _ _ hslash hopen =>
      exact .char hslash (fun h => hopen ⟨h.1, head?_of_escapePart hrest h.2⟩) ih

/-- The lexer goes on behind a written part. -/
theorem templateBody_escapePart (hrest : rest.head? ≠ some '{') :
    Token.templateBody (escapePart cs ++ rest)
      = (Token.templateBody rest).push (escapePart cs) (escapePart cs) := by
  induction cs with
  | nil => rfl
  | cons c cs ih =>
    obtain ⟨written, hwritten, hwrites⟩ := exists_writes c cs
    rw [hwritten, List.append_assoc]
    cases hwrites with
    | escape hfeed _ =>
      rw [List.cons_append, List.singleton_append, Token.templateBody_escape hfeed, ih]
      rfl
    | plain hfeed hquote hslash hopen =>
      have hplain : ¬(c = '$' ∧ (escapePart cs ++ rest).head? = some '{') :=
        fun h => hopen ⟨h.1, head?_of_escapePart hrest h.2⟩
      rw [List.singleton_append, Token.templateBody_char hfeed hquote hslash hplain, ih]
      rfl

end Literal

/-! ## Templates -/

namespace Template

/-- The splitter goes on behind a text with what the text stands for. -/
theorem Decodes.splitFrom {rest text value : List Char} (h : Decodes rest text value)
    (pos : Position) :
    splitFrom pos (text ++ rest) = (value ++ (splitFrom (pos.after text) rest).1,
      (splitFrom (pos.after text) rest).2) := by
  induction h generalizing pos with
  | nil => rfl
  | backslash hrest =>
    subst hrest
    simp [Template.splitFrom]
  | @escape e cs value _ ih =>
    rw [List.cons_append, List.cons_append, Template.splitFrom, if_pos rfl]
    simp only [ih, List.append_assoc, Position.after_cons]
  | @char c cs value hslash hopen _ ih =>
    rw [List.cons_append, splitFrom_char pos hslash (by simpa using hopen), ih]
    rfl

/-- What a segment holds, wherever it stands: a text, or the source of an interpolation. -/
def Segment.content : Segment → String ⊕ String
  | .text value => .inl value
  | .hole source _ _ => .inr source

/-- Texts and sources of interpolations that take turns. -/
def turns : List String → List String → List (String ⊕ String)
  | part :: parts, source :: sources => .inl part :: .inr source :: turns parts sources
  | parts, _ => parts.map .inl

/-- Whether a text has no character in it that a reader of interpolations could stop at. -/
def Bare (source : String) : Prop := ∀ c ∈ source.toList, IsOrdinary c ∧ c ≠ '/'

theorem Bare.passes {C : List Char → Prop} {source : String} (h : Bare source) :
    Passes C 1 (source.toList ++ ['}']) :=
  (flat_of_forall h).passes .last

variable {part source : String} {parts sources : List String}

theorem toList_templateBody_single :
    (Literal.templateBody [part] []).toList = Literal.escapePart part.toList := by
  simp [Literal.templateBody]

theorem toList_templateBody_cons :
    (Literal.templateBody (part :: parts) (source :: sources)).toList
      = Literal.escapePart part.toList
        ++ '$' :: '{' :: (source.toList ++ ['}'] ++ (Literal.templateBody parts sources).toList) := by
  simp [Literal.templateBody, toList_hole]

/-- The lexer finds the whole of a printed body in front of the quotation mark behind it, if it passes
    over the sources. -/
theorem templateBody_of_passes (hlength : parts.length = sources.length + 1)
    (hsources : ∀ source ∈ sources, Passes LexedComment 1 (source.toList ++ ['}']))
    (rest : List Char) :
    Token.templateBody ((Literal.templateBody parts sources).toList ++ '"' :: rest)
      = ⟨(Literal.templateBody parts sources).toList,
        (Literal.templateBody parts sources).toList ++ ['"'], rest, true⟩ := by
  induction sources generalizing parts with
  | nil =>
    obtain ⟨part, rfl⟩ := List.length_eq_one_iff.1 hlength
    rw [toList_templateBody_single, Literal.templateBody_escapePart (by simp), templateBody_close]
    simp [Token.Body.push]
  | cons source sources ih =>
    obtain ⟨part, parts, rfl⟩ := List.exists_cons_of_length_eq_add_one hlength
    rw [List.forall_mem_cons] at hsources
    have hskip := skipInterpolation_passes hsources.1 Nat.one_pos
      ((Literal.templateBody parts sources).toList ++ '"' :: rest)
    have hrest := ih (Nat.succ.inj hlength) hsources.2
    rw [toList_templateBody_cons, List.append_assoc,
      Literal.templateBody_escapePart (by simp), List.cons_append, List.cons_append,
      List.append_assoc, templateBody_hole hskip, hrest]
    simp [Token.Body.push]

/-- The splitter takes a printed body apart into its parts and sources, if it passes over these. -/
theorem splitFrom_of_passes (hlength : parts.length = sources.length + 1)
    (hsources : ∀ source ∈ sources, Passes SplitComment 1 (source.toList ++ ['}']))
    (pos : Position) :
    let segments := splitFrom pos (Literal.templateBody parts sources).toList
    .inl (String.ofList segments.1) :: segments.2.map Segment.content = turns parts sources := by
  induction sources generalizing parts pos with
  | nil =>
    obtain ⟨part, rfl⟩ := List.length_eq_one_iff.1 hlength
    have hdecodes : Decodes [] (Literal.escapePart part.toList) part.toList :=
      Literal.decodes_escapePart (by simp)
    have hpart := hdecodes.splitFrom pos
    rw [List.append_nil] at hpart
    rw [toList_templateBody_single, hpart]
    simp [Template.splitFrom, turns]
  | cons source sources ih =>
    obtain ⟨part, parts, rfl⟩ := List.exists_cons_of_length_eq_add_one hlength
    rw [List.forall_mem_cons] at hsources
    have htake := takeHole_passes hsources.1 Nat.one_pos
      (Literal.templateBody parts sources).toList
    rw [List.dropLast_concat] at htake
    have hrest := ih (Nat.succ.inj hlength) hsources.2
    rw [toList_templateBody_cons, (Literal.decodes_escapePart (by simp)).splitFrom,
      splitFrom_hole _ (by decide) (by simp)]
    simp only [List.drop_one, List.tail_cons, htake, Option.map_some, Option.getD_some,
      List.append_nil, String.ofList_toList, List.map_cons, Segment.content, turns]
    rw [hrest]

theorem templateBody_parts (hlength : parts.length = sources.length + 1)
    (hsources : ∀ source ∈ sources, Bare source) :
    Token.templateBody ((Literal.templateBody parts sources).toList ++ ['"'])
      = ⟨(Literal.templateBody parts sources).toList,
        (Literal.templateBody parts sources).toList ++ ['"'], [], true⟩ :=
  templateBody_of_passes hlength (fun source h => (hsources source h).passes) []

theorem splitFrom_parts (hlength : parts.length = sources.length + 1)
    (hsources : ∀ source ∈ sources, Bare source) (pos : Position) :
    let segments := splitFrom pos (Literal.templateBody parts sources).toList
    .inl (String.ofList segments.1) :: segments.2.map Segment.content = turns parts sources :=
  splitFrom_of_passes hlength (fun source h => (hsources source h).passes) pos

/-- What a printed body is taken apart into. -/
theorem split_of_passes (hlength : parts.length = sources.length + 1)
    (hsources : ∀ source ∈ sources, Passes SplitComment 1 (source.toList ++ ['}']))
    (origin : Position) :
    (split (Literal.templateBody parts sources) origin).map Segment.content = turns parts sources :=
  splitFrom_of_passes hlength hsources origin

/-- A printed template is one token, and the splitter gives back the parts and the sources that it
    was printed from. The sources have no brace, slash, quotation mark or backtick in them; the parts
    are arbitrary. -/
theorem reads_parts (hlength : parts.length = sources.length + 1)
    (hsources : ∀ source ∈ sources, Bare source) :
    let body := Literal.templateBody parts sources
    let text := "t\"" ++ body ++ "\""
    Token.tokenize text
        = [⟨.template, body, some text, .start⟩, Token.endOfText (endPosition text)]
      ∧ ∀ origin, (split body origin).map Segment.content = turns parts sources := by
  intro body text
  exact ⟨tokenize_template (templateBody_parts hlength hsources),
    fun origin => splitFrom_parts hlength hsources origin⟩

/-- Parts that end in a dollar sign and in a backslash in front of an interpolation, one with a text
    in it that looks like an interpolation, and a source over two lines. -/
theorem reads_parts_dollar :
    Token.tokenize "t\"é$$\x7bx\x7d\\\\$\x7by\n$\x7d\\$\x7bz\x7d\\\"\\n\""
        = [⟨.template, "é$$\x7bx\x7d\\\\$\x7by\n$\x7d\\$\x7bz\x7d\\\"\\n",
            some "t\"é$$\x7bx\x7d\\\\$\x7by\n$\x7d\\$\x7bz\x7d\\\"\\n\"", .start⟩,
          Token.endOfText ⟨2, 13⟩]
      ∧ (split "é$$\x7bx\x7d\\\\$\x7by\n$\x7d\\$\x7bz\x7d\\\"\\n" ⟨1, 3⟩).map Segment.content
        = [.inl "é$", .inr "x", .inl "\\", .inr "y\n$", .inl "$\x7bz\x7d\"\n"] := by
  have hsources : ∀ source ∈ ["x", "y\n$"], Bare source := by
    simp [Bare, IsOrdinary, Text.backtick]
  have hlength : ["é$", "\\", "$\x7bz\x7d\"\n"].length = ["x", "y\n$"].length + 1 := rfl
  have h := reads_parts hlength hsources
  have hbody : Literal.templateBody ["é$", "\\", "$\x7bz\x7d\"\n"] ["x", "y\n$"]
      = "é$$\x7bx\x7d\\\\$\x7by\n$\x7d\\$\x7bz\x7d\\\"\\n" := by
    decide +kernel
  simp only [hbody] at h
  refine ⟨h.1.trans ?_, h.2 ⟨1, 3⟩⟩
  decide +kernel

end Template

end Welle
