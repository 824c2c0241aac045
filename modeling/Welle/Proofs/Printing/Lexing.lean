import Welle.Operator
import Welle.Proofs.Append.Tokens
import Welle.Proofs.Printing.Numerals
import Welle.Proofs.Words
import Welle.Tree.Printer

set_option autoImplicit false

/-! # The tokens of printed text

`Token.lex` gives the tokens of a text up to their positions. The lemmas of this module say what it
gives for each piece that expressions are printed with: words, numbers, strings, operators and
brackets. A piece and the text behind it must not be read together, which `Apart` says of that
text. -/

namespace Welle

namespace Token

/-! ## Tokens up to positions -/

/-- The kind and the literal of a token. -/
abbrev Shape : Type := Kind × String

/-- What a token is, apart from where it stands. -/
def shape (t : Token) : Shape := (t.kind, t.literal)

/-- The shape of a token that is written in one way only. -/
def mark (kind : Kind) : Shape := (kind, kind.describe)

/-- The shapes of the tokens of a text. -/
def lex (cs : List Char) : List Shape := (tokensFrom .start cs).map shape

theorem map_shape_tokensFrom (pos : Position) (cs : List Char) :
    (tokensFrom pos cs).map shape = lex cs := by
  have hrelated := tokensFrom_related (R := fun _ _ => True) (fun _ _ _ h => h) (p := pos)
    (q := .start) trivial cs
  rw [lex]
  generalize tokensFrom pos cs = ts, tokensFrom .start cs = us at hrelated ⊢
  induction hrelated with
  | nil => rfl
  | cons hhead _ ih =>
    rw [List.map_cons, List.map_cons, ih, hhead.1]
    rfl

variable {c : Char} {cs rest : List Char}

/-- A token at the head of a text. -/
theorem lex_of_scan (h : skipGap (c :: cs) = ([], c :: cs)) :
    lex (c :: cs) = ((scan c cs).kind, (scan c cs).literal) :: lex (scan c cs).rest := by
  rw [lex, tokensFrom_of_skipGap h, List.map_cons, map_shape_tokensFrom]
  rfl

/-- No comment starts with a character and the text behind it. -/
def NoComment (c : Char) (cs : List Char) : Prop :=
  c = '/' → cs.head? ≠ some '/' ∧ cs.head? ≠ some '*'

theorem skipGap_of_token (hgap : isGap c = false) (h : NoComment c cs) :
    skipGap (c :: cs) = ([], c :: cs) := by
  rw [skipGap.eq_def]
  by_cases hslash : c = '/'
  · simp [hgap, h hslash]
  · simp [hgap, hslash]

/-- Blanks do not count. -/
theorem lex_space (cs : List Char) : lex (' ' :: cs) = lex cs := by
  have hskip : skipGap (' ' :: cs) = Text.onto [' '] (skipGap cs) := by
    rw [skipGap.eq_def]
    rfl
  rcases h : skipGap cs with ⟨gap, _ | ⟨c, rest⟩⟩
  · rw [h] at hskip
    rw [lex, tokensFrom_of_end hskip, lex, tokensFrom_of_end h]
    rfl
  · rw [h] at hskip
    rw [← map_shape_tokensFrom .start cs, tokensFrom_of_skipGap h, lex,
      tokensFrom_of_skipGap hskip, List.map_cons, List.map_cons, map_shape_tokensFrom,
      map_shape_tokensFrom]
    rfl

/-! ## Operators and brackets -/

/-- The characters that only operators and brackets start with. -/
def isSign (c : Char) : Bool :=
  !isGap c && !isIdentContinue c && c ≠ '\n' && c ≠ '"' && c ≠ Text.backtick

theorem scan_of_isSign (hc : isSign c = true) (h : NoComment c cs) :
    scan c cs = scanPunctuation c cs := by
  simp only [isSign, Bool.and_eq_true, Bool.not_eq_true', decide_eq_true_eq] at hc
  obtain ⟨⟨⟨⟨-, hword⟩, hline⟩, hquote⟩, hraw⟩ := hc
  simp only [isIdentContinue, Bool.or_eq_false_iff] at hword
  have ht : c ≠ 't' := by
    rintro rfl
    cases hword.1
  have hopen : (c = '/' && cs.head? = some '*') = false := by
    by_cases hslash : c = '/'
    · simp [(h hslash).2]
    · simp [hslash]
  simp [scan, hopen, hline, hquote, hraw, ht, hword]

/-- An operator or a bracket is one token where nothing longer stands. -/
theorem lex_mark (kind : Kind) {text : List Char} (htext : kind.describe.toList = c :: text)
    (hc : isSign c = true) (hcomment : NoComment c (text ++ rest))
    (h : punctuation? (c :: (text ++ rest)) = some (kind, text.length + 1)) :
    lex (c :: (text ++ rest)) = mark kind :: lex rest := by
  have hgap : isGap c = false := by
    simp only [isSign, Bool.and_eq_true, Bool.not_eq_true'] at hc
    exact hc.1.1.1.1
  have hliteral : kind.describe = String.ofList (c :: text) := by
    rw [← htext, String.ofList_toList]
  rw [lex_of_scan (skipGap_of_token hgap hcomment), scan_of_isSign hc hcomment, scanPunctuation, h]
  simp [Lexeme.plain, mark, hliteral]

theorem lex_describe {kind : Kind} {text : List Char} (htext : kind.describe.toList = c :: text)
    (hc : isSign c = true) (hcomment : NoComment c (text ++ rest))
    (h : punctuation? (c :: (text ++ rest)) = some (kind, text.length + 1)) :
    lex (kind.describe.toList ++ rest) = mark kind :: lex rest := by
  rw [htext]
  exact lex_mark kind htext hc hcomment h

theorem noComment_of_ne (h : c ≠ '/') : NoComment c cs := fun hc => absurd hc h

theorem lex_lparen (cs : List Char) : lex ('(' :: cs) = mark .lparen :: lex cs :=
  lex_mark .lparen rfl rfl (noComment_of_ne (by decide)) rfl

theorem lex_rparen (cs : List Char) : lex (')' :: cs) = mark .rparen :: lex cs :=
  lex_mark .rparen rfl rfl (noComment_of_ne (by decide)) rfl

theorem lex_lbracket (cs : List Char) : lex ('[' :: cs) = mark .lbracket :: lex cs :=
  lex_mark .lbracket rfl rfl (noComment_of_ne (by decide)) rfl

theorem lex_rbracket (cs : List Char) : lex (']' :: cs) = mark .rbracket :: lex cs :=
  lex_mark .rbracket rfl rfl (noComment_of_ne (by decide)) rfl

theorem lex_lbrace (cs : List Char) : lex ('{' :: cs) = mark .lbrace :: lex cs :=
  lex_mark .lbrace rfl rfl (noComment_of_ne (by decide)) rfl

theorem lex_rbrace (cs : List Char) : lex ('}' :: cs) = mark .rbrace :: lex cs :=
  lex_mark .rbrace rfl rfl (noComment_of_ne (by decide)) rfl

theorem lex_comma (cs : List Char) : lex (',' :: cs) = mark .comma :: lex cs :=
  lex_mark .comma rfl rfl (noComment_of_ne (by decide)) rfl

theorem lex_semicolon (cs : List Char) : lex (';' :: cs) = mark .semicolon :: lex cs :=
  lex_mark .semicolon rfl rfl (noComment_of_ne (by decide)) rfl

theorem lex_hash (cs : List Char) : lex ('#' :: cs) = mark .hash :: lex cs :=
  lex_mark .hash rfl rfl (noComment_of_ne (by decide)) rfl

theorem lex_ellipsis (cs : List Char) :
    lex ('.' :: '.' :: '.' :: cs) = mark .ellipsis :: lex cs :=
  lex_mark .ellipsis rfl rfl (noComment_of_ne (by decide)) rfl

/-- A point that no other one follows. -/
theorem lex_dot (h : cs.head? ≠ some '.') : lex ('.' :: cs) = mark .dot :: lex cs := by
  have hpunctuation : punctuation? ('.' :: cs) = some (.dot, 1) := by
    cases cs with
    | nil => rfl
    | cons d cs =>
      have hd : d ≠ '.' := fun heq => h (by rw [heq]; rfl)
      simp [punctuation?, hd]
  exact lex_mark .dot rfl rfl (noComment_of_ne (by decide)) hpunctuation

/-- An operator of one character that is not the first of a longer one with an equals sign. -/
theorem punctuation?_short {kind : Kind} (hkind : punctuation? [c] = some (kind, 1))
    (hc : c = ':' ∨ c = '-' ∨ c = '!' ∨ c = '*') (h : cs.head? ≠ some '=') :
    punctuation? (c :: cs) = some (kind, 1) := by
  rw [← hkind]
  cases cs with
  | nil => rfl
  | cons d cs =>
    have hd : d ≠ '=' := fun heq => h (by rw [heq]; rfl)
    rcases hc with rfl | rfl | rfl | rfl <;> simp [punctuation?, hd]

/-- A colon that no equals sign follows. -/
theorem lex_colon (h : cs.head? ≠ some '=') : lex (':' :: cs) = mark .colon :: lex cs :=
  lex_mark .colon rfl rfl (noComment_of_ne (by decide))
    (punctuation?_short rfl (.inl rfl) h)

/-- A star that no equals sign follows. -/
theorem lex_star (h : cs.head? ≠ some '=') : lex ('*' :: cs) = mark .star :: lex cs :=
  lex_mark .star rfl rfl (noComment_of_ne (by decide))
    (punctuation?_short rfl (.inr (.inr (.inr rfl))) h)

theorem lex_question (cs : List Char) : lex ('?' :: ' ' :: cs) = mark .question :: lex cs := by
  rw [← lex_space cs]
  exact lex_mark .question rfl rfl (noComment_of_ne (by decide)) rfl

/-! ## Words -/

/-- A text that a word or a number does not go on with, nor a string. A word in front of a quotation
    mark could also start a template. -/
structure Apart (rest : List Char) : Prop where
  number : Numeral.EndsNumber rest
  quote : rest.head? ≠ some '"'

/-- The characters that end a word and a number, whatever stands behind them. -/
def isEnding (c : Char) : Bool := !isIdentContinue c && c ≠ '"' && c ≠ '.'

theorem apart_cons (hc : isEnding c = true) (cs : List Char) : Apart (c :: cs) := by
  simp only [isEnding, Bool.and_eq_true, Bool.not_eq_true', decide_eq_true_eq] at hc
  obtain ⟨⟨hword, hquote⟩, hpoint⟩ := hc
  refine ⟨⟨?_, ?_⟩, by simpa using hquote⟩
  · intro d hd
    rwa [← Option.some.inj hd]
  · intro d ds heq
    exact absurd (List.cons.inj heq).1 hpoint

theorem not_isDigit_of_isIdentStart (h : isIdentStart c = true) : c.isDigit = false := by
  by_contra hdigit
  simp only [Char.isDigit, Bool.not_eq_false, Bool.and_eq_true, decide_eq_true_eq,
    UInt32.le_iff_toNat_le] at hdigit
  simp only [isIdentStart, Char.isAlpha, Char.isUpper, Char.isLower, Bool.or_eq_true,
    Bool.and_eq_true, decide_eq_true_eq, UInt32.le_iff_toNat_le] at h
  have hlast : '9'.val.toNat < 'A'.val.toNat ∧ 'A'.val.toNat < 'a'.val.toNat
      ∧ '9'.val.toNat < 127 := by decide
  rcases h with (rfl | h | h) | h
  · exact absurd hdigit.2 (by decide)
  · omega
  · omega
  · have hlt : 127 < c.val.toNat := h.1
    omega

/-- A word is one token. -/
theorem lex_word {word : String} (hword : IsWordText word.toList) (hrest : Apart rest) :
    lex (word.toList ++ rest) = (Kind.ofWord word, word) :: lex rest := by
  have hspan := Text.span_append hword.continues hrest.number.word
  obtain ⟨c, hhead, hstart⟩ := hword.starts
  obtain ⟨cs, hcs⟩ : ∃ cs, word.toList = c :: cs := List.head?_eq_some_iff.1 hhead
  have hne (d : Char) (hd : isIdentStart d = false) : c ≠ d := by
    rintro rfl
    rw [hstart] at hd
    cases hd
  have hquote : (cs ++ rest).head? ≠ some '"' := by
    cases cs with
    | nil => exact hrest.quote
    | cons d cs =>
      intro hd
      have hcontinue := hword.continues d (by simp [hcs])
      rw [Option.some.inj hd] at hcontinue
      cases hcontinue
  have hscan (tail : List Char) (htail : tail.head? ≠ some '"') :
      scan c tail = scanWord (c :: tail) := by
    simp [scan, hne '/' rfl, hne '\n' rfl, hne '"' rfl, hne Text.backtick rfl, htail,
      not_isDigit_of_isIdentStart hstart, hstart]
  have hgap : isGap c = false := by
    simp [isGap, hne ' ' rfl, hne '\t' rfl, hne '\r' rfl]
  rw [hcs, List.cons_append] at hspan ⊢
  rw [lex_of_scan (skipGap_of_token hgap (noComment_of_ne (hne '/' rfl))), hscan _ hquote,
    scanWord, hspan.1, hspan.2, ← hcs]
  simp only [Lexeme.plain, String.ofList_toList]

theorem isWordText_of_isKeyword {kind : Kind} (h : kind.isKeyword = true) :
    IsWordText kind.describe.toList ∧ Kind.ofWord kind.describe = kind := by
  cases kind <;> first
    | exact ⟨⟨⟨_, rfl, rfl⟩, List.all_eq_true.1 rfl⟩, by decide⟩
    | cases h

/-- A reserved word is one token. -/
theorem lex_keyword {kind : Kind} (h : kind.isKeyword = true) (hrest : Apart rest) :
    lex (kind.describe.toList ++ rest) = mark kind :: lex rest := by
  obtain ⟨hword, hkind⟩ := isWordText_of_isKeyword h
  rw [lex_word hword hrest, hkind]
  rfl

theorem lex_keyword_space {kind : Kind} (h : kind.isKeyword = true) (cs : List Char) :
    lex (kind.describe.toList ++ ' ' :: cs) = mark kind :: lex cs := by
  rw [lex_keyword h (apart_cons rfl cs), lex_space]

theorem lex_if (cs : List Char) : lex ('i' :: 'f' :: ' ' :: cs) = mark .kwIf :: lex cs :=
  @lex_keyword_space .kwIf rfl cs

theorem lex_else (cs : List Char) :
    lex ('e' :: 'l' :: 's' :: 'e' :: ' ' :: cs) = mark .kwElse :: lex cs :=
  @lex_keyword_space .kwElse rfl cs

theorem lex_for (cs : List Char) : lex ('f' :: 'o' :: 'r' :: ' ' :: cs) = mark .kwFor :: lex cs :=
  @lex_keyword_space .kwFor rfl cs

theorem lex_in (cs : List Char) : lex ('i' :: 'n' :: ' ' :: cs) = mark .kwIn :: lex cs :=
  @lex_keyword_space .kwIn rfl cs

theorem lex_match (cs : List Char) :
    lex ('m' :: 'a' :: 't' :: 'c' :: 'h' :: ' ' :: cs) = mark .kwMatch :: lex cs :=
  @lex_keyword_space .kwMatch rfl cs

theorem lex_case (cs : List Char) :
    lex ('c' :: 'a' :: 's' :: 'e' :: ' ' :: cs) = mark .kwCase :: lex cs :=
  @lex_keyword_space .kwCase rfl cs

theorem lex_default (cs : List Char) :
    lex ('d' :: 'e' :: 'f' :: 'a' :: 'u' :: 'l' :: 't' :: ' ' :: cs) = mark .kwDefault :: lex cs :=
  @lex_keyword_space .kwDefault rfl cs

theorem lex_while (cs : List Char) :
    lex ('w' :: 'h' :: 'i' :: 'l' :: 'e' :: ' ' :: cs) = mark .kwWhile :: lex cs :=
  @lex_keyword_space .kwWhile rfl cs

theorem lex_switch (cs : List Char) :
    lex ('s' :: 'w' :: 'i' :: 't' :: 'c' :: 'h' :: ' ' :: cs) = mark .kwSwitch :: lex cs :=
  @lex_keyword_space .kwSwitch rfl cs

theorem lex_try (cs : List Char) : lex ('t' :: 'r' :: 'y' :: ' ' :: cs) = mark .kwTry :: lex cs :=
  @lex_keyword_space .kwTry rfl cs

theorem lex_catch (cs : List Char) :
    lex ('c' :: 'a' :: 't' :: 'c' :: 'h' :: ' ' :: cs) = mark .kwCatch :: lex cs :=
  @lex_keyword_space .kwCatch rfl cs

theorem lex_finally (cs : List Char) :
    lex ('f' :: 'i' :: 'n' :: 'a' :: 'l' :: 'l' :: 'y' :: ' ' :: cs) = mark .kwFinally :: lex cs :=
  @lex_keyword_space .kwFinally rfl cs

theorem lex_func (cs : List Char) :
    lex ('f' :: 'u' :: 'n' :: 'c' :: ' ' :: cs) = mark .kwFunc :: lex cs :=
  @lex_keyword_space .kwFunc rfl cs

theorem lex_import (cs : List Char) :
    lex ('i' :: 'm' :: 'p' :: 'o' :: 'r' :: 't' :: ' ' :: cs) = mark .kwImport :: lex cs :=
  @lex_keyword_space .kwImport rfl cs

theorem lex_from (cs : List Char) :
    lex ('f' :: 'r' :: 'o' :: 'm' :: ' ' :: cs) = mark .kwFrom :: lex cs :=
  @lex_keyword_space .kwFrom rfl cs

theorem lex_as (cs : List Char) : lex ('a' :: 's' :: ' ' :: cs) = mark .kwAs :: lex cs :=
  @lex_keyword_space .kwAs rfl cs

theorem lex_export (cs : List Char) :
    lex ('e' :: 'x' :: 'p' :: 'o' :: 'r' :: 't' :: ' ' :: cs) = mark .kwExport :: lex cs :=
  @lex_keyword_space .kwExport rfl cs

theorem lex_return (cs : List Char) :
    lex ('r' :: 'e' :: 't' :: 'u' :: 'r' :: 'n' :: ' ' :: cs) = mark .kwReturn :: lex cs :=
  @lex_keyword_space .kwReturn rfl cs

theorem lex_throw (cs : List Char) :
    lex ('t' :: 'h' :: 'r' :: 'o' :: 'w' :: ' ' :: cs) = mark .kwThrow :: lex cs :=
  @lex_keyword_space .kwThrow rfl cs

theorem lex_defer (cs : List Char) :
    lex ('d' :: 'e' :: 'f' :: 'e' :: 'r' :: ' ' :: cs) = mark .kwDefer :: lex cs :=
  @lex_keyword_space .kwDefer rfl cs

/-! ## Literals -/

theorem skipGap_of_isDigit (h : c.isDigit = true) (cs : List Char) :
    skipGap (c :: cs) = ([], c :: cs) := by
  have hne {d : Char} : d.isDigit = false → c ≠ d := Numeral.ne_of_isDigit h
  exact skipGap_of_token (by simp [isGap, hne]) (noComment_of_ne (hne rfl))

theorem scan_of_isDigit (h : c.isDigit = true) (cs : List Char) : scan c cs = scanNumber (c :: cs) := by
  have hne {d : Char} : d.isDigit = false → c ≠ d := Numeral.ne_of_isDigit h
  simp [scan, hne, h, Text.backtick]

/-- A number is one token, whatever stands behind it. -/
theorem tokensFrom_number {base : Nat} {isFloat : Bool} {literal : String} (pos : Position)
    (h : Numeral.IsLiteral base isFloat literal.toList) (hrest : Numeral.EndsNumber rest) :
    tokensFrom pos (literal.toList ++ rest) = ⟨if isFloat then .float else .int, literal, none, pos⟩
      :: tokensFrom (pos.after literal.toList) rest := by
  have hscan := Numeral.scanNumber_append_rest h hrest
  obtain ⟨c, cs, hliteral, hdigit⟩ := h.exists_cons
  rw [hliteral, List.cons_append] at hscan ⊢
  rw [tokensFrom_of_skipGap (skipGap_of_isDigit hdigit _), scan_of_isDigit hdigit, hscan,
    ← hliteral]
  simp only [Lexeme.plain, String.ofList_toList, Position.after_nil]

theorem lex_number {isFloat : Bool} {literal : String} (h : Numeral.IsDecimal isFloat literal.toList)
    (hrest : Apart rest) :
    lex (literal.toList ++ rest) = (if isFloat then .float else .int, literal) :: lex rest := by
  rw [lex, tokensFrom_number .start h.isLiteral.1 hrest.number, List.map_cons, map_shape_tokensFrom]
  rfl

/-- An escaped character does not start with a quotation mark. -/
theorem escape_cons (c : Char) : ∃ d ds, Literal.escape c = d :: ds ∧ d ≠ '"' := by
  unfold Literal.escape
  split
  · exact ⟨_, _, rfl, by decide⟩
  split
  · exact ⟨_, _, rfl, by decide⟩
  next hquote =>
    repeat' split
    all_goals first
      | exact ⟨_, _, rfl, by decide⟩
      | exact ⟨_, _, rfl, hquote⟩

/-- An escaped text is read as the text. -/
theorem stringBody_escape (content rest : List Char) :
    stringBody (content.flatMap Literal.escape ++ '"' :: rest)
      = ⟨content, content.flatMap Literal.escape ++ ['"'], rest, true⟩ := by
  induction content with
  | nil =>
    rw [List.flatMap_nil, List.nil_append, stringBody.eq_def]
    rfl
  | cons c content ih =>
    rw [List.flatMap_cons, List.append_assoc]
    generalize hbehind : content.flatMap Literal.escape ++ '"' :: rest = behind at ih ⊢
    by_cases hslash : c = '\\'
    · subst hslash
      simp [Literal.escape, stringBody, unescape?, ih, Body.push]
    by_cases hquote : c = '"'
    · subst hquote
      simp [Literal.escape, stringBody, unescape?, ih, Body.push]
    by_cases hline : c = '\n'
    · subst hline
      simp [Literal.escape, stringBody, unescape?, ih, Body.push]
    by_cases htab : c = '\t'
    · subst htab
      simp [Literal.escape, stringBody, unescape?, ih, Body.push]
    by_cases hreturn : c = '\r'
    · subst hreturn
      simp [Literal.escape, stringBody, unescape?, ih, Body.push]
    have hchar : stringBody (c :: behind) = (stringBody behind).push [c] [c] := by
      rw [stringBody.eq_def]
      simp [hslash, hquote, hline]
    simp [Literal.escape, hchar, hslash, hquote, hline, htab, hreturn, ih, Body.push]

/-- An escaped text between quotation marks is one lexeme. A mark behind it could make the two of an
    empty text open a string between triple quotes. -/
theorem scan_quote (content : List Char) (hrest : rest.head? ≠ some '"') :
    scan '"' (content.flatMap Literal.escape ++ '"' :: rest)
      = .decoded .str content ('"' :: (content.flatMap Literal.escape ++ ['"'])) rest := by
  have hbody := stringBody_escape content rest
  have htriple : (content.flatMap Literal.escape ++ '"' :: rest).take 2 ≠ ['"', '"'] := by
    cases content with
    | nil =>
      cases rest with
      | nil => simp
      | cons c rest => simpa using hrest
    | cons c content =>
      obtain ⟨d, ds, hescape, hd⟩ := escape_cons c
      simp [hescape, hd]
  generalize content.flatMap Literal.escape ++ '"' :: rest = cs at *
  have hscan : scan '"' cs = scanString cs := by
    simp [scan, htriple]
  rw [hscan, scanString, hbody]
  rfl

/-- A printed string is one token. -/
theorem lex_quote (value : String) (hrest : Apart rest) :
    lex ((Literal.quote value).toList ++ rest) = (.str, value) :: lex rest := by
  have htext : (Literal.quote value).toList ++ rest
      = '"' :: (value.toList.flatMap Literal.escape ++ '"' :: rest) := by
    simp [Literal.quote]
  rw [htext, lex_of_scan (skipGap_of_token rfl (noComment_of_ne (by decide))),
    scan_quote value.toList hrest.quote]
  simp [Lexeme.decoded]

/-- A template is one token, if the lexer finds its closing quotation mark. -/
theorem lex_template {body : List Char}
    (h : templateBody (body ++ '"' :: rest) = ⟨body, body ++ ['"'], rest, true⟩) :
    lex ('t' :: '"' :: (body ++ '"' :: rest)) = (.template, String.ofList body) :: lex rest := by
  have hscan : scan 't' ('"' :: (body ++ '"' :: rest))
      = .decoded .template body ('t' :: '"' :: (body ++ ['"'])) rest := by
    change scanTemplate (body ++ '"' :: rest) = _
    rw [scanTemplate, h]
    rfl
  rw [lex_of_scan (skipGap_of_token rfl (noComment_of_ne (by decide))), hscan]
  rfl

/-! ## Operators -/

end Token

/-- The token that a prefix operator is written with. -/
def PrefixOp.kind : PrefixOp → Token.Kind
  | neg => .minus
  | bang => .bang
  | not => .kwNot
  | bitNot => .bitNot

/-- The token that an infix operator is written with. -/
def InfixOp.kind : InfixOp → Token.Kind
  | add => .plus
  | sub => .minus
  | mul => .star
  | div => .slash
  | mod => .percent
  | eq => .eq
  | ne => .ne
  | lt => .lt
  | le => .le
  | gt => .gt
  | ge => .ge
  | and => .kwAnd
  | or => .kwOr
  | bitOr => .bitOr
  | bitXor => .bitXor
  | bitAnd => .bitAnd
  | shl => .shl
  | shr => .shr
  | nullish => .nullish

/-- The token that an assignment is written with. -/
def AssignOp.kind : AssignOp → Token.Kind
  | assign => .assign
  | walrus => .walrus
  | add => .plusAssign
  | sub => .minusAssign
  | mul => .starAssign
  | div => .slashAssign
  | mod => .percentAssign
  | bitOr => .bitOrAssign

theorem PrefixOp.ofKind?_kind (op : PrefixOp) : ofKind? op.kind = some op := by cases op <;> rfl

theorem InfixOp.describe_kind (op : InfixOp) : op.kind.describe = op.text := by cases op <;> rfl

theorem AssignOp.describe_kind (op : AssignOp) : op.kind.describe = op.text := by cases op <;> rfl

theorem AssignOp.ofKind?_kind (op : AssignOp) : ofKind? op.kind = some op := by cases op <;> rfl

namespace Token

variable {c : Char} {cs rest : List Char}

/-- A text starts with an equals sign only if its first token does. -/
theorem head?_ne_of_lex {s : Shape} {ss : List Shape} (h : lex cs = s :: ss) (heq : s.1 ≠ .eq)
    (hassign : s.1 ≠ .assign) : cs.head? ≠ some '=' := by
  intro hhead
  obtain ⟨tail, rfl⟩ := List.head?_eq_some_iff.1 hhead
  have hcomment : NoComment '=' tail := noComment_of_ne (by decide)
  rw [lex_of_scan (skipGap_of_token rfl hcomment), scan_of_isSign rfl hcomment] at h
  have hkind := congrArg Prod.fst (List.cons.inj h).1
  by_cases hnext : tail.head? = some '='
  · exact heq (by rw [← hkind]; simp [scanPunctuation, punctuation?, ← List.head?_eq_getElem?,
      hnext, Lexeme.plain])
  · exact hassign (by rw [← hkind]; simp [scanPunctuation, punctuation?, ← List.head?_eq_getElem?,
      hnext, Lexeme.plain])

/-- An infix operator with a space behind it. -/
theorem lex_infix (op : InfixOp) (cs : List Char) :
    lex (op.text.toList ++ ' ' :: cs) = mark op.kind :: lex cs := by
  have hspace : NoComment '/' (' ' :: cs) := fun _ => ⟨by simp, by simp⟩
  rw [← lex_space cs, ← op.describe_kind]
  cases op with
  | and => exact @lex_keyword _ .kwAnd rfl (apart_cons rfl cs)
  | or => exact @lex_keyword _ .kwOr rfl (apart_cons rfl cs)
  | div => exact lex_describe rfl rfl hspace rfl
  | _ => exact lex_describe rfl rfl (noComment_of_ne (by decide)) rfl

/-- An assignment with a space behind it. -/
theorem lex_assign (op : AssignOp) (cs : List Char) :
    lex (op.text.toList ++ ' ' :: cs) = mark op.kind :: lex cs := by
  have hslash : NoComment '/' ('=' :: ' ' :: cs) := fun _ => ⟨by simp, by simp⟩
  rw [← lex_space cs, ← op.describe_kind]
  cases op with
  | div => exact lex_describe rfl rfl hslash rfl
  | _ => exact lex_describe rfl rfl (noComment_of_ne (by decide)) rfl

/-- A prefix operator that no equals sign follows. -/
theorem lex_prefix (op : PrefixOp) (h : cs.head? ≠ some '=') :
    lex (op.text.toList ++ cs) = mark op.kind :: lex cs := by
  cases op with
  | neg =>
    exact lex_mark .minus rfl rfl (noComment_of_ne (by decide))
      (punctuation?_short rfl (.inr (.inl rfl)) h)
  | bang =>
    exact lex_mark .bang rfl rfl (noComment_of_ne (by decide))
      (punctuation?_short rfl (.inr (.inr (.inl rfl))) h)
  | bitNot => exact lex_mark .bitNot rfl rfl (noComment_of_ne (by decide)) rfl
  | not =>
    rw [← lex_space cs]
    exact @lex_keyword _ .kwNot rfl (apart_cons rfl cs)

end Token

end Welle
