import Welle.Token
import Welle.Text.Blank
import Welle.Text.Delimited
import Welle.Text.Quoted

set_option autoImplicit false

/-! # Lexemes

`Token.scan` reads one lexeme at the head of a text: a word, a number, a string, a template, an
operator, or a stretch that is no token. `scan_append` says that the lexeme and what follows it are
the text again, so no character is lost, and `scan_head` that the lexeme starts with the first
character, so it is never empty. -/

namespace Welle

namespace Token

/-! ## Character classes -/

/-- The characters that start an identifier: letters, the underscore, and every character beyond
    ASCII that is not white space. -/
def isIdentStart (c : Char) : Bool :=
  c = '_' || c.isAlpha || (127 < c.toNat && !Text.isBlank c)

/-- The characters that continue an identifier. -/
def isIdentContinue (c : Char) : Bool := isIdentStart c || c.isDigit

/-- The characters that separate tokens without being one. -/
def isGap (c : Char) : Bool := c = ' ' || c = '\t' || c = '\r'

/-- Digits and the grouping underscore. -/
def isGrouped (c : Char) : Bool := c.isDigit || c = '_'

/-! ## Lexemes -/

/-- Why a stretch of text is no token. -/
inductive Fault where
  | openComment
  | openString
  | openTemplate
  | character (c : Char)
deriving DecidableEq, Repr

/-- The wording of a fault. -/
def Fault.message : Fault → String
  | openComment => "unterminated comment"
  | openString => "unterminated string"
  | openTemplate => "unterminated template"
  | character c => s!"illegal character {Text.quotedChar c}"

/-- One lexeme: kind and decoded text, the raw text where it differs, the characters it takes up and
    the characters behind it. -/
structure Lexeme where
  kind : Kind
  literal : String
  raw : Option String
  text : List Char
  rest : List Char

namespace Lexeme

/-- A lexeme that stands for itself. -/
def plain (kind : Kind) (text rest : List Char) : Lexeme :=
  ⟨kind, String.ofList text, none, text, rest⟩

/-- A lexeme with decoded contents. -/
def decoded (kind : Kind) (content text rest : List Char) : Lexeme :=
  ⟨kind, String.ofList content, some (String.ofList text), text, rest⟩

/-- A stretch that is no token. -/
def illegal (fault : Fault) (text rest : List Char) : Lexeme :=
  ⟨.illegal, fault.message, none, text, rest⟩

end Lexeme

/-! ## Words and numbers -/

/-- An identifier or a reserved word. -/
def scanWord (cs : List Char) : Lexeme :=
  let word := cs.takeWhile isIdentContinue
  .plain (.ofWord (String.ofList word)) word (cs.dropWhile isIdentContinue)

/-- Whether `c` is the letter of a base mark such as `0x`. -/
def isBaseMark (c : Char) : Bool :=
  c = 'x' || c = 'X' || c = 'b' || c = 'B' || c = 'o' || c = 'O'

/-- The fraction at the head of a text: a point that a digit follows, and grouped digits. -/
def takeFraction (cs : List Char) : List Char × List Char :=
  match cs with
  | '.' :: d :: rest =>
    if d.isDigit then ('.' :: (d :: rest).takeWhile isGrouped, (d :: rest).dropWhile isGrouped)
    else ([], cs)
  | _ => ([], cs)

/-- The exponent at the head of a text: its mark, a sign, and grouped digits. -/
def takeExponent (cs : List Char) : List Char × List Char :=
  match cs with
  | e :: rest =>
    if e = 'e' || e = 'E' then
      match rest with
      | s :: digits =>
        if s = '+' || s = '-' then
          (e :: s :: digits.takeWhile isGrouped, digits.dropWhile isGrouped)
        else (e :: rest.takeWhile isGrouped, rest.dropWhile isGrouped)
      | [] => ([e], [])
    else ([], cs)
  | [] => ([], [])

/-- A number without a base mark. What cannot be part of a number but continues a word stays in the
    lexeme, so that it is reported as one malformed number. -/
def scanDecimal (cs : List Char) : Lexeme :=
  let whole := cs.takeWhile isGrouped
  let (fraction, rest) := takeFraction (cs.dropWhile isGrouped)
  let (exponent, rest) := takeExponent rest
  let kind : Kind := if fraction.isEmpty && exponent.isEmpty then .int else .float
  .plain kind (whole ++ fraction ++ exponent ++ rest.takeWhile isIdentContinue)
    (rest.dropWhile isIdentContinue)

/-- A number. -/
def scanNumber (cs : List Char) : Lexeme :=
  match cs with
  | '0' :: mark :: rest =>
    if isBaseMark mark then
      let digit := fun c => Char.isAlphanum c || c = '_'
      .plain .int ('0' :: mark :: rest.takeWhile digit) (rest.dropWhile digit)
    else scanDecimal cs
  | _ => scanDecimal cs

/-! ## Strings -/

/-- What was read up to a closing mark: the decoded contents, the characters taken up, the
    characters behind them, and whether the mark was found. -/
structure Body where
  content : List Char
  text : List Char
  rest : List Char
  closed : Bool

/-- The body with characters in front of it. -/
def Body.push (b : Body) (content text : List Char) : Body :=
  { b with content := content ++ b.content, text := text ++ b.text }

/-- The lexeme that `mark` and the body behind it make up. -/
def Body.lexeme (b : Body) (kind : Kind) (fault : Fault) (mark : List Char) : Lexeme :=
  if b.closed then .decoded kind b.content (mark ++ b.text) b.rest
  else .illegal fault (mark ++ b.text) b.rest

/-- The character that a backslash and `c` stand for in a string. -/
def unescape? (c : Char) : Option Char :=
  if c = '"' then some '"'
  else if c = '\\' then some '\\'
  else if c = 'n' then some '\n'
  else if c = 't' then some '\t'
  else if c = 'r' then some '\r'
  else none

/-- The body of a string that ends with its line at the latest. A backslash that starts no escape
    stands for itself. -/
def stringBody : List Char → Body
  | [] => ⟨[], [], [], false⟩
  | c :: cs =>
    if c = '\n' then ⟨[], [], c :: cs, false⟩
    else if c = '"' then ⟨[], [c], cs, true⟩
    else if c = '\\' then
      match cs with
      | [] => ⟨[c], [c], [], false⟩
      | e :: rest =>
        match unescape? e with
        | some d => (stringBody rest).push [d] [c, e]
        | none => (stringBody (e :: rest)).push [c] [c]
    else (stringBody cs).push [c] [c]

/-- Three double quotes, which enclose a string of several lines. -/
def tripleQuote : List Char := ['"', '"', '"']

/-- The body of a string between triple quotes. -/
def tripleBody : List Char → Body
  | [] => ⟨[], [], [], false⟩
  | c :: cs =>
    if tripleQuote.isPrefixOf (c :: cs) then ⟨[], tripleQuote, (c :: cs).drop 3, true⟩
    else (tripleBody cs).push [c] [c]

/-- A string between double quotes; `cs` starts behind the first one. -/
def scanString (cs : List Char) : Lexeme := (stringBody cs).lexeme .str .openString ['"']

/-- A string between triple quotes; `cs` starts behind the first three. -/
def scanTriple (cs : List Char) : Lexeme := (tripleBody cs).lexeme .str .openString tripleQuote

/-- A string between backticks; `cs` starts behind the first one. -/
def scanRaw (cs : List Char) : Lexeme :=
  let content := cs.takeWhile (· ≠ Text.backtick)
  match cs.dropWhile (· ≠ Text.backtick) with
  | [] => .illegal .openString (Text.backtick :: content) []
  | close :: rest => .decoded .str content (Text.backtick :: (content ++ [close])) rest

/-! ## Templates -/

/-- Splits behind the brace that closes an interpolation with `depth` open braces, passing over
    nested braces, quoted text and comments; `none` when the text ends first. -/
def skipInterpolation (depth : Nat) (cs : List Char) : Option (List Char × List Char) :=
  match cs with
  | [] => none
  | c :: cs =>
    if c = '{' then (skipInterpolation (depth + 1) cs).map (Text.onto [c])
    else if c = '}' then
      if depth ≤ 1 then some ([c], cs) else (skipInterpolation (depth - 1) cs).map (Text.onto [c])
    else if c = '"' || c = Text.backtick then
      (skipInterpolation depth (Text.closeQuote c cs).2).map
        (Text.onto (c :: (Text.closeQuote c cs).1))
    else if c = '/' && cs.head? = some '/' then
      (skipInterpolation depth (Text.closeLine cs).2).map (Text.onto (c :: (Text.closeLine cs).1))
    else if c = '/' && cs.head? = some '*' then
      match _h : Text.closeComment (cs.drop 1) with
      | none => none
      | some comment =>
        (skipInterpolation depth comment.2).map (Text.onto (c :: (cs.take 1 ++ comment.1)))
    else (skipInterpolation depth cs).map (Text.onto [c])
termination_by cs.length
decreasing_by
  all_goals simp only [List.length_cons]
  · omega
  · omega
  · have := Text.length_snd_le (Text.closeQuote_append c cs); omega
  · have := Text.length_snd_le (Text.closeLine_append cs); omega
  · have := Text.length_snd_le (Text.closeComment_append _h)
    simp only [List.length_drop] at this
    omega
  · omega

theorem skipInterpolation_append {depth : Nat} {cs : List Char} {split : List Char × List Char}
    (h : skipInterpolation depth cs = some split) : split.1 ++ split.2 = cs := by
  fun_induction skipInterpolation depth cs generalizing split with
  | case1 => simp at h
  | case3 => obtain rfl := Option.some.inj h; rfl
  | case7 => simp at h
  | case2 _ _ ih | case4 _ _ _ _ ih | case9 _ _ _ _ _ _ _ _ ih =>
    obtain ⟨inner, hinner, rfl⟩ := Option.map_eq_some_iff.1 h
    simp [ih hinner]
  | case5 _ c cs _ _ _ ih =>
    obtain ⟨inner, hinner, rfl⟩ := Option.map_eq_some_iff.1 h
    simp [ih hinner, Text.closeQuote_append]
  | case6 _ c cs _ _ _ _ ih =>
    obtain ⟨inner, hinner, rfl⟩ := Option.map_eq_some_iff.1 h
    simp [ih hinner, Text.closeLine_append]
  | case8 _ c cs _ _ _ _ _ comment hcomment ih =>
    obtain ⟨inner, hinner, rfl⟩ := Option.map_eq_some_iff.1 h
    rw [Text.onto_append, ih hinner, List.cons_append, List.append_assoc,
      Text.closeComment_append hcomment, List.take_append_drop]

/-- The body of a template: everything up to the double quote that closes it. A line feed ends it
    early, except within an interpolation. -/
def templateBody (cs : List Char) : Body :=
  match cs with
  | [] => ⟨[], [], [], false⟩
  | c :: cs =>
    if c = '\n' then ⟨[], [], c :: cs, false⟩
    else if c = '"' then ⟨[], [c], cs, true⟩
    else if c = '\\' then
      match cs with
      | [] => ⟨[c], [c], [], false⟩
      | e :: rest =>
        if e = '\n' then ⟨[c], [c], e :: rest, false⟩ else (templateBody rest).push [c, e] [c, e]
    else if c = '$' && cs.head? = some '{' then
      match _h : skipInterpolation 1 (cs.drop 1) with
      | none => ⟨c :: cs, c :: cs, [], false⟩
      | some hole =>
        let text := c :: (cs.take 1 ++ hole.1)
        (templateBody hole.2).push text text
    else (templateBody cs).push [c] [c]
termination_by cs.length
decreasing_by
  all_goals simp only [List.length_cons]
  · omega
  · have := Text.length_snd_le (skipInterpolation_append _h)
    simp only [List.length_drop] at this
    omega
  · omega

/-- A template; `cs` starts behind the opening quote. -/
def scanTemplate (cs : List Char) : Lexeme :=
  (templateBody cs).lexeme .template .openTemplate ['t', '"']

/-! ## Punctuation -/

/-- The operator or delimiter at the head of a text, and its number of characters: the longest one
    that fits. -/
def punctuation? (cs : List Char) : Option (Kind × Nat) :=
  let followedBy := fun d => cs[1]? = some d
  let either := fun (d : Char) (long short : Kind) =>
    if followedBy d then some (long, 2) else some (short, 1)
  match cs.head? with
  | some ';' => some (.semicolon, 1)
  | some '(' => some (.lparen, 1)
  | some ')' => some (.rparen, 1)
  | some '{' => some (.lbrace, 1)
  | some '}' => some (.rbrace, 1)
  | some '[' => some (.lbracket, 1)
  | some ']' => some (.rbracket, 1)
  | some ',' => some (.comma, 1)
  | some '#' => some (.hash, 1)
  | some '~' => some (.bitNot, 1)
  | some '^' => some (.bitXor, 1)
  | some '&' => some (.bitAnd, 1)
  | some '.' => if followedBy '.' && cs[2]? = some '.' then some (.ellipsis, 3) else some (.dot, 1)
  | some ':' => either '=' .walrus .colon
  | some '?' => either '?' .nullish .question
  | some '+' => either '=' .plusAssign .plus
  | some '-' => either '=' .minusAssign .minus
  | some '*' => either '=' .starAssign .star
  | some '/' => either '=' .slashAssign .slash
  | some '%' => either '=' .percentAssign .percent
  | some '|' => either '=' .bitOrAssign .bitOr
  | some '=' => either '=' .eq .assign
  | some '!' => either '=' .ne .bang
  | some '<' => if followedBy '=' then some (.le, 2) else either '<' .shl .lt
  | some '>' => if followedBy '=' then some (.ge, 2) else either '>' .shr .gt
  | _ => none

/-- Punctuation, or a character that starts no token. -/
def scanPunctuation (c : Char) (cs : List Char) : Lexeme :=
  match punctuation? (c :: cs) with
  | some (kind, width) => .plain kind (c :: cs.take (width - 1)) (cs.drop (width - 1))
  | none => .illegal (.character c) [c] cs

/-! ## The next lexeme -/

/-- The lexeme at the head of the text `c :: cs`, which starts with no gap. A comment starts here
    only when it is never closed. -/
def scan (c : Char) (cs : List Char) : Lexeme :=
  if c = '/' && cs.head? = some '*' then .illegal .openComment (c :: cs) []
  else if c = '\n' then .plain .newline [c] cs
  else if c = '"' then
    if cs.take 2 = ['"', '"'] then scanTriple (cs.drop 2) else scanString cs
  else if c = Text.backtick then scanRaw cs
  else if c = 't' && cs.head? = some '"' then scanTemplate (cs.drop 1)
  else if c.isDigit then scanNumber (c :: cs)
  else if isIdentStart c then scanWord (c :: cs)
  else scanPunctuation c cs

/-! ## Nothing is lost -/

theorem Body.lexeme_append (b : Body) (kind : Kind) (fault : Fault) (mark : List Char) :
    (b.lexeme kind fault mark).text ++ (b.lexeme kind fault mark).rest
      = mark ++ (b.text ++ b.rest) := by
  unfold Body.lexeme
  split <;> simp [Lexeme.decoded, Lexeme.illegal]

theorem stringBody_append (cs : List Char) : (stringBody cs).text ++ (stringBody cs).rest = cs := by
  fun_induction stringBody cs <;> simp_all [Body.push]

theorem tripleBody_append (cs : List Char) : (tripleBody cs).text ++ (tripleBody cs).rest = cs := by
  fun_induction tripleBody cs with
  | case1 => rfl
  | case2 c cs h =>
    obtain ⟨rest, hrest⟩ := List.isPrefixOf_iff_prefix.1 h
    rw [← hrest]
    rfl
  | case3 c cs _ ih => simp [Body.push, ih]

theorem templateBody_append (cs : List Char) :
    (templateBody cs).text ++ (templateBody cs).rest = cs := by
  fun_induction templateBody cs with
  | case8 c cs _ _ _ _ hole hhole text ih =>
    simp only [Body.push, List.append_assoc, ih, text]
    rw [List.cons_append, List.append_assoc, skipInterpolation_append hhole, List.take_append_drop]
  | _ => simp_all [Body.push]

theorem takeFraction_append (cs : List Char) : (takeFraction cs).1 ++ (takeFraction cs).2 = cs := by
  unfold takeFraction
  split
  · split <;> simp [List.takeWhile_append_dropWhile]
  · rfl

theorem takeExponent_append (cs : List Char) : (takeExponent cs).1 ++ (takeExponent cs).2 = cs := by
  unfold takeExponent
  split
  · split
    · split
      · split <;> simp [List.takeWhile_append_dropWhile]
      · rfl
    · rfl
  · rfl

theorem scanDecimal_append (cs : List Char) :
    (scanDecimal cs).text ++ (scanDecimal cs).rest = cs := by
  simp only [scanDecimal, Lexeme.plain, List.append_assoc, List.takeWhile_append_dropWhile,
    takeExponent_append, takeFraction_append]

theorem scanNumber_append (cs : List Char) : (scanNumber cs).text ++ (scanNumber cs).rest = cs := by
  unfold scanNumber
  split
  · split
    · simp [Lexeme.plain, List.takeWhile_append_dropWhile]
    · exact scanDecimal_append _
  · exact scanDecimal_append cs

theorem scanRaw_append (cs : List Char) :
    (scanRaw cs).text ++ (scanRaw cs).rest = Text.backtick :: cs := by
  have happend : cs.takeWhile (· ≠ Text.backtick) ++ cs.dropWhile (· ≠ Text.backtick) = cs :=
    List.takeWhile_append_dropWhile
  unfold scanRaw
  split
  next hclose =>
    rw [hclose, List.append_nil] at happend
    simpa [Lexeme.illegal] using happend
  next close rest hclose =>
    rw [hclose] at happend
    simpa [Lexeme.decoded] using happend

/-- A lexeme and the text behind it are the text that was scanned. -/
theorem scan_append (c : Char) (cs : List Char) :
    (scan c cs).text ++ (scan c cs).rest = c :: cs := by
  unfold scan
  split
  · simp [Lexeme.illegal]
  · split
    · simp [Lexeme.plain]
    · split
      next hc =>
        subst hc
        split
        next htriple =>
          have hcs : '"' :: '"' :: cs.drop 2 = cs := by
            have := List.take_append_drop 2 cs
            rwa [htriple] at this
          simp only [scanTriple, Body.lexeme_append, tripleBody_append, tripleQuote,
            List.cons_append, List.nil_append, hcs]
        next => simp only [scanString, Body.lexeme_append, stringBody_append, List.singleton_append]
      next =>
        split
        next hc => subst hc; exact scanRaw_append cs
        next =>
          split
          next ht =>
            simp only [Bool.and_eq_true, decide_eq_true_eq] at ht
            obtain ⟨rfl, hquote⟩ := ht
            have hcs : '"' :: cs.drop 1 = cs := by
              cases cs with
              | nil => simp at hquote
              | cons d ds => simp only [List.head?_cons, Option.some.injEq] at hquote; simp [hquote]
            simp only [scanTemplate, Body.lexeme_append, templateBody_append, List.cons_append,
              List.nil_append, hcs]
          next =>
            split
            · exact scanNumber_append (c :: cs)
            · split
              · exact List.takeWhile_append_dropWhile
              · unfold scanPunctuation
                split <;> simp [Lexeme.plain, Lexeme.illegal]

/-! ## No lexeme is empty -/

theorem scanDecimal_head (c : Char) (cs : List Char) (h : c.isDigit = true) :
    (scanDecimal (c :: cs)).text.head? = some c := by
  simp [scanDecimal, Lexeme.plain, isGrouped, h]

theorem scanNumber_head (c : Char) (cs : List Char) (h : c.isDigit = true) :
    (scanNumber (c :: cs)).text.head? = some c := by
  unfold scanNumber
  split
  next heq =>
    obtain ⟨rfl, rfl⟩ := List.cons.inj heq
    split
    · rfl
    · exact scanDecimal_head _ _ h
  next => exact scanDecimal_head c cs h

/-- A lexeme starts with the first character of the text that was scanned. -/
theorem scan_head (c : Char) (cs : List Char) : (scan c cs).text.head? = some c := by
  unfold scan
  split
  · rfl
  split
  · rfl
  split
  next hc =>
    subst hc
    split
    · unfold scanTriple Body.lexeme; split <;> rfl
    · unfold scanString Body.lexeme; split <;> rfl
  split
  next hc => subst hc; unfold scanRaw; split <;> rfl
  split
  next ht =>
    simp only [Bool.and_eq_true, decide_eq_true_eq] at ht
    obtain ⟨rfl, _⟩ := ht
    unfold scanTemplate Body.lexeme
    split <;> rfl
  split
  next hdigit => exact scanNumber_head c cs hdigit
  split
  next hword => simp [scanWord, Lexeme.plain, isIdentContinue, hword]
  · unfold scanPunctuation; split <;> rfl

theorem scan_rest_length (c : Char) (cs : List Char) : (scan c cs).rest.length ≤ cs.length := by
  have happend := congrArg List.length (scan_append c cs)
  have hhead := scan_head c cs
  cases htext : (scan c cs).text with
  | nil => simp [htext] at hhead
  | cons d ds =>
    simp only [htext, List.length_append, List.length_cons] at happend
    omega

end Token

end Welle
