import Welle.Text.Digit

set_option autoImplicit false

/-! # TOML text

Blanks, comments, strings and keys. Every reader gives what it has read and what is left to read. -/

namespace Welle.Toml

/-! ## Blanks and comments -/

/-- Whether a blank stands between the parts of a line. -/
def isBlank (c : Char) : Bool := c = ' ' || c = '\t'

/-- Whether a character may stand in a comment or a string. -/
def isPlain (c : Char) : Bool := c = '\t' || (0x20 ≤ c.toNat && c.toNat ≠ 0x7F)

/-- Drops blanks. -/
def skipBlanks (cs : List Char) : List Char := cs.dropWhile isBlank

/-- Drops blanks and a comment. -/
def skipComment (cs : List Char) : List Char :=
  match skipBlanks cs with
  | '#' :: rest => rest.dropWhile isPlain
  | rest => rest

/-- What follows a line end. -/
def lineEnd? : List Char → Option (List Char)
  | '\n' :: rest | '\r' :: '\n' :: rest => some rest
  | _ => none

/-- What follows the end of a line. Only blanks and a comment may stand before it. -/
def endLine? (cs : List Char) : Option (List Char) :=
  match skipComment cs with
  | [] => some []
  | rest => lineEnd? rest

/-- Drops blanks, comments and line ends. -/
def skipGap : Nat → List Char → List Char
  | 0, cs => cs
  | fuel + 1, cs =>
    let rest := skipComment cs
    match lineEnd? rest with
    | some next => skipGap fuel next
    | none => rest

/-! ## Strings -/

/-- The character with the given hexadecimal number. -/
def scalar? (digits : List Char) : Option Char :=
  let n := Text.positional 16 digits
  if digits.all (Text.isDigitOf 16) && n.isValidChar then some (.ofNat n) else none

/-- The character that a letter behind a backslash stands for. -/
def escaped? : Char → Option Char
  | 'b' => some '\x08'
  | 't' => some '\t'
  | 'n' => some '\n'
  | 'f' => some '\x0c'
  | 'r' => some '\r'
  | 'e' => some '\x1b'
  | '"' => some '"'
  | '\\' => some '\\'
  | _ => none

/-- Puts a character in front of what is read. -/
def onto (c : Char) : Option (List Char × List Char) → Option (List Char × List Char) :=
  Option.map fun (cs, rest) => (c :: cs, rest)

/-- What a quote ends. Over several lines three quotes end a string, and up to two more before them
    belong to it. -/
def close? (several : Bool) (quote : Char) (rest : List Char) : Option (List Char × List Char) :=
  if several then
    if [quote, quote].isPrefixOf rest then
      let more := rest.drop 2
      let own := (more.takeWhile (· = quote)).take 2
      some (own, more.drop own.length)
    else none
  else some ([], rest)

/-- The rest of a basic string, in which backslashes escape. Over several lines a backslash at the
    end of a line takes away all blanks and line ends behind it; `skipping` says that this goes on.
    -/
def basic (several : Bool) (skipping : Bool) : List Char → Option (List Char × List Char)
  | [] => none
  | '\\' :: 'x' :: a :: b :: rest =>
    (scalar? [a, b]).bind (onto · (basic several false rest))
  | '\\' :: 'u' :: a :: b :: c :: d :: rest =>
    (scalar? [a, b, c, d]).bind (onto · (basic several false rest))
  | '\\' :: 'U' :: a :: b :: c :: d :: e :: f :: g :: h :: rest =>
    (scalar? [a, b, c, d, e, f, g, h]).bind (onto · (basic several false rest))
  | '\\' :: c :: rest =>
    if several && (lineEnd? (skipBlanks (c :: rest))).isSome then basic several true (c :: rest)
    else (escaped? c).bind (onto · (basic several false rest))
  | '\r' :: '\n' :: rest =>
    if skipping then basic several true rest
    else if several then onto '\n' (basic several false rest)
    else none
  | c :: rest =>
    if skipping && (isBlank c || c = '\n') then basic several true rest
    else if c = '"' then (close? several c rest).or (onto c (basic several false rest))
    else if c ≠ '\\' && (isPlain c || (several && c = '\n')) then onto c (basic several false rest)
    else none

/-- The rest of a literal string, in which every character stands for itself. -/
def literal (several : Bool) : List Char → Option (List Char × List Char)
  | [] => none
  | '\r' :: '\n' :: rest => if several then onto '\n' (literal several rest) else none
  | c :: rest =>
    if c = '\'' then (close? several c rest).or (onto c (literal several rest))
    else if isPlain c || (several && c = '\n') then onto c (literal several rest)
    else none

/-- A string on one line in either kind of quotes. -/
def quoted? : List Char → Option (String × List Char)
  | '"' :: rest => (basic false false rest).map fun (cs, rest) => (.ofList cs, rest)
  | '\'' :: rest => (literal false rest).map fun (cs, rest) => (.ofList cs, rest)
  | _ => none

/-- A string. A line end right behind three quotes does not belong to it. -/
def string? : List Char → Option (String × List Char)
  | '"' :: '"' :: '"' :: rest =>
    (basic true false ((lineEnd? rest).getD rest)).map fun (cs, rest) => (.ofList cs, rest)
  | '\'' :: '\'' :: '\'' :: rest =>
    (literal true ((lineEnd? rest).getD rest)).map fun (cs, rest) => (.ofList cs, rest)
  | cs => quoted? cs

/-! ## Keys -/

/-- Whether a character may stand in a key without quotes. -/
def isBare (c : Char) : Bool := c.isAlphanum || c = '_' || c = '-'

/-- One part of a key. -/
def keyPart? (cs : List Char) : Option (String × List Char) :=
  match quoted? cs with
  | some found => some found
  | none =>
    match cs.takeWhile isBare with
    | [] => none
    | word => some (.ofList word, cs.dropWhile isBare)

/-- A key: parts with dots between them. -/
def key? : Nat → List Char → Option (List String × List Char)
  | 0, _ => none
  | fuel + 1, cs => do
    let (part, rest) ← keyPart? (skipBlanks cs)
    match skipBlanks rest with
    | '.' :: more =>
      let (parts, rest) ← key? fuel more
      return (part :: parts, rest)
    | rest => return ([part], rest)

end Welle.Toml
