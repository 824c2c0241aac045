import Welle.Text.Measure

set_option autoImplicit false

/-! # Source positions and spans

A position is a line and a column, both counted from one; columns count the bytes of the UTF-8
encoding. Positions are ordered as they stand in the text. A `Span` is an inclusive range.

`Position.after` moves a position over a piece of text, one character at a time; `endPosition` says
where a text ends by counting its line feeds and the bytes of its last line. -/

namespace Welle

/-! ## Positions -/

/-- A place in a source text: line and byte column, both starting at one. -/
structure Position where
  line : Nat
  column : Nat
deriving DecidableEq, Repr

namespace Position

/-- The first character of a text. -/
def start : Position := ⟨1, 1⟩

instance : Inhabited Position := ⟨start⟩

instance : ToString Position := ⟨fun p => s!"{p.line}:{p.column}"⟩

/-- Positions compare by line, then by column. -/
instance : LT Position := ⟨fun p q => p.line < q.line ∨ p.line = q.line ∧ p.column < q.column⟩

/-- Positions compare by line, then by column. -/
instance : LE Position := ⟨fun p q => p.line < q.line ∨ p.line = q.line ∧ p.column ≤ q.column⟩

instance (p q : Position) : Decidable (p < q) :=
  inferInstanceAs (Decidable (p.line < q.line ∨ p.line = q.line ∧ p.column < q.column))

instance (p q : Position) : Decidable (p ≤ q) :=
  inferInstanceAs (Decidable (p.line < q.line ∨ p.line = q.line ∧ p.column ≤ q.column))

/-- The three-way comparison that goes with `<`. -/
instance : Ord Position := ⟨fun p q => (compare p.line q.line).then (compare p.column q.column)⟩

/-- The position `bytes` further on the same line. -/
def shifted (p : Position) (bytes : Nat) : Position := ⟨p.line, p.column + bytes⟩

/-- The position behind the character `c` when `c` stands at `p`. -/
def next (p : Position) (c : Char) : Position :=
  if c = '\n' then ⟨p.line + 1, 1⟩ else ⟨p.line, p.column + c.utf8Size⟩

/-- The position behind the text `cs` when its first character stands at `p`. -/
def after (p : Position) (cs : List Char) : Position := cs.foldl next p

@[simp] theorem after_nil (p : Position) : p.after [] = p := rfl

@[simp] theorem after_cons (p : Position) (c : Char) (cs : List Char) :
    p.after (c :: cs) = (p.next c).after cs := rfl

@[simp] theorem after_append (p : Position) (xs ys : List Char) :
    p.after (xs ++ ys) = (p.after xs).after ys := List.foldl_append

end Position

/-- What follows the last line feed of a text. -/
def lastLine (text : List Char) : List Char := (text.reverse.takeWhile (· ≠ '\n')).reverse

/-- The position just past the last byte of a text. -/
def endPosition (text : String) : Position where
  line := text.toList.count '\n' + 1
  column := Text.byteLength (lastLine text.toList) + 1

/-! ## Spans -/

/-- A source range that includes both ends. -/
structure Span where
  first : Position
  last : Position
deriving DecidableEq, Repr

namespace Span

/-- The span of one position. -/
def single (p : Position) : Span := ⟨p, p⟩

/-- Whether a position lies in the span. -/
def contains (s : Span) (p : Position) : Bool := s.first ≤ p && p ≤ s.last

/-- Whether both ends of `other` lie in the span. -/
def encloses (s other : Span) : Bool := s.contains other.first && s.contains other.last

/-- A span on one line names the line once. -/
instance : ToString Span :=
  ⟨fun s =>
    if s.first.line = s.last.line then s!"{s.first.line}:{s.first.column}-{s.last.column}"
    else s!"{s.first}-{s.last}"⟩

end Span

end Welle
