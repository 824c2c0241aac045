import Welle.Position
import Welle.Text.Delimited

set_option autoImplicit false

/-! # Template bodies

The body of a template token is text with interpolations in it. `Template.split` separates the two:
texts and interpolations alternate, and a text stands at either end. Text comes with its escapes
decoded, an interpolation with its source and the positions it has in the file. -/

namespace Welle.Template

/-- A piece of a template body. An interpolation knows where its source starts and where the dollar
    sign that opens it stands. -/
inductive Segment where
  | text (value : String)
  | hole (source : String) (origin opening : Position)
deriving DecidableEq, Repr

/-- What a backslash and `c` stand for in the text of a template. -/
def unescape (c : Char) : List Char :=
  if c = 'n' then ['\n']
  else if c = 't' then ['\t']
  else if c = 'r' then ['\r']
  else if c = '"' || c = '\\' || c = '$' then [c]
  else ['\\', c]

/-! ## Interpolations -/

/-- An interpolation: its source and, if it is closed, the text behind the closing brace. -/
structure Hole where
  source : List Char
  rest : Option (List Char)

/-- The interpolation with `text` in front of its source. -/
def Hole.push (hole : Hole) (text : List Char) : Hole := { hole with source := text ++ hole.source }

/-- Reads an interpolation with `depth` open braces. Nested braces, quoted text and comments are
    passed over; a comment ends at the first `*/` behind its slash. -/
def takeHole (depth : Nat) (cs : List Char) : Hole :=
  match cs with
  | [] => ⟨[], none⟩
  | c :: cs =>
    if c = '{' then (takeHole (depth + 1) cs).push [c]
    else if c = '}' then
      if depth ≤ 1 then ⟨[], some cs⟩ else (takeHole (depth - 1) cs).push [c]
    else if c = '"' || c = Text.backtick then
      (takeHole depth (Text.closeQuote c cs).2).push (c :: (Text.closeQuote c cs).1)
    else if c = '/' && cs.head? = some '/' then
      (takeHole depth (Text.closeLine cs).2).push (c :: (Text.closeLine cs).1)
    else if c = '/' && cs.head? = some '*' then
      match _h : Text.closeComment cs with
      | none => ⟨c :: cs, none⟩
      | some comment => (takeHole depth comment.2).push (c :: comment.1)
    else (takeHole depth cs).push [c]
termination_by cs.length
decreasing_by
  all_goals simp only [List.length_cons]
  · omega
  · omega
  · have := Text.length_snd_le (Text.closeQuote_append c cs); omega
  · have := Text.length_snd_le (Text.closeLine_append cs); omega
  · have := Text.length_snd_le (Text.closeComment_append _h); omega
  · omega

/-- The source, the closing brace if there is one, and the text behind it are the text that was
    read. -/
theorem takeHole_append (depth : Nat) (cs : List Char) :
    (takeHole depth cs).source ++ ((takeHole depth cs).rest.map ('}' :: ·)).getD [] = cs := by
  fun_induction takeHole depth cs with
  | case1 => rfl
  | case3 _ _ _ h => simp
  | case7 => simp
  | case5 _ c cs _ _ _ ih => simp [Hole.push, ih, Text.closeQuote_append]
  | case6 _ c cs _ _ _ _ ih => simp [Hole.push, ih, Text.closeLine_append]
  | case8 _ c cs _ _ _ _ _ comment h ih => simp [Hole.push, ih, Text.closeComment_append h]
  | case2 _ _ ih | case4 _ _ _ _ ih | case9 _ _ _ _ _ _ _ _ ih => simp [Hole.push, ih]

theorem takeHole_rest_length {depth : Nat} {cs rest : List Char}
    (h : (takeHole depth cs).rest = some rest) : rest.length < cs.length := by
  have := congrArg List.length (takeHole_append depth cs)
  simp only [h, Option.map_some, Option.getD_some, List.length_append, List.length_cons] at this
  omega

/-! ## Bodies -/

/-- The text at the head of a body that stands at `pos`, and the segments behind it. -/
def splitFrom (pos : Position) (cs : List Char) : List Char × List Segment :=
  match cs with
  | [] => ([], [])
  | c :: cs =>
    if c = '\\' then
      match cs with
      | [] => ([c], [])
      | e :: rest =>
        let inner := splitFrom ((pos.next c).next e) rest
        (unescape e ++ inner.1, inner.2)
    else if c = '$' && cs.head? = some '{' then
      let source := (takeHole 1 (cs.drop 1)).source
      let origin := pos.shifted 2
      let behind := match _h : (takeHole 1 (cs.drop 1)).rest with
        | some rest => splitFrom ((origin.after source).next '}') rest
        | none => ([], [])
      ([], .hole (String.ofList source) origin pos :: .text (String.ofList behind.1) :: behind.2)
    else
      let inner := splitFrom (pos.next c) cs
      (c :: inner.1, inner.2)
termination_by cs.length
decreasing_by
  all_goals simp only [List.length_cons]
  · omega
  · have := takeHole_rest_length _h
    simp only [List.length_drop] at this
    omega
  · omega

/-- The segments of a template body whose first character stands at `origin`. -/
def split (body : String) (origin : Position) : List Segment :=
  let segments := splitFrom origin body.toList
  .text (String.ofList segments.1) :: segments.2

end Welle.Template
