import Welle.Token

set_option autoImplicit false

/-! # Line feeds inside of brackets

Between parentheses, between square brackets and between the braces of a dictionary line feeds do not
count, and more of them can stand there (`Inserts`). Between the braces of a block they do count.
Whether a brace opens a dictionary or a block shows in front of it, so the brackets that are open at a
token (`Context`) depend on the tokens before it alone. `visible` leaves out the line feeds that do
not count, and everything behind the end of the text. -/

namespace Welle.Newlines

/-! ## Open brackets -/

/-- What an opening bracket opens. -/
inductive Bracket where
  | paren | square | dict | block
deriving DecidableEq, Repr

/-- The brackets that are open at a token, innermost first, and whether the token in front of it,
    line feeds aside, is the number sign that makes a brace the brace of a dictionary. -/
structure Context where
  brackets : List Bracket
  hash : Bool

namespace Context

/-- The start of a text. -/
def start : Context := ⟨[], false⟩

/-- The brackets that are open behind a token. -/
def step (c : Context) : Token.Kind → Context
  | .newline => c
  | .hash => ⟨c.brackets, true⟩
  | .lparen => ⟨.paren :: c.brackets, false⟩
  | .lbracket => ⟨.square :: c.brackets, false⟩
  | .lbrace => ⟨(if c.hash then .dict else .block) :: c.brackets, false⟩
  | .rparen | .rbracket | .rbrace => ⟨c.brackets.tail, false⟩
  | _ => ⟨c.brackets, false⟩

/-- Whether line feeds do not count: the innermost open bracket is not the brace of a block. -/
def hides (c : Context) : Bool :=
  match c.brackets with
  | [] | .block :: _ => false
  | _ => true

end Context

/-! ## More line feeds -/

/-- The second list has the tokens of the first one, and more line feeds where line feeds do not
    count. -/
inductive Inserts : Context → List Token → List Token → Prop
  | nil {c : Context} : Inserts c [] []
  | keep {c : Context} {t : Token} {ts us : List Token} :
      Inserts (c.step t.kind) ts us → Inserts c (t :: ts) (t :: us)
  | insert {c : Context} {t : Token} {ts us : List Token} :
      c.hides = true → t.kind = .newline → Inserts c ts us → Inserts c ts (t :: us)

/-! ## The line feeds that count -/

/-- The end of a text, wherever it is. -/
def ending : Token := .endOfText .start

/-- The tokens up to the end of the text, without the line feeds that do not count. -/
def visible (c : Context) : List Token → List Token
  | [] => [ending]
  | t :: ts =>
    if t.kind = .eof then [ending]
    else if t.kind = .newline ∧ c.hides = true then visible c ts
    else t :: visible (c.step t.kind) ts

section Visible

variable {c : Context} {t : Token} {ts us : List Token}

theorem visible_eof (h : t.kind = .eof) (ts : List Token) : visible c (t :: ts) = [ending] := by
  rw [visible, if_pos h]

theorem visible_newline (h : t.kind = .newline) (hhides : c.hides = true) (ts : List Token) :
    visible c (t :: ts) = visible c ts := by
  rw [visible, if_neg (by simp [h]), if_pos ⟨h, hhides⟩]

theorem visible_cons (heof : t.kind ≠ .eof) (hcounts : t.kind = .newline → c.hides = false)
    (ts : List Token) : visible c (t :: ts) = t :: visible (c.step t.kind) ts := by
  have hnot : ¬(t.kind = .newline ∧ c.hides = true) := by
    rintro ⟨hline, hhides⟩
    rw [hcounts hline] at hhides
    cases hhides
  rw [visible, if_neg heof, if_neg hnot]

/-- Line feeds that do not count make no difference. -/
theorem Inserts.visible_eq (h : Inserts c ts us) : visible c us = visible c ts := by
  induction h with
  | nil => rfl
  | @keep c t ts us _ ih =>
    by_cases hline : t.kind = .newline
    · rw [hline, Context.step] at ih
      simp only [visible, hline, Context.step, ih]
    · simp only [visible, hline, false_and, if_false, ih]
  | insert hhides hline _ ih => rw [visible_newline hline hhides, ih]

/-- An end behind the tokens makes no difference. -/
theorem visible_concat (h : t.kind = .eof) (ts : List Token) :
    visible c (ts ++ [t]) = visible c ts := by
  induction ts generalizing c with
  | nil => exact visible_eof h []
  | cons u us ih => simp only [List.cons_append, visible, ih]

/-- Where line feeds do not count, none is left at the front, and no end is passed over. -/
theorem visible_dropWhile {p : Token.Kind → Bool} (hline : p .newline = true)
    (hp : ∀ kind, p kind = true → kind ≠ .eof ∧ c.step kind = c) (ts : List Token) :
    visible c (ts.dropWhile fun t => p t.kind) = (visible c ts).dropWhile fun t => p t.kind := by
  have hend : p ending.kind = false := Bool.eq_false_iff.2 fun hend => (hp _ hend).1 rfl
  induction ts with
  | nil => simp [visible, hend]
  | cons t ts ih =>
    by_cases ht : p t.kind = true
    · obtain ⟨heof, hstep⟩ := hp _ ht
      simp only [List.dropWhile_cons, ht, if_true, ih]
      by_cases hhidden : t.kind = .newline ∧ c.hides = true
      · rw [visible_newline hhidden.1 hhidden.2]
      · rw [visible_cons heof fun hline => by simpa [hline] using hhidden, hstep]
        simp only [List.dropWhile_cons, ht, if_true]
    · have hne : t.kind ≠ .newline := fun h => ht (h ▸ hline)
      simp only [List.dropWhile_cons, ht, Bool.false_eq_true, if_false]
      by_cases heof : t.kind = .eof
      · simp [visible_eof heof, hend]
      · rw [visible_cons heof fun h => absurd h hne]
        simp only [List.dropWhile_cons, ht, Bool.false_eq_true, if_false]

/-- The significant tokens up to the end of the text are visible. -/
theorem visible_filter (ts : List Token) :
    (visible c ts).filter (·.kind ≠ .newline)
      = (ts.takeWhile (·.kind ≠ .eof)).filter (·.kind ≠ .newline) ++ [ending] := by
  induction ts generalizing c with
  | nil => rfl
  | cons t ts ih =>
    by_cases heof : t.kind = .eof
    · rw [visible_eof heof, List.takeWhile_cons_of_neg (by simpa using heof)]
      rfl
    · rw [List.takeWhile_cons_of_pos (by simpa using heof)]
      by_cases hhidden : t.kind = .newline ∧ c.hides = true
      · rw [visible_newline hhidden.1 hhidden.2, ih,
          List.filter_cons_of_neg (by simpa using hhidden.1)]
      · rw [visible_cons heof fun hline => by simpa [hline] using hhidden, List.filter_cons,
          List.filter_cons, ih]
        split <;> rfl

end Visible

end Welle.Newlines
