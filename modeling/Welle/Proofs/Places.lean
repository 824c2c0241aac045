import Mathlib.Data.List.Forall2
import Welle.Token.Lexer

set_option autoImplicit false

/-! # Where tokens are read

Lexing looks at characters only, and the position moves along. So a token of a text is the one at the
head of what stands behind its place, and two runs over the same characters give the same tokens, at
positions that correspond to each other if the first ones do and if corresponding positions move to
corresponding ones. -/

namespace Welle

/-- What relates two positions relates them behind every text if it does so behind every
    character. -/
theorem Position.after_related {R : Position → Position → Prop}
    (hnext : ∀ p q c, R p q → R (p.next c) (q.next c)) {p q : Position} (h : R p q)
    (cs : List Char) : R (p.after cs) (q.after cs) := by
  induction cs generalizing p q with
  | nil => exact h
  | cons c cs ih => exact ih (hnext p q c h)

namespace Token

/-- The token at the head of a text that starts with no gap. -/
def ofHead (pos : Position) : List Char → Token
  | [] => endOfText pos
  | c :: cs => ⟨(scan c cs).kind, (scan c cs).literal, (scan c cs).raw, pos⟩

@[simp] theorem pos_ofHead (pos : Position) (cs : List Char) : (ofHead pos cs).pos = pos := by
  cases cs <;> rfl

theorem tokensFrom_of_skipGap {pos : Position} {cs gap rest : List Char} {c : Char}
    (h : skipGap cs = (gap, c :: rest)) :
    tokensFrom pos cs
      = ⟨(scan c rest).kind, (scan c rest).literal, (scan c rest).raw, pos.after gap⟩
        :: tokensFrom ((pos.after gap).after (scan c rest).text) (scan c rest).rest := by
  rw [tokensFrom]
  split
  next hgap => cases hgap.symm.trans h
  next hgap =>
    obtain ⟨rfl, hcons⟩ := Prod.mk.inj (hgap.symm.trans h)
    obtain ⟨rfl, rfl⟩ := List.cons.inj hcons
    rfl

theorem tokensFrom_of_end {pos : Position} {cs gap : List Char} (h : skipGap cs = (gap, [])) :
    tokensFrom pos cs = [endOfText (pos.after gap)] := by
  rw [tokensFrom]
  split
  next found hfound => rw [(Prod.mk.inj (hfound.symm.trans h)).1]
  next hfound => cases hfound.symm.trans h

/-- Every token of a text is the one that is read at its place. -/
theorem mem_tokensFrom {pos : Position} {cs : List Char} {t : Token} (ht : t ∈ tokensFrom pos cs) :
    ∃ before behind, cs = before ++ behind ∧ t = ofHead (pos.after before) behind := by
  fun_induction tokensFrom pos cs with
  | case1 pos cs gap hgap =>
    have happend := skipGap_append cs
    rw [hgap] at happend
    exact ⟨gap, [], happend.symm, List.mem_singleton.1 ht⟩
  | case2 pos cs gap c rest hgap lexeme start ih =>
    have happend := skipGap_append cs
    rw [hgap] at happend
    rcases List.mem_cons.1 ht with rfl | ht
    · exact ⟨gap, c :: rest, happend.symm, rfl⟩
    · obtain ⟨before, behind, hrest, rfl⟩ := ih ht
      have hscan : lexeme.text ++ (before ++ behind) = c :: rest := hrest ▸ scan_append c rest
      refine ⟨gap ++ (lexeme.text ++ before), behind, ?_, ?_⟩
      · rw [← happend, ← hscan, List.append_assoc, List.append_assoc]
      · rw [Position.after_append, Position.after_append]

/-- Two runs over the same characters give the same tokens at corresponding positions. -/
theorem tokensFrom_related {R : Position → Position → Prop}
    (hnext : ∀ p q c, R p q → R (p.next c) (q.next c)) {p q : Position} (h : R p q)
    (cs : List Char) :
    List.Forall₂ (fun t u => u = { t with pos := u.pos } ∧ R t.pos u.pos)
      (tokensFrom p cs) (tokensFrom q cs) := by
  induction p, cs using tokensFrom.induct generalizing q with
  | case1 p cs gap hgap =>
    rw [tokensFrom_of_end hgap, tokensFrom_of_end hgap]
    exact .cons ⟨rfl, Position.after_related hnext h gap⟩ .nil
  | case2 p cs gap c rest hgap lexeme start =>
    rename_i ih
    have hstart : R start (q.after gap) := Position.after_related hnext h gap
    rw [tokensFrom_of_skipGap hgap, tokensFrom_of_skipGap hgap]
    exact .cons ⟨rfl, hstart⟩ (ih (Position.after_related hnext hstart lexeme.text))

/-- Where the one position is a function of the other, so are all positions of the tokens. -/
theorem tokensFrom_moved {R : Position → Position → Prop} {f : Position → Position}
    (hnext : ∀ p q c, R p q → R (p.next c) (q.next c)) (hmoved : ∀ p q, R p q → q = f p)
    {p q : Position} (h : R p q) (cs : List Char) :
    tokensFrom q cs = (tokensFrom p cs).map fun t => { t with pos := f t.pos } := by
  have hrelated := tokensFrom_related hnext h cs
  generalize tokensFrom p cs = ts at *
  generalize tokensFrom q cs = us at *
  induction hrelated with
  | nil => rfl
  | cons hhead _ ih =>
    obtain ⟨hsame, hpos⟩ := hhead
    rw [List.map_cons, ← ih, ← hmoved _ _ hpos, ← hsame]

end Token

end Welle
