import Welle.Proofs.Append.Lowered
import Welle.Proofs.Parser.Progress

set_option autoImplicit false

/-! # Two texts that start alike

A `Junction` leads from the tokens of a text to other ones: those of the same text some lines further
down, or those of a longer text, in which something else follows where the first text ends. As long
as the cursor does not reach that place, it sees the same on both sides. -/

namespace Welle.Parser

open Welle.Grammar (content)

/-! ## Junctions -/

/-- What follows a text in place of its end: a line feed, and tokens that do not continue the
    statement in front of it. -/
structure Tail where
  newline : Token
  rest : List Token
  newline_kind : newline.kind = .newline
  apart : ∀ kind, kind = .kwElse ∨ kind = .kwFinally →
    (rest.find? (·.kind ≠ .newline)).any (·.kind = kind) = false

/-- The tokens of a tail. -/
def Tail.tokens (tail : Tail) : List Token := tail.newline :: tail.rest

/-- How the tokens of a text are found again elsewhere: how many lines further down, and what stands
    there in place of the end of the text. Without a tail the text ends there too. -/
structure Junction where
  lines : Nat
  tail : Option Tail

namespace Junction

/-- The tokens that stand on the other side. -/
def tokens (j : Junction) (ts : List Token) : List Token :=
  match j.tail with
  | none => ts.map (Token.lowered j.lines)
  | some tail => (Token.beforeEnd ts).map (Token.lowered j.lines) ++ tail.tokens

/-- The state on the other side. -/
def state (j : Junction) (st : State) : State :=
  ⟨j.tokens st.tokens, st.nesting, st.diagnostics.map (Diagnostic.lowered j.lines)⟩

/-- The tokens go on, or the other side ends with them. -/
def Regular (j : Junction) (ts : List Token) : Prop := j.tail.isSome = true → content ts ≠ []

end Junction

/-! ## States with an end -/

/-- The last token of a state ends the text, and no other one does. -/
def State.EndsOnce (st : State) : Prop := ∃ last, st.tokens.dropWhile (·.kind ≠ .eof) = [last]

theorem State.EndsOnce.split {st : State} (h : st.EndsOnce) :
    ∃ last : Token, last.kind = .eof ∧ st.tokens = Token.beforeEnd st.tokens ++ [last] := by
  obtain ⟨last, hlast⟩ := h
  have hkind : last.kind = .eof := by
    have hhead := List.head?_dropWhile_not (fun t : Token => decide (t.kind ≠ .eof)) st.tokens
    rw [hlast] at hhead
    simpa using hhead
  refine ⟨last, hkind, ?_⟩
  rw [Token.beforeEnd, ← hlast, List.takeWhile_append_dropWhile]

theorem State.EndsOnce.ends {st : State} (h : st.EndsOnce) : st.Ends := by
  obtain ⟨last, hlast, htokens⟩ := h.split
  exact ⟨last, by rw [htokens]; simp, hlast⟩

theorem Moves.endsOnce {st st' : State} {used : List Token} (h : Moves st used st')
    (hst : st.EndsOnce) : st'.EndsOnce := by
  obtain ⟨last, hlast⟩ := hst
  rw [h.tokens, List.dropWhile_append_of_pos (by simpa using h.inside)] at hlast
  exact ⟨last, hlast⟩

theorem Moves.beforeEnd {st st' : State} {used : List Token} (h : Moves st used st') :
    Token.beforeEnd st.tokens = used ++ Token.beforeEnd st'.tokens := by
  rw [Token.beforeEnd, h.tokens, List.takeWhile_append_of_pos (by simpa using h.inside),
    Token.beforeEnd]

/-- What a state has in front of its end is what was read and what is left. -/
theorem Moves.content {st st' : State} {used : List Token} (h : Moves st used st') :
    content st.tokens = significant used ++ content st'.tokens := by
  rw [Grammar.content, h.beforeEnd, List.filter_append]
  rfl

/-- In front of the end of the text there is nothing left. -/
theorem content_of_current_eof {st : State} (h : st.current.kind = .eof) :
    content st.tokens = [] := by
  unfold State.current at h
  cases htokens : st.tokens with
  | nil => rfl
  | cons t ts => simp_all [Grammar.content, Token.beforeEnd]

theorem content_dropNewlines (st : State) : content st.dropNewlines.tokens = content st.tokens := by
  have hmoves := Moves.dropNewlines st
  rw [hmoves.content, significant_newlines, List.nil_append]
  intro t ht
  simpa using List.mem_takeWhile_imp ht

theorem content_settle (st : State) : content st.settle.tokens = content st.tokens := by
  unfold State.settle
  split
  · exact content_dropNewlines st
  · rfl

/-! ## The other side -/

namespace Junction

variable (j : Junction)

/-- What is read goes over to the other side. -/
theorem tokens_of_moves {st st' : State} {used : List Token} (h : Moves st used st') :
    j.tokens st.tokens = used.map (Token.lowered j.lines) ++ j.tokens st'.tokens := by
  obtain ⟨lines, tail⟩ := j
  cases tail with
  | none => simp only [tokens, h.tokens, List.map_append]
  | some tail => simp only [tokens, h.beforeEnd, List.map_append, List.append_assoc]

/-- A token that does not end the text is the first one on the other side. -/
theorem tokens_cons {t : Token} {ts : List Token} (h : j.tail.isSome = true → t.kind ≠ .eof) :
    j.tokens (t :: ts) = t.lowered j.lines :: j.tokens ts := by
  obtain ⟨lines, tail⟩ := j
  cases tail with
  | none => rfl
  | some tail => simp [tokens, Token.beforeEnd, h rfl]

variable {j} {st : State}

/-- Where the other side ends with the text, everything is regular. -/
theorem regular_of_none (h : j.tail = none) (ts : List Token) : j.Regular ts := by
  intro htail
  simp [h] at htail

theorem Regular.current (h : j.Regular st.tokens) (htail : j.tail.isSome = true) :
    st.current.kind ≠ .eof := fun heof => h htail (content_of_current_eof heof)

theorem Regular.before {st' : State} {used : List Token} (h : j.Regular st'.tokens)
    (hmoves : Moves st used st') : j.Regular st.tokens := by
  intro htail hnil
  rw [hmoves.content] at hnil
  exact h htail (List.append_eq_nil_iff.1 hnil).2

theorem Regular.settle (h : j.Regular st.tokens) : j.Regular st.settle.tokens := by
  intro htail
  rw [content_settle]
  exact h htail

/-- The other side is not shorter. -/
theorem length_le (j : Junction) (hst : st.EndsOnce) :
    st.tokens.length ≤ (j.state st).tokens.length := by
  obtain ⟨lines, tail⟩ := j
  obtain ⟨last, -, htokens⟩ := hst.split
  cases tail with
  | none => simp [Junction.state, tokens]
  | some tail =>
    rw [htokens]
    simp [Junction.state, tokens, Tail.tokens]

theorem length_state (h : j.tail = none) (st : State) :
    (j.state st).tokens.length = st.tokens.length := by
  simp [Junction.state, tokens, h]

theorem current_state (hst : st.EndsOnce) (h : j.tail.isSome = true → st.current.kind ≠ .eof) :
    (j.state st).current = st.current.lowered j.lines := by
  have hpos := hst.ends.length_pos
  unfold State.current at h ⊢
  cases htokens : st.tokens with
  | nil => simp [htokens] at hpos
  | cons t ts =>
    rw [htokens, List.headD_cons] at h
    simp [Junction.state, htokens, j.tokens_cons h]

theorem current_state_end {tail : Tail} (htail : j.tail = some tail) (h : st.current.kind = .eof) :
    (j.state st).current = tail.newline := by
  have hnil : Token.beforeEnd st.tokens = [] := by
    unfold State.current at h
    cases htokens : st.tokens with
    | nil => rfl
    | cons t ts => simp_all [Token.beforeEnd]
  simp [State.current, Junction.state, tokens, htail, hnil, Tail.tokens]

/-- Passing over tokens is the same on both sides unless it reaches the end of the text. -/
theorem tokens_dropWhile {p : Token.Kind → Bool} (hst : st.EndsOnce) (hp : p .eof = false)
    (h : j.tail.isSome = true →
      ({ st with tokens := st.tokens.dropWhile (p ·.kind) } : State).current.kind ≠ .eof) :
    (j.tokens st.tokens).dropWhile (p ·.kind) = j.tokens (st.tokens.dropWhile (p ·.kind)) := by
  have hmoves := Moves.dropWhile st (p ·.kind) fun t ht heof => by simp [heof, hp] at ht
  rw [j.tokens_of_moves hmoves, List.dropWhile_append_of_pos]
  · dsimp only
    have hhead := List.head?_dropWhile_not (p ·.kind) st.tokens
    cases hrest : st.tokens.dropWhile (p ·.kind) with
    | nil =>
      have hpos := (hmoves.endsOnce hst).ends.length_pos
      simp [hrest] at hpos
    | cons t ts =>
      rw [hrest, List.head?_cons] at hhead
      have hstop : p t.kind = false := hhead
      rw [j.tokens_cons fun htail => by simpa [State.current, hrest] using h htail]
      exact List.dropWhile_cons_of_neg (by simpa using hstop)
  · intro t ht
    obtain ⟨u, hu, rfl⟩ := List.mem_map.1 ht
    simpa using List.mem_takeWhile_imp hu

theorem dropNewlines_state_of_current (hst : st.EndsOnce)
    (h : j.tail.isSome = true → st.dropNewlines.current.kind ≠ .eof) :
    (j.state st).dropNewlines = j.state st.dropNewlines := by
  have htokens := tokens_dropWhile (p := fun kind => decide (kind = .newline)) hst rfl h
  simp only [State.dropNewlines, Junction.state, htokens]

theorem Regular.dropNewlines (h : j.Regular st.tokens) : j.Regular st.dropNewlines.tokens := by
  intro htail
  rw [content_dropNewlines]
  exact h htail

theorem dropNewlines_state (hst : st.EndsOnce) (h : j.Regular st.tokens) :
    (j.state st).dropNewlines = j.state st.dropNewlines :=
  dropNewlines_state_of_current hst h.dropNewlines.current

theorem settle_state (hst : st.EndsOnce) (h : 0 < st.nesting → j.Regular st.tokens) :
    (j.state st).settle = j.state st.settle := by
  unfold State.settle
  by_cases hnesting : 0 < st.nesting
  · rw [if_pos hnesting, if_pos (show 0 < (j.state st).nesting from hnesting),
      dropNewlines_state hst (h hnesting)]
  · rw [if_neg hnesting, if_neg (show ¬0 < (j.state st).nesting from hnesting)]

theorem settle_state_of_current (hst : st.EndsOnce)
    (h : j.tail.isSome = true → st.settle.current.kind ≠ .eof) :
    (j.state st).settle = j.state st.settle := by
  unfold State.settle at h ⊢
  by_cases hnesting : 0 < st.nesting
  · rw [if_pos hnesting] at h
    rw [if_pos hnesting, if_pos (show 0 < (j.state st).nesting from hnesting),
      dropNewlines_state_of_current hst h]
  · rw [if_neg hnesting, if_neg (show ¬0 < (j.state st).nesting from hnesting)]

theorem dropToken_state {t : Token} (hat : At st t) (heof : t.kind ≠ .eof) :
    (j.state st).dropToken = j.state st.dropToken := by
  have htokens := j.tokens_of_moves (hat.moves heof)
  simp only [State.dropToken, Junction.state] at htokens ⊢
  rw [htokens]
  rfl

/-- A token at the cursor is also there on the other side. -/
theorem at_state {t : Token} (hst : st.EndsOnce) (hat : At st t)
    (h : j.tail.isSome = true → t.kind ≠ .eof) : At (j.state st) (t.lowered j.lines) := by
  have hcurrent := current_state hst (hat.current ▸ h)
  rw [hat.current] at hcurrent
  refine ⟨?_, hcurrent⟩
  unfold State.settle
  split
  next hnesting =>
    have hsettled : st.dropNewlines = st := by
      have hsettled := hat.settled
      rwa [State.settle, if_pos (show 0 < st.nesting from hnesting)] at hsettled
    rw [dropNewlines_state_of_current hst, hsettled]
    rw [hsettled, hat.current]
    exact h
  next => rfl

/-- The first token behind line feeds. -/
theorem find?_state (hst : st.EndsOnce) (h : j.Regular st.tokens) :
    (j.state st).tokens.find? (·.kind ≠ .newline)
      = (st.tokens.find? (·.kind ≠ .newline)).map (Token.lowered j.lines) := by
  have hfind (st : State) :
      st.tokens.find? (·.kind ≠ .newline) = st.dropNewlines.tokens.head? := by
    rw [List.find?_eq_head?_dropWhile_not]
    simp [State.dropNewlines]
  rw [hfind, hfind, dropNewlines_state hst h]
  have hcurrent := h.dropNewlines.current
  have hpos := ((Moves.dropNewlines st).endsOnce hst).ends.length_pos
  cases htokens : st.dropNewlines.tokens with
  | nil => simp [htokens] at hpos
  | cons t ts =>
    rw [State.current, htokens, List.headD_cons] at hcurrent
    rw [Junction.state, htokens, j.tokens_cons hcurrent]
    rfl

theorem nextAfterNewlinesIs_state (hst : st.EndsOnce) (h : j.Regular st.tokens)
    (kind : Token.Kind) : (j.state st).nextAfterNewlinesIs kind = st.nextAfterNewlinesIs kind := by
  rw [State.nextAfterNewlinesIs, State.nextAfterNewlinesIs, find?_state hst h, Option.any_map]
  rfl

/-- Nothing behind the text continues the statement in front of its end. -/
theorem nextAfterNewlinesIs_apart (hst : st.EndsOnce) {kind : Token.Kind}
    (h : kind = .kwElse ∨ kind = .kwFinally) :
    (j.state st).nextAfterNewlinesIs kind = st.nextAfterNewlinesIs kind := by
  by_cases hregular : j.Regular st.tokens
  · exact nextAfterNewlinesIs_state hst hregular kind
  · obtain ⟨htail, hcontent⟩ := Classical.not_imp.1 hregular
    obtain ⟨tail, htail⟩ := Option.isSome_iff_exists.1 htail
    obtain ⟨last, hlast, htokens⟩ := hst.split
    have hnewlines : ∀ t ∈ Token.beforeEnd st.tokens, t.kind = .newline := by
      simpa [Grammar.content] using hcontent
    have hnone : (Token.beforeEnd st.tokens).find? (·.kind ≠ .newline) = none := by
      simpa using hnewlines
    -- only line feeds are left of the text: it ends behind them, and the tail goes on with another word
    have hleft : st.nextAfterNewlinesIs kind = false := by
      rw [State.nextAfterNewlinesIs, htokens, List.find?_append, hnone]
      rcases h with rfl | rfl <;> simp [hlast]
    have hright : (j.state st).nextAfterNewlinesIs kind = false := by
      have hnone' : ((Token.beforeEnd st.tokens).map (Token.lowered j.lines)).find?
          (·.kind ≠ .newline) = none := by
        rw [List.find?_eq_none]
        intro t ht
        obtain ⟨u, hu, rfl⟩ := List.mem_map.1 ht
        simp only [decide_eq_true_eq]
        exact not_not_intro (hnewlines u hu)
      rw [← tail.apart kind h]
      simp only [State.nextAfterNewlinesIs, Junction.state, tokens, htail, List.find?_append, hnone',
        Tail.tokens, Option.none_or]
      rw [List.find?_cons_of_neg]
      simp [tail.newline_kind]
    rw [hleft, hright]

end Junction

end Welle.Parser
