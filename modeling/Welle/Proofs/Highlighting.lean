import Welle.Operator
import Welle.Proofs.Cursors
import Welle.Proofs.Spelling

set_option autoImplicit false

/-! # What is highlighted

An editor takes the highlighted tokens of a text relative to each other and adds them up again. That
gives the tokens back if none of the differences would be negative, so if they are in order. They
are found in the order of the text: a token ends in front of the next one, and the part of it that
is highlighted ends with its first line. So what is highlighted ends on its line, and in front of
what is highlighted next. -/

namespace Welle

/-! ## Kinds -/

namespace Token.Kind

/-- The kinds of operators: what stands in front of an operand or between two, what assigns, and
    the marks of a choice, of a member and of a spread. -/
def isOperator (kind : Kind) : Bool :=
  (PrefixOp.ofKind? kind).isSome || (InfixOp.ofKind? kind).isSome
    || (AssignOp.ofKind? kind).isSome || kind = .question || kind = .dot || kind = .ellipsis

/-- The kinds of tokens that are highlighted: keywords, strings and templates, numbers, identifiers
    and operators. -/
def isHighlighted (kind : Kind) : Bool :=
  kind.isKeyword || kind = .str || kind = .template || kind = .int || kind = .float
    || kind = .ident || kind.isOperator

theorem legal_of_isHighlighted {kind : Kind} (h : kind.isHighlighted = true) : kind ≠ .illegal := by
  rintro rfl
  cases h

end Token.Kind

namespace Editor

theorem Style.isSome_ofKind? (kind : Token.Kind) :
    (Style.ofKind? kind).isSome = kind.isHighlighted := by
  cases kind <;> rfl

/-! ## First lines -/

/-- What is highlighted of a token: its first line. -/
def firstLine (t : Token) : List Char := t.lexeme.toList.takeWhile (· ≠ '\n')

theorem newline_not_mem_firstLine (t : Token) : '\n' ∉ firstLine t := by
  intro hmem
  simpa using List.mem_takeWhile_imp hmem

/-- Only a line feed has nothing on its first line. -/
theorem firstLine_ne_nil {t : Token} {pos : Position} {cs : List Char}
    (ht : t ∈ Token.tokensFrom pos cs) (hkind : t.kind.isHighlighted = true) :
    firstLine t ≠ [] := by
  obtain ⟨before, behind, -, rfl⟩ := Token.mem_tokensFrom ht
  cases behind with
  | nil => cases hkind
  | cons c rest =>
    have hfeed : c ≠ '\n' := by
      rintro rfl
      cases hkind
    have htext : (Token.ofHead (pos.after before) (c :: rest)).lexeme.toList
        = (Token.scan c rest).text :=
      (Token.written_scan c rest).spelled (Token.Kind.legal_of_isHighlighted hkind)
    obtain ⟨cs, hcs⟩ := List.head?_eq_some_iff.1 (Token.scan_head c rest)
    rw [firstLine, htext, hcs, List.takeWhile_cons_of_pos (by simpa using hfeed)]
    exact List.cons_ne_nil _ _

theorem highlightLength_eq {t : Token} (h : firstLine t ≠ []) :
    highlightLength t = Text.unitLength (firstLine t) := by
  have hlexeme : t.lexeme.isEmpty = false := by
    by_contra hempty
    have hnil : t.lexeme.toList = [] := by simpa using hempty
    exact h (by rw [firstLine, hnil, List.takeWhile_nil])
  rw [highlightLength, hlexeme]
  rfl

/-! ## Single tokens -/

/-- A highlighted token shows a token of a text: it starts where the lexeme stands in the text, and
    is as long as the first line of the lexeme. -/
structure Highlight.Shows (text : String) (t : Token) (h : Highlight) : Prop where
  stands : HasAt text t.pos t.lexeme
  start : h.start = cursorOf text t.pos
  length : h.length = Text.unitLength (firstLine t)
  style : t.kind ≠ .ident → Style.ofKind? t.kind = some h.style

/-- One highlighted token starts before another one and ends on its line in front of it. -/
structure Highlight.Before (a b : Highlight) : Prop where
  starts : a.start.line < b.start.line
    ∨ a.start.line = b.start.line ∧ a.start.character < b.start.character
  ends : a.start.line = b.start.line → a.start.character + a.length ≤ b.start.character

variable {text : String} {names : List (Position × NameStyle)} {t u : Token} {h h' : Highlight}

theorem hasAt_of_mem (ht : t ∈ Token.tokenize text) (hlegal : t.kind ≠ .illegal) :
    HasAt text t.pos t.lexeme := by
  obtain ⟨before, behind, htext, rfl⟩ := Token.mem_tokensFrom ht
  obtain ⟨rest, hrest⟩ := Token.lexeme_ofHead hlegal
  exact ⟨before, rest, by rw [htext, hrest], Token.pos_ofHead _ _⟩

theorem ofToken?_of_not_highlighted (hkind : t.kind.isHighlighted = false) :
    Highlight.ofToken? text names t = none := by
  rw [← Style.isSome_ofKind?, Option.isSome_eq_false_iff, Option.isNone_iff_eq_none] at hkind
  rw [Highlight.ofToken?, hkind]
  rfl

theorem exists_ofToken? (names : List (Position × NameStyle)) (ht : t ∈ Token.tokenize text)
    (hkind : t.kind.isHighlighted = true) :
    ∃ h, Highlight.ofToken? text names t = some h ∧ h.Shows text t := by
  obtain ⟨style, hstyle⟩ := Option.isSome_iff_exists.1 ((Style.isSome_ofKind? t.kind).trans hkind)
  have hline := firstLine_ne_nil ht hkind
  have hlength : highlightLength t ≠ 0 := by
    rw [highlightLength_eq hline]
    exact Nat.ne_of_gt (Text.unitLength_pos hline)
  let name := if t.kind = .ident then names.lookup t.pos else none
  have hfound : Highlight.ofToken? text names t = some ⟨cursorOf text t.pos, highlightLength t,
      (name.map (·.style)).getD style, (name.map (·.declared)).getD false⟩ := by
    simp [Highlight.ofToken?, hstyle, guard, hlength, name]
  refine ⟨_, hfound, ?_⟩
  exact {
    stands := hasAt_of_mem ht (Token.Kind.legal_of_isHighlighted hkind)
    start := rfl
    length := highlightLength_eq hline
    style := fun hident => by simp [hident, hstyle, name] }

theorem shows_of_ofToken? (ht : t ∈ Token.tokenize text)
    (hfound : Highlight.ofToken? text names t = some h) :
    t.kind.isHighlighted = true ∧ h.Shows text t := by
  cases hkind : t.kind.isHighlighted with
  | true =>
    obtain ⟨h', hfound', hshows⟩ := exists_ofToken? names ht hkind
    obtain rfl := Option.some.inj (hfound.symm.trans hfound')
    exact ⟨rfl, hshows⟩
  | false =>
    rw [ofToken?_of_not_highlighted hkind] at hfound
    cases hfound

/-- What is highlighted of a token ends in front of the token behind it. -/
theorem before_of_shows (ht : h.Shows text t) (hu : h'.Shows text u) (hline : firstLine t ≠ [])
    (hle : t.pos.after t.lexeme.toList ≤ u.pos) : h.Before h' := by
  obtain ⟨before, behind, htext, hpos⟩ := ht.stands
  obtain ⟨before', behind', htext', hpos'⟩ := hu.stands
  have hprefix : before ++ t.lexeme.toList <+: before' := by
    rw [hpos, hpos', ← Position.after_append] at hle
    exact prefix_of_after_le ⟨behind, by rw [htext, List.append_assoc]⟩ ⟨_, htext'.symm⟩ hle
  -- the first line of the lexeme is a beginning of it, so it ends no later
  obtain ⟨gap, hgap⟩ : before ++ firstLine t <+: before' :=
    ((List.prefix_append_right_inj before).2 (List.takeWhile_prefix _)).trans hprefix
  have hstart : h.start = endCursor (String.ofList before) := by
    rw [ht.start, hpos, cursorOf_after htext]
  have hend : endCursor (String.ofList (before ++ firstLine t))
      = ⟨h.start.line, h.start.character + h.length⟩ := by
    rw [hstart, ht.length]
    simp [endCursor, lastLine_append before (newline_not_mem_firstLine t), Text.unitLength_append,
      List.count_eq_zero_of_not_mem (newline_not_mem_firstLine t)]
  have hnext : h'.start = endCursor (String.ofList before') := by
    rw [hu.start, hpos', cursorOf_after htext']
  have horder := endCursor_append (before ++ firstLine t) gap
  rw [hgap, hend, ← hnext, notAfter_iff] at horder
  have hpositive : 0 < h.length := ht.length ▸ Text.unitLength_pos hline
  dsimp only at horder
  exact ⟨by omega, by omega⟩

/-! ## All tokens -/

/-- What a text shows is one highlighted token for each token of a highlighted kind, in order. -/
theorem forall₂_ofToken? {tokens : List Token} (hsub : tokens ⊆ Token.tokenize text) :
    List.Forall₂ (fun t h => h.Shows text t) (tokens.filter (·.kind.isHighlighted))
      (tokens.filterMap (Highlight.ofToken? text names)) := by
  induction tokens with
  | nil => exact .nil
  | cons t ts ih =>
    obtain ⟨ht, hts⟩ := List.cons_subset.1 hsub
    cases hkind : t.kind.isHighlighted with
    | true =>
      obtain ⟨h, hfound, hshows⟩ := exists_ofToken? names ht hkind
      rw [List.filter_cons, if_pos hkind, List.filterMap_cons_some hfound]
      exact .cons hshows (ih hts)
    | false =>
      have hnot : ¬t.kind.isHighlighted = true := by simp [hkind]
      rw [List.filter_cons, if_neg hnot,
        List.filterMap_cons_none (ofToken?_of_not_highlighted hkind)]
      exact ih hts

/-- The highlighted tokens are found in order, so sorting them changes nothing. -/
theorem pairwise_ofToken? (names : List (Position × NameStyle)) (text : String) :
    ((Token.tokenize text).filterMap (Highlight.ofToken? text names)).Pairwise
      Highlight.Before := by
  rw [List.pairwise_filterMap]
  refine (Token.pairwise_lexemes .start text.toList).imp_of_mem ?_
  intro t u ht hu hle a ha b hb
  obtain ⟨hkind, hshows⟩ := shows_of_ofToken? ht ha
  obtain ⟨-, hshows'⟩ := shows_of_ofToken? hu hb
  exact before_of_shows hshows hshows' (firstLine_ne_nil ht hkind)
    (hle (Token.Kind.legal_of_isHighlighted hkind))

theorem Highlight.Before.notAfter {a b : Highlight} (h : a.Before b) :
    a.start.notAfter b.start := by
  rw [notAfter_iff]
  obtain hline | ⟨hline, hcharacter⟩ := h.starts
  · exact .inl hline
  · exact .inr ⟨hline, Nat.le_of_lt hcharacter⟩

theorem highlights_eq (text : String) : highlights text
    = (Token.tokenize text).filterMap (Highlight.ofToken? text (nameStyles (.ofText text))) :=
  List.mergeSort_of_pairwise ((pairwise_ofToken? _ text).imp Highlight.Before.notAfter)

/-! ## Relative tokens -/

/-- The difference of two numbers, if it is not negative. -/
def sub? (a b : Nat) : Option Nat := if b ≤ a then some (a - b) else none

theorem sub?_eq_some {a b : Nat} (h : b ≤ a) : sub? a b = some (a - b) := if_pos h

/-- The tokens relative to each other, if no difference that is taken for them is negative. -/
def relative? (previous : Cursor) : List Highlight → Option (List RelativeToken)
  | [] => some []
  | h :: rest => do
    let lines ← sub? h.start.line previous.line
    let characters ←
      if lines = 0 then sub? h.start.character previous.character else some h.start.character
    let following ← relative? h.start rest
    return ⟨lines, characters, h.length, h.style, h.declared⟩ :: following

/-- The cursor that is `lines` and `characters` away. On a new line characters count from the start
    of the line. -/
def Cursor.moved (c : Cursor) (lines characters : Nat) : Cursor :=
  if 0 < lines then ⟨c.line + lines, characters⟩ else ⟨c.line, c.character + characters⟩

/-- The tokens that an editor has from relative ones, the first of them relative to `previous`. -/
def decode (previous : Cursor) : List RelativeToken → List Highlight
  | [] => []
  | t :: rest =>
    let start := previous.moved t.lines t.characters
    ⟨start, t.length, t.style, t.declared⟩ :: decode start rest

/-- The differences of two cursors lead from the one to the other. -/
theorem Cursor.moved_eq {a b : Cursor} (h : a.notAfter b) : a.moved (b.line - a.line)
    (if b.line - a.line = 0 then b.character - a.character else b.character) = b := by
  rw [notAfter_iff] at h
  obtain ⟨line, character⟩ := b
  obtain hline | ⟨hline, hcharacter⟩ := h
  · have hnew : 0 < line - a.line := Nat.sub_pos_of_lt hline
    rw [if_neg (Nat.ne_of_gt hnew), moved, if_pos hnew, Nat.add_sub_cancel' (Nat.le_of_lt hline)]
  · have hsame : line - a.line = 0 := Nat.sub_eq_zero_of_le (Nat.le_of_eq hline.symm)
    rw [if_pos hsame, hsame, moved, if_neg (Nat.lt_irrefl 0), Nat.add_sub_cancel' hcharacter, hline]

variable {previous : Cursor} {hs : List Highlight}

/-- No difference is negative if nothing starts in front of what is before it. -/
theorem relative?_eq_some
    (h : (previous :: hs.map (·.start)).Pairwise fun a b => a.notAfter b) :
    relative? previous hs = some (relative previous hs) := by
  induction hs generalizing previous with
  | nil => rfl
  | cons first rest ih =>
    have horder : previous.notAfter first.start := List.rel_of_pairwise_cons h List.mem_cons_self
    have hrest := ih h.of_cons
    rw [notAfter_iff] at horder
    obtain hline | ⟨hline, hcharacter⟩ := horder
    · have hlines := sub?_eq_some (Nat.le_of_lt hline)
      have hnew : first.start.line - previous.line ≠ 0 := Nat.sub_ne_zero_of_lt hline
      simp [relative?, relative, hlines, hnew, hrest]
    · have hlines := sub?_eq_some (Nat.le_of_eq hline)
      have hcharacters := sub?_eq_some hcharacter
      have hsame : first.start.line - previous.line = 0 := by omega
      simp [relative?, relative, hlines, hsame, hcharacters, hrest]

/-- Relative tokens lead back to the ones they were made from. -/
theorem decode_relative
    (h : (previous :: hs.map (·.start)).Pairwise fun a b => a.notAfter b) :
    decode previous (relative previous hs) = hs := by
  induction hs generalizing previous with
  | nil => rfl
  | cons first rest ih =>
    have horder : previous.notAfter first.start := List.rel_of_pairwise_cons h List.mem_cons_self
    rw [relative, decode]
    simp only [Cursor.moved_eq horder]
    rw [ih h.of_cons]

/-- The differences between the highlighted tokens of a text are never negative. What an editor has
    from them starts and ends in order, without overlaps, and is one highlighted token for each
    token of the text that is highlighted: it starts where the token does and is as long as the
    first line of its lexeme. -/
theorem decode_semanticTokens (text : String) :
    relative? ⟨0, 0⟩ (highlights text) = some (semanticTokens text)
    ∧ (decode ⟨0, 0⟩ (semanticTokens text)).Pairwise Highlight.Before
    ∧ List.Forall₂ (fun t h => h.Shows text t)
        ((Token.tokenize text).filter (·.kind.isHighlighted))
        (decode ⟨0, 0⟩ (semanticTokens text)) := by
  have hbefore := pairwise_ofToken? (nameStyles (.ofText text)) text
  rw [← highlights_eq] at hbefore
  -- the first difference is taken from the start of the text
  have horder : ((⟨0, 0⟩ : Cursor) :: (highlights text).map (·.start)).Pairwise
      fun a b => a.notAfter b := by
    refine List.pairwise_cons.2 ⟨fun c _ => ?_, List.pairwise_map.2 ?_⟩
    · rw [notAfter_iff]
      dsimp only
      omega
    · exact hbefore.imp Highlight.Before.notAfter
  rw [semanticTokens, decode_relative horder]
  refine ⟨relative?_eq_some horder, hbefore, ?_⟩
  rw [highlights_eq]
  exact forall₂_ofToken? (List.Subset.refl _)

end Editor

end Welle
