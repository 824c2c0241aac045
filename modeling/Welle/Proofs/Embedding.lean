import Mathlib
import Welle.Proofs.Append.Tokens
import Welle.Proofs.Stretches
import Welle.Tree.Printer

set_option autoImplicit false

/-! # Texts that can stand in a template

Between the braces of an interpolation the lexer looks for quotations, comments and braces only. A
text of its own tokens gets through if each of its tokens does. Words, numbers, operators, plain and
raw strings always do. A string between triple quotes and a template are read as something else
there: as quotations that alternate with bare text. They get through if that bare text has no brace,
slash or quotation mark in it that stands alone (`Flat`); `embeds_iff` says what holds without that
condition. -/

namespace Welle.Token

/-- What is skipped in front of each token of a text. -/
def gaps (cs : List Char) : List (List Char) :=
  match _h : skipGap cs with
  | (gap, []) => [gap]
  | (gap, c :: rest) => gap :: gaps (scan c rest).rest
termination_by cs.length
decreasing_by
  have hgap := Text.length_snd_le (skipGap_append cs)
  have hscan := scan_rest_length c rest
  simp only [_h, List.length_cons] at hgap
  omega

theorem gaps_of_end {cs gap : List Char} (h : skipGap cs = (gap, [])) : gaps cs = [gap] := by
  rw [gaps]
  split
  next found hfound => rw [(Prod.mk.inj (hfound.symm.trans h)).1]
  next hfound => cases hfound.symm.trans h

theorem gaps_of_token {cs gap rest : List Char} {c : Char} (h : skipGap cs = (gap, c :: rest)) :
    gaps cs = gap :: gaps (scan c rest).rest := by
  rw [gaps]
  split
  next hfound => cases hfound.symm.trans h
  next hfound =>
    cases hfound.symm.trans h
    rfl

/-- The number of braces open behind the tokens when `depth` are open in front of them; `none` if a
    brace is closed that was not opened. -/
def openBraces : (depth : Nat) → List Token → Option Nat
  | depth, [] => some depth
  | depth, t :: ts =>
    if t.kind = .lbrace then openBraces (depth + 1) ts
    else if t.kind ≠ .rbrace then openBraces depth ts
    else if depth = 0 then none
    else openBraces (depth - 1) ts

theorem openBraces_cons (depth : Nat) (t : Token) (ts : List Token) :
    openBraces depth (t :: ts) = (openBraces depth [t]).bind (openBraces · ts) := by
  simp only [openBraces]
  repeat' split
  all_goals rfl

/-- A text that is one lexeme as a whole has one token in front of its end. -/
theorem tokenize_of_scan {text : String} {c : Char} {cs : List Char} (htext : text.toList = c :: cs)
    (hgap : skipGap (c :: cs) = ([], c :: cs)) (hrest : (scan c cs).rest = []) :
    tokenize text = [⟨(scan c cs).kind, (scan c cs).literal, (scan c cs).raw, .start⟩,
      endOfText (endPosition text)] := by
  have happend := scan_append c cs
  rw [hrest, List.append_nil] at happend
  have hend : Position.start.after (c :: cs) = endPosition text := by
    rw [after_start_eq_endPosition, ← htext, String.ofList_toList]
  rw [tokenize, tokenizeAt, htext, tokensFrom_of_skipGap hgap, hrest, tokensFrom_nil, happend,
    Position.after_nil, hend]

end Welle.Token

namespace Welle.Template

/-! ## Flat text -/

/-- Text that consists of quotations and of characters that stand for themselves. -/
inductive Flat : List Char → Prop where
  | nil : Flat []
  | char {c : Char} {cs : List Char} : IsOrdinary c → c ≠ '/' → Flat cs → Flat (c :: cs)
  | quoted {mark : Char} {body cs : List Char} :
      mark = '"' ∨ mark = Text.backtick → Quotation mark body → Flat cs →
      Flat (mark :: (body ++ cs))

theorem Flat.passes {C : List Char → Prop} {text cs : List Char} {depth : Nat} (h : Flat text)
    (hcs : Passes C depth cs) : Passes C depth (text ++ cs) := by
  induction h with
  | nil => exact hcs
  | char hc hslash _ ih => exact .char hc (fun h => absurd h hslash) ih
  | @quoted mark body text hmark hbody _ ih =>
    rw [List.cons_append, List.append_assoc]
    exact .quoted hmark hbody ih

theorem flat_of_forall {text : List Char} (h : ∀ c ∈ text, IsOrdinary c ∧ c ≠ '/') : Flat text := by
  induction text with
  | nil => exact .nil
  | cons c text ih =>
    rw [List.forall_mem_cons] at h
    exact .char h.1.1 h.1.2 (ih h.2)

theorem isOrdinary_of_isIdentContinue {c : Char} (h : Token.isIdentContinue c = true) :
    IsOrdinary c ∧ c ≠ '/' := by
  refine ⟨⟨?_, ?_, ?_, ?_⟩, ?_⟩
  all_goals
    rintro rfl
    exact absurd h (by decide)

/-- A character that is neither a quote nor a backslash is part of the string it stands in. -/
theorem stringBody_char {c : Char} {cs : List Char} (hquote : c ≠ '"') (hescape : c ≠ '\\')
    (hclosed : (Token.stringBody (c :: cs)).closed = true) :
    Token.stringBody (c :: cs) = (Token.stringBody cs).push [c] [c] := by
  rw [Token.stringBody.eq_def] at hclosed ⊢
  simp only [if_neg hquote, if_neg hescape] at hclosed ⊢
  split at hclosed
  next => cases hclosed
  next hfeed => rw [if_neg hfeed]

/-- A plain string is a quotation. -/
theorem quotation_stringBody {cs : List Char} (h : (Token.stringBody cs).closed = true) :
    Quotation '"' (Token.stringBody cs).text := by
  fun_induction Token.stringBody cs with
  | case1 | case2 | case4 => cases h
  | case3 => exact .close
  | case5 e rest _ _ d hd ih => exact .escape rfl (ih h)
  | case6 e rest hnone _ _ ih =>
    -- the next character is neither a quote nor a backslash, so it may as well be taken along
    have hquote : e ≠ '"' := by rintro rfl; cases hnone
    have hescape : e ≠ '\\' := by rintro rfl; cases hnone
    change (Token.stringBody (e :: rest)).closed = true at h
    have hbody := ih h
    show Quotation '"' ('\\' :: (Token.stringBody (e :: rest)).text)
    rw [stringBody_char hquote hescape h] at hbody ⊢
    change Quotation '"' (e :: (Token.stringBody rest).text) at hbody
    show Quotation '"' ('\\' :: e :: (Token.stringBody rest).text)
    generalize (Token.stringBody rest).text = body at hbody ⊢
    cases hbody with
    | close => exact absurd rfl hquote
    | escape => exact absurd rfl hescape
    | char _ _ hrest => exact .escape rfl hrest
  | case7 c cs _ hquote hescape ih => exact .char hquote (fun hc => hescape hc.1) (ih h)

/-- A raw string is a quotation. -/
theorem quotation_takeWhile {mark : Char} (hmark : mark ≠ '"') (cs : List Char) :
    Quotation mark (cs.takeWhile (· ≠ mark) ++ [mark]) := by
  induction cs with
  | nil => exact .close
  | cons c cs ih =>
    by_cases hc : c = mark
    · simpa [hc] using Quotation.close
    · rw [List.takeWhile_cons_of_pos (by simpa using hc)]
      exact .char hc (fun h => hmark h.2) ih

/-! ## Tokens -/

/-- The characters of a number continue a word, or are a point or a sign. -/
def IsNumeric (c : Char) : Prop := Token.isIdentContinue c = true ∨ c = '.' ∨ c = '+' ∨ c = '-'

theorem IsNumeric.isOrdinary {c : Char} (h : IsNumeric c) : IsOrdinary c ∧ c ≠ '/' := by
  rcases h with h | rfl | rfl | rfl
  · exact isOrdinary_of_isIdentContinue h
  all_goals exact ⟨⟨by decide, by decide, by decide, by decide⟩, by decide⟩

theorem isNumeric_of_isGrouped {c : Char} (h : Token.isGrouped c = true) : IsNumeric c := by
  left
  unfold Token.isGrouped at h
  rcases Bool.or_eq_true_iff.1 h with h | h
  · simp [Token.isIdentContinue, h]
  · rw [of_decide_eq_true h]
    rfl

theorem isNumeric_takeFraction {cs : List Char} : ∀ c ∈ (Token.takeFraction cs).1, IsNumeric c := by
  intro c hc
  unfold Token.takeFraction at hc
  split at hc
  · split at hc
    · rcases List.mem_cons.1 hc with rfl | hc
      · exact .inr (.inl rfl)
      · exact isNumeric_of_isGrouped (List.mem_takeWhile_imp hc)
    · cases hc
  · cases hc

theorem isNumeric_takeExponent {cs : List Char} : ∀ c ∈ (Token.takeExponent cs).1, IsNumeric c := by
  have hmark (e : Char) (he : (e = 'e' || e = 'E') = true) : IsNumeric e := by
    rcases Bool.or_eq_true_iff.1 he with he | he
    all_goals
      rw [of_decide_eq_true he]
      exact .inl rfl
  intro c hc
  unfold Token.takeExponent at hc
  split at hc
  · split at hc
    next hmarked =>
      split at hc
      · split at hc
        next hsign =>
          rcases List.mem_cons.1 hc with rfl | hc
          · exact hmark _ hmarked
          rcases List.mem_cons.1 hc with rfl | hc
          · right; right
            simpa using hsign
          · exact isNumeric_of_isGrouped (List.mem_takeWhile_imp hc)
        next =>
          rcases List.mem_cons.1 hc with rfl | hc
          · exact hmark _ hmarked
          · exact isNumeric_of_isGrouped (List.mem_takeWhile_imp hc)
      · rw [List.mem_singleton.1 hc]
        exact hmark _ hmarked
    · cases hc
  · cases hc

theorem isNumeric_scanDecimal {cs : List Char} : ∀ c ∈ (Token.scanDecimal cs).text, IsNumeric c := by
  intro c hc
  simp only [Token.scanDecimal, Token.Lexeme.plain, List.mem_append] at hc
  rcases hc with ((hc | hc) | hc) | hc
  · exact isNumeric_of_isGrouped (List.mem_takeWhile_imp hc)
  · exact isNumeric_takeFraction c hc
  · exact isNumeric_takeExponent c hc
  · exact .inl (List.mem_takeWhile_imp hc)

theorem isNumeric_scanNumber {cs : List Char} : ∀ c ∈ (Token.scanNumber cs).text, IsNumeric c := by
  intro c hc
  unfold Token.scanNumber at hc
  split at hc
  · split at hc
    next hmark =>
      rcases List.mem_cons.1 hc with rfl | hc
      · exact .inl rfl
      rcases List.mem_cons.1 hc with rfl | hc
      · left
        simp only [Token.isBaseMark, Bool.or_eq_true, decide_eq_true_eq] at hmark
        rcases hmark with ((((rfl | rfl) | rfl) | rfl) | rfl) | rfl
        all_goals rfl
      · have hdigit := List.mem_takeWhile_imp hc
        rcases Bool.or_eq_true_iff.1 hdigit with h | h
        · left
          simp only [Char.isAlphanum, Bool.or_eq_true] at h
          rcases h with h | h <;> simp [Token.isIdentContinue, Token.isIdentStart, h]
        · rw [of_decide_eq_true h]
          exact .inl rfl
    · exact isNumeric_scanDecimal c hc
  · exact isNumeric_scanDecimal c hc

/-- How a lexeme reads between the braces of an interpolation: it is flat, a brace, or starts with a
    slash. -/
inductive Shape (l : Token.Lexeme) : Prop where
  | flat (hopen : l.kind ≠ .lbrace) (hclose : l.kind ≠ .rbrace) (hflat : Flat l.text)
  | opening (hkind : l.kind = .lbrace) (htext : l.text = ['{'])
  | closing (hkind : l.kind = .rbrace) (htext : l.text = ['}'])
  | slash {more : List Char} (hopen : l.kind ≠ .lbrace) (hclose : l.kind ≠ .rbrace)
      (htext : l.text = '/' :: more) (hflat : Flat more)

/-- The characters of an operator other than a brace. Only the first of them may be a slash. -/
theorem isOrdinary_describe {kind : Token.Kind} (hkind : kind.isPunctuation = true)
    (hopen : kind ≠ .lbrace) (hclose : kind ≠ .rbrace) :
    (∀ d ∈ kind.describe.toList, IsOrdinary d) ∧ ∀ d ∈ kind.describe.toList.tail, d ≠ '/' := by
  unfold IsOrdinary
  cases kind
  all_goals first
    | exact absurd hkind (by decide)
    | exact absurd rfl hopen
    | exact absurd rfl hclose
    | simp [Token.Kind.describe, Text.backtick]

/-- An operator is a brace, or of ordinary characters the first of which may be a slash. -/
theorem punctuation_text {c : Char} {cs : List Char} {kind : Token.Kind} {width : Nat}
    (h : Token.punctuation? (c :: cs) = some (kind, width)) :
    (kind = .lbrace ∧ c = '{' ∧ width = 1) ∨ (kind = .rbrace ∧ c = '}' ∧ width = 1)
      ∨ (kind ≠ .lbrace ∧ kind ≠ .rbrace ∧ IsOrdinary c
        ∧ ∀ d ∈ cs.take (width - 1), IsOrdinary d ∧ d ≠ '/') := by
  obtain ⟨hkind, text, rest, rfl, htext, rfl⟩ := Token.punctuation_spelled h
  by_cases hopen : kind = .lbrace
  · subst hopen
    cases htext
    exact .inl ⟨rfl, rfl, rfl⟩
  by_cases hclose : kind = .rbrace
  · subst hclose
    cases htext
    exact .inr (.inl ⟨rfl, rfl, rfl⟩)
  obtain ⟨hordinary, hslash⟩ := isOrdinary_describe hkind hopen hclose
  rw [htext] at hordinary hslash
  rw [Nat.add_sub_cancel, List.take_left]
  exact .inr (.inr ⟨hopen, hclose, hordinary c List.mem_cons_self, fun d hd =>
    ⟨hordinary d (List.mem_cons_of_mem _ hd), hslash d hd⟩⟩)

theorem shape_scanPunctuation {c : Char} {cs : List Char}
    (hlegal : (Token.scanPunctuation c cs).kind ≠ .illegal) :
    Shape (Token.scanPunctuation c cs) := by
  unfold Token.scanPunctuation at hlegal ⊢
  split
  next kind width h =>
    rcases punctuation_text h with ⟨rfl, rfl, rfl⟩ | ⟨rfl, rfl, rfl⟩ | ⟨hopen, hclose, hc, hcs⟩
    · exact .opening rfl rfl
    · exact .closing rfl rfl
    · by_cases hslash : c = '/'
      · exact .slash hopen hclose (by rw [hslash]; rfl) (flat_of_forall hcs)
      · exact .flat hopen hclose (.char hc hslash (flat_of_forall hcs))
  next hnone =>
    rw [hnone] at hlegal
    exact absurd rfl hlegal

section Body

variable {b : Token.Body} {kind : Token.Kind} {fault : Token.Fault} {mark : List Char}

theorem closed_body (h : (b.lexeme kind fault mark).kind ≠ .illegal) : b.closed = true := by
  by_contra hopen
  rw [Token.Body.lexeme, if_neg hopen] at h
  exact h rfl

theorem kind_body (h : (b.lexeme kind fault mark).kind ≠ .illegal) :
    (b.lexeme kind fault mark).kind = kind := by
  rw [Token.Body.lexeme, if_pos (closed_body h)]
  rfl

theorem text_body (h : (b.lexeme kind fault mark).kind ≠ .illegal) :
    (b.lexeme kind fault mark).text = mark ++ b.text := by
  rw [Token.Body.lexeme, if_pos (closed_body h)]
  rfl

theorem kind_body_ne {other : Token.Kind} (h : (b.lexeme kind fault mark).kind ≠ .illegal)
    (hother : kind ≠ other) : (b.lexeme kind fault mark).kind ≠ other := by
  rwa [kind_body h]

end Body

theorem shape_scanRaw {cs : List Char} (hlegal : (Token.scanRaw cs).kind ≠ .illegal) :
    Shape (Token.scanRaw cs) := by
  have hmark : Text.backtick ≠ '"' := by decide
  have hquotation := quotation_takeWhile hmark cs
  unfold Token.scanRaw at hlegal ⊢
  split
  next hopen =>
    rw [hopen] at hlegal
    exact absurd rfl hlegal
  next close rest hclose =>
    obtain rfl : close = Text.backtick := by
      have hstop := List.head?_dropWhile_not (· ≠ Text.backtick) cs
      rw [hclose] at hstop
      simpa using hstop
    have hflat := Flat.quoted (.inr rfl) hquotation .nil
    rw [List.append_nil] at hflat
    exact .flat (by rintro ⟨⟩) (by rintro ⟨⟩) hflat

theorem shape_scan {c : Char} {cs : List Char} (hlegal : (Token.scan c cs).kind ≠ .illegal)
    (hflat : (Token.scan c cs).kind = .template ∨ Token.tripleQuote <+: (Token.scan c cs).text →
      Flat (Token.scan c cs).text) : Shape (Token.scan c cs) := by
  -- the branches of the lexer, in their order
  unfold Token.scan at hlegal hflat ⊢
  split
  next hcomment =>
    rw [if_pos hcomment] at hlegal
    exact absurd rfl hlegal
  next hcomment =>
  rw [if_neg hcomment] at hlegal hflat
  split
  next hfeed =>
    rw [hfeed]
    exact .flat (by rintro ⟨⟩) (by rintro ⟨⟩)
      (flat_of_forall (by simp [Token.Lexeme.plain, IsOrdinary, Text.backtick]))
  next hfeed =>
  rw [if_neg hfeed] at hlegal hflat
  split
  next hquote =>
    rw [if_pos hquote] at hlegal hflat
    split
    next htriple =>
      rw [if_pos htriple] at hlegal hflat
      exact .flat (kind_body_ne hlegal (by decide)) (kind_body_ne hlegal (by decide))
        (hflat (.inr (text_body hlegal ▸ List.prefix_append ..)))
    next htriple =>
      rw [if_neg htriple] at hlegal
      have htext := text_body hlegal
      have hclosed := closed_body hlegal
      refine .flat (kind_body_ne hlegal (by decide)) (kind_body_ne hlegal (by decide)) ?_
      show Flat ((Token.stringBody cs).lexeme .str .openString ['"']).text
      rw [htext]
      have := Flat.quoted (.inl rfl) (quotation_stringBody hclosed) .nil
      simpa using this
  next hquote =>
  rw [if_neg hquote] at hlegal hflat
  split
  next htick =>
    rw [if_pos htick] at hlegal
    exact shape_scanRaw hlegal
  next htick =>
  rw [if_neg htick] at hlegal hflat
  split
  next htemplate =>
    rw [if_pos htemplate] at hlegal hflat
    have hkind := kind_body hlegal
    exact .flat (kind_body_ne hlegal (by decide)) (kind_body_ne hlegal (by decide)) (hflat (.inl hkind))
  next htemplate =>
  rw [if_neg htemplate] at hlegal hflat
  split
  next hdigit =>
    have hkind := Token.scanNumber_kind (c :: cs)
    refine .flat ?_ ?_ (flat_of_forall fun d hd => (isNumeric_scanNumber d hd).isOrdinary)
    all_goals
      intro h
      rw [h] at hkind
      rcases hkind with hkind | hkind <;> cases hkind
  next hdigit =>
  rw [if_neg hdigit] at hlegal
  split
  next hword =>
    have hkind := Token.Kind.ofWord_eq (String.ofList ((c :: cs).takeWhile Token.isIdentContinue))
    refine .flat ?_ ?_ (flat_of_forall fun d hd =>
      isOrdinary_of_isIdentContinue (List.mem_takeWhile_imp hd))
    all_goals
      intro h
      rw [show Token.Kind.ofWord _ = _ from h] at hkind
      rcases hkind with hkind | hkind <;> cases hkind
  next hword =>
    rw [if_neg hword] at hlegal
    exact shape_scanPunctuation hlegal

/-- No comment starts with the first slash behind a gap. -/
theorem not_comment_of_skipGap {cs rest : List Char} {c : Char}
    (h : (Token.skipGap cs).2 = c :: rest) : c = '/' → rest.head? ≠ some '/' := by
  fun_induction Token.skipGap cs with
  | case1 => cases h
  | case2 c cs _ ih => exact ih h
  | case3 c cs _ _ ih => exact ih h
  | case4 c cs _ hline =>
    obtain ⟨rfl, rfl⟩ := List.cons.inj h
    intro hc
    simpa [hc] using hline
  | case5 c cs _ _ _ comment hcomment ih => exact ih h
  | case6 c cs _ hline =>
    obtain ⟨rfl, rfl⟩ := List.cons.inj h
    intro hc
    simpa [hc] using hline

/-- A legal lexeme that starts with a slash starts no comment between braces either. -/
theorem head?_of_slash {cs : List Char} (hlegal : (Token.scan '/' cs).kind ≠ .illegal)
    (hcomment : cs.head? ≠ some '/') :
    (cs ++ ['}']).head? ≠ some '/' ∧ (cs ++ ['}']).head? ≠ some '*' := by
  have hblock : cs.head? ≠ some '*' := by
    intro hstar
    apply hlegal
    rw [Token.scan, if_pos (by simp [hstar])]
    rfl
  cases cs with
  | nil => exact ⟨by decide, by decide⟩
  | cons d cs => exact ⟨hcomment, hblock⟩

/-- One token: if what follows closes the braces that are open behind it, then it closes those in
    front of it together with the token. -/
theorem passes_scan {C : List Char → Prop} {c : Char} {cs : List Char} {depth behind : Nat}
    {t : Token} (hkind : t.kind = (Token.scan c cs).kind)
    (hlegal : (Token.scan c cs).kind ≠ .illegal) (hcomment : c = '/' → cs.head? ≠ some '/')
    (hshape : Shape (Token.scan c cs)) (hbraces : Token.openBraces depth [t] = some behind)
    (h : Passes C (behind + 1) ((Token.scan c cs).rest ++ ['}'])) :
    Passes C (depth + 1) (c :: cs ++ ['}']) := by
  have happend := Token.scan_append c cs
  rw [Token.openBraces, hkind] at hbraces
  -- the braces count alike for the tokens and for the text
  cases hshape with
  | flat hopen hclose hflat =>
    rw [if_neg hopen, if_pos hclose] at hbraces
    obtain rfl := Option.some.inj hbraces
    rw [← happend, List.append_assoc]
    exact hflat.passes h
  | opening hopen htext =>
    rw [if_pos hopen] at hbraces
    obtain rfl := Option.some.inj hbraces
    rw [← happend, htext]
    exact .opening h
  | closing hclose htext =>
    rw [if_neg (by rw [hclose]; nofun), if_neg (by simp [hclose])] at hbraces
    split at hbraces
    next => cases hbraces
    next hdepth =>
      obtain ⟨n, rfl⟩ := Nat.exists_eq_succ_of_ne_zero hdepth
      obtain rfl := Option.some.inj hbraces
      rw [← happend, htext]
      exact .closing h
  | @slash more hopen hclose htext hflat =>
    rw [if_neg hopen, if_pos hclose] at hbraces
    obtain rfl := Option.some.inj hbraces
    have hpasses := hflat.passes h
    rw [htext] at happend
    obtain ⟨rfl, hcs⟩ := List.cons.inj happend
    rw [← List.append_assoc, show more ++ (Token.scan '/' cs).rest = cs from hcs] at hpasses
    exact .char ⟨by decide, by decide, by decide, by decide⟩
      (fun _ => head?_of_slash hlegal (hcomment rfl)) hpasses

theorem passes_gap {C : List Char → Prop} {gap cs : List Char} {depth : Nat}
    (hgap : ∀ c ∈ gap, Token.isGap c = true) (h : Passes C depth cs) :
    Passes C depth (gap ++ cs) := by
  refine (flat_of_forall fun c hc => ?_).passes h
  have hblank := hgap c hc
  simp only [Token.isGap, Bool.or_eq_true, decide_eq_true_eq] at hblank
  rcases hblank with (rfl | rfl) | rfl
  all_goals exact ⟨⟨by decide, by decide, by decide, by decide⟩, by decide⟩

/-- A text of which no token is illegal, no gap a comment, and whose braces balance, leads to the
    brace behind it if its templates and its strings between triple quotes are flat. -/
theorem passes_tokensFrom {C : List Char → Prop} {pos : Position} {cs : List Char} (depth : Nat)
    (hlegal : ∀ t ∈ Token.tokensFrom pos cs, t.kind ≠ .illegal)
    (hgaps : ∀ gap ∈ Token.gaps cs, ∀ c ∈ gap, Token.isGap c = true)
    (hbraces : Token.openBraces depth (Token.tokensFrom pos cs) = some 0)
    (hflat : ∀ t ∈ Token.tokensFrom pos cs, t.kind = .template ∨
      Token.tripleQuote <+: t.lexeme.toList → Flat t.lexeme.toList) :
    Passes C (depth + 1) (cs ++ ['}']) := by
  induction pos, cs using Token.tokensFrom.induct generalizing depth with
  | case1 pos cs gap hgap =>
    rw [Token.tokensFrom_of_end hgap] at hbraces
    obtain rfl : depth = 0 := Option.some.inj hbraces
    have happend := Token.skipGap_append cs
    rw [hgap, List.append_nil] at happend
    rw [Token.gaps_of_end hgap] at hgaps
    rw [← happend]
    exact passes_gap (hgaps gap (List.mem_singleton.2 rfl)) .last
  | case2 pos cs gap c rest hgap lexeme start ih =>
    rw [Token.tokensFrom_of_skipGap hgap] at hlegal hbraces hflat
    have happend := Token.skipGap_append cs
    rw [hgap] at happend
    rw [Token.gaps_of_token hgap, List.forall_mem_cons] at hgaps
    rw [List.forall_mem_cons] at hlegal hflat
    rw [Token.openBraces_cons] at hbraces
    obtain ⟨behind, hfirst, hbraces⟩ := Option.bind_eq_some_iff.1 hbraces
    have hrest := ih behind hlegal.2 hgaps.2 hbraces hflat.2
    have hspelled := (Token.written_scan c rest).spelled hlegal.1
    have hshape : Shape (Token.scan c rest) := by
      refine shape_scan hlegal.1 fun h => ?_
      have hlexeme := hflat.1
      simp only [Token.lexeme] at hlexeme
      rw [hspelled] at hlexeme
      exact hlexeme h
    have hcomment := not_comment_of_skipGap (congrArg Prod.snd hgap)
    rw [← happend, List.append_assoc]
    exact passes_gap hgaps.1 (passes_scan rfl hlegal.1 hcomment hshape hfirst hrest)

/-! ## Embedding -/

/-- Whether a template with the given text for its one interpolation is one token, which the lexer
    reads by passing over that text and which the splitter takes apart into it. -/
def Embeds (source : String) : Prop :=
  let body := Literal.hole source
  let text := "t\"" ++ body ++ "\""
  Token.tokenize text
      = [⟨.template, body, some text, .start⟩, Token.endOfText (endPosition text)]
    ∧ Token.stretchesFrom ⟨1, 3⟩ (body ++ "\"").toList = [(⟨1, 5⟩, source.toList)]
    ∧ split body ⟨1, 3⟩ = [.text "", .hole source ⟨1, 5⟩ ⟨1, 3⟩, .text ""]

theorem toList_hole (source : String) :
    (Literal.hole source).toList = '$' :: '{' :: (source.toList ++ ['}']) := by
  simp [Literal.hole]

/-- A closed interpolation is part of the body of a template. -/
theorem templateBody_hole {cs : List Char} {hole : List Char × List Char}
    (h : Token.skipInterpolation 1 cs = some hole) :
    Token.templateBody ('$' :: '{' :: cs)
      = (Token.templateBody hole.2).push ('$' :: '{' :: hole.1) ('$' :: '{' :: hole.1) := by
  rw [Token.templateBody.eq_def]
  simp only []
  rw [if_neg (by decide), if_neg (by decide), if_neg (by decide), if_pos (by simp)]
  split
  next hnone => cases hnone.symm.trans h
  next found hfound =>
    rw [Option.some.inj (hfound.symm.trans h)]
    rfl

/-- A quotation mark closes the body of a template. -/
theorem templateBody_close (rest : List Char) :
    Token.templateBody ('"' :: rest) = ⟨[], ['"'], rest, true⟩ := by
  rw [Token.templateBody.eq_def]
  rfl

/-- A text that is one template as a whole has one token in front of its end. -/
theorem tokenize_template {body : String} (h : Token.templateBody (body.toList ++ ['"'])
      = ⟨body.toList, body.toList ++ ['"'], [], true⟩) :
    let text := "t\"" ++ body ++ "\""
    Token.tokenize text
      = [⟨.template, body, some text, .start⟩, Token.endOfText (endPosition text)] := by
  intro text
  have htext : text.toList = 't' :: '"' :: (body.toList ++ ['"']) := by simp [text]
  have hscan : Token.scan 't' ('"' :: (body.toList ++ ['"']))
      = .decoded .template body.toList ('t' :: '"' :: (body.toList ++ ['"'])) [] := by
    show Token.scanTemplate (body.toList ++ ['"']) = _
    rw [Token.scanTemplate, h]
    rfl
  have hgap : Token.skipGap ('t' :: '"' :: (body.toList ++ ['"']))
      = ([], 't' :: '"' :: (body.toList ++ ['"'])) := by
    rw [Token.skipGap.eq_def]
    rfl
  rw [Token.tokenize_of_scan htext hgap (by rw [hscan]; rfl), hscan]
  simp only [Token.Lexeme.decoded]
  rw [← htext, String.ofList_toList, String.ofList_toList]

/-- What the splitter finds when it takes the whole of an interpolation. -/
theorem split_hole_iff (source : String) :
    split (Literal.hole source) ⟨1, 3⟩ = [.text "", .hole source ⟨1, 5⟩ ⟨1, 3⟩, .text ""]
      ↔ Passes SplitComment 1 (source.toList ++ ['}']) := by
  rw [split, toList_hole, splitFrom_hole ⟨1, 3⟩ (by decide) (by simp)]
  simp only [List.drop_one, List.tail_cons]
  constructor
  · intro h
    have hsource : (takeHole 1 (source.toList ++ ['}'])).source = source.toList := by
      obtain ⟨hhole, -⟩ := List.cons.inj (List.cons.inj h).2
      injection hhole with hsource
      have := congrArg String.toList hsource
      rwa [String.toList_ofList] at this
    have hrest : (takeHole 1 (source.toList ++ ['}'] ++ [])).rest = some [] :=
      rest_takeHole (by rwa [List.append_nil])
    rw [List.append_nil] at hrest
    have hpasses := passes_takeHole hrest Nat.one_pos
    rwa [hsource] at hpasses
  · intro hpasses
    have htake := takeHole_passes hpasses Nat.one_pos []
    rw [List.append_nil, List.dropLast_concat] at htake
    rw [htake]
    simp [splitFrom, Position.shifted]

/-- A text can be embedded exactly if both readers of templates pass over it. -/
theorem embeds_iff_passes (source : String) :
    Embeds source ↔ Passes LexedComment 1 (source.toList ++ ['}'])
      ∧ Passes SplitComment 1 (source.toList ++ ['}']) := by
  have hbody : (Literal.hole source ++ "\"").toList
      = '$' :: '{' :: (source.toList ++ ['}'] ++ ['"']) := by
    simp [toList_hole]
  constructor
  · rintro ⟨-, hstretches, hsplit⟩
    constructor
    · exact Token.passes_stretchesFrom (hstretches ▸ List.mem_singleton_self _)
    · exact (split_hole_iff source).1 hsplit
  · rintro ⟨hlexed, hsplit⟩
    have hskip := skipInterpolation_passes hlexed Nat.one_pos ['"']
    refine ⟨?_, ?_, (split_hole_iff source).2 hsplit⟩
    · apply tokenize_template
      rw [toList_hole, List.cons_append, List.cons_append, templateBody_hole hskip,
        templateBody_close]
      simp [Token.Body.push]
    · rw [hbody, Token.stretchesFrom_hole _ hskip, List.dropLast_concat]
      rw [Token.stretchesFrom.eq_def]
      rfl

/-- A text of which no token is illegal, that has no comment between its tokens and whose braces
    balance can be embedded in a template exactly if the lexer and the splitter pass over it. They do
    if each of its templates and of its strings between triple quotes is flat; words, numbers,
    operators, plain and raw strings do not matter. -/
theorem embeds_iff {source : String} (hlegal : ∀ t ∈ Token.tokenize source, t.kind ≠ .illegal)
    (hgaps : ∀ gap ∈ Token.gaps source.toList, ∀ c ∈ gap, Token.isGap c = true)
    (hbraces : Token.openBraces 0 (Token.tokenize source) = some 0) :
    (Embeds source ↔ Passes LexedComment 1 (source.toList ++ ['}'])
        ∧ Passes SplitComment 1 (source.toList ++ ['}']))
      ∧ ((∀ t ∈ Token.tokenize source, t.kind = .template ∨
          Token.tripleQuote <+: t.lexeme.toList → Flat t.lexeme.toList) → Embeds source) := by
  refine ⟨embeds_iff_passes source, fun hflat => (embeds_iff_passes source).2 ?_⟩
  exact ⟨passes_tokensFrom 0 hlegal hgaps hbraces hflat,
    passes_tokensFrom 0 hlegal hgaps hbraces hflat⟩

/-- Strings of every kind with braces in them, a division and a nested template can be embedded. A
    quotation mark within triple quotes cannot, although the text meets the same conditions. -/
theorem embeds_iff_strings :
    Embeds "f(\"\\\"\x7d\", `\x7b`, \"\"\"\x7b\"\"\", t\"$\x7by\x7d\") #\x7ba: 1 / 2\x7d"
      ∧ (∀ t ∈ Token.tokenize "\"\"\"a\"b\"\"\"", t.kind ≠ .illegal)
      ∧ (∀ gap ∈ Token.gaps "\"\"\"a\"b\"\"\"".toList, ∀ c ∈ gap, Token.isGap c = true)
      ∧ Token.openBraces 0 (Token.tokenize "\"\"\"a\"b\"\"\"") = some 0
      ∧ ¬Embeds "\"\"\"a\"b\"\"\"" := by
  have hquoted : (Token.gaps "\"\"\"a\"b\"\"\"".toList).all (·.all Token.isGap) = true := by
    decide +kernel
  have hspaced : (Token.gaps
      "f(\"\\\"\x7d\", `\x7b`, \"\"\"\x7b\"\"\", t\"$\x7by\x7d\") #\x7ba: 1 / 2\x7d".toList).all
        (·.all Token.isGap) = true := by
    decide +kernel
  simp only [List.all_eq_true] at hquoted hspaced
  refine ⟨?_, by decide +kernel, hquoted, by decide +kernel, ?_⟩
  · apply (embeds_iff (by decide +kernel) hspaced (by decide +kernel)).2
    intro t ht hkind
    have hall : ∀ t ∈ Token.tokenize
          "f(\"\\\"\x7d\", `\x7b`, \"\"\"\x7b\"\"\", t\"$\x7by\x7d\") #\x7ba: 1 / 2\x7d",
        t.kind = .template ∨ Token.tripleQuote <+: t.lexeme.toList →
          t.lexeme = "\"\"\"\x7b\"\"\"" ∨ t.lexeme = "t\"$\x7by\x7d\"" := by
      decide +kernel
    have hbrace : Quotation '"' ['{', '"'] := .char (by decide) (by decide) .close
    have hhole : Quotation '"' ['$', '{', 'y', '}', '"'] :=
      .char (by decide) (by decide) (.char (by decide) (by decide)
        (.char (by decide) (by decide) (.char (by decide) (by decide) .close)))
    rcases hall t ht hkind with h | h
    · rw [h]
      exact .quoted (.inl rfl) .close (.quoted (.inl rfl) hbrace (.quoted (.inl rfl) .close .nil))
    · rw [h]
      exact .char ⟨by decide, by decide, by decide, by decide⟩ (by decide)
        (.quoted (.inl rfl) hhole .nil)
  · unfold Embeds
    decide +kernel

end Welle.Template
