import Mathlib.Data.List.TakeWhile
import Welle.Proofs.Places
import Welle.Proofs.Position
import Welle.Template.Tokens
import Welle.Tree

set_option autoImplicit false

/-! # Where words stand

The words of a token are the names and reserved words it writes: itself, or those in the
interpolations of a template, at any depth. The words of a text stand in it one after the other,
each one where its position says, and something that is no part of a word stands between them. -/

namespace Welle

namespace Token

/-! ## Kinds of lexeme -/

/-- Whether a token writes a name or a reserved word. -/
def isWord (t : Token) : Bool := t.kind = .ident || t.kind.isKeyword

theorem Kind.ofWord_eq (word : String) :
    Kind.ofWord word = .ident ∨ (Kind.ofWord word).isKeyword = true := by
  unfold Kind.ofWord
  cases h : keywordTable.lookup word with
  | none => exact .inl rfl
  | some kind =>
    obtain ⟨before, behind, htable, -⟩ := List.lookup_eq_some_iff.1 h
    have hall : ∀ entry ∈ keywordTable, entry.2.isKeyword = true := by decide
    exact .inr (hall (word, kind) (by simp [htable]))

theorem Kind.ofWord_ne_template (word : String) : Kind.ofWord word ≠ .template := by
  intro h
  rcases Kind.ofWord_eq word with hident | hkeyword
  · rw [h] at hident
    cases hident
  · rw [h] at hkeyword
    cases hkeyword

/-- The kinds of operators and delimiters. -/
def Kind.isPunctuation : Kind → Bool
  | illegal | eof | newline | ident | int | float | str | template => false
  | kind => !kind.isKeyword

/-- An operator or a delimiter is read where it is spelled out. -/
theorem punctuation_spelled {c : Char} {cs : List Char} {kind : Kind} {width : Nat}
    (h : punctuation? (c :: cs) = some (kind, width)) :
    kind.isPunctuation = true ∧ ∃ text rest, cs = text ++ rest
      ∧ kind.describe.toList = c :: text ∧ width = text.length + 1 := by
  have hone (hkind : kind.describe.toList = [c]) :
      ∃ text rest, cs = text ++ rest ∧ kind.describe.toList = c :: text ∧ 1 = text.length + 1 :=
    ⟨[], cs, rfl, hkind, rfl⟩
  have htwo {d : Char} (hd : (c :: cs)[1]? = some d) (hkind : kind.describe.toList = [c, d]) :
      ∃ text rest, cs = text ++ rest ∧ kind.describe.toList = c :: text ∧ 2 = text.length + 1 := by
    match cs, hd with
    | _ :: cs, rfl => exact ⟨[_], cs, rfl, hkind, rfl⟩
  have hthree {d e : Char}
      (h : (decide ((c :: cs)[1]? = some d) && decide ((c :: cs)[2]? = some e)) = true)
      (hkind : kind.describe.toList = [c, d, e]) :
      ∃ text rest, cs = text ++ rest ∧ kind.describe.toList = c :: text ∧ 3 = text.length + 1 := by
    rw [Bool.and_eq_true, decide_eq_true_eq, decide_eq_true_eq] at h
    match cs, h with
    | _ :: _ :: cs, ⟨rfl, rfl⟩ => exact ⟨[_, _], cs, rfl, hkind, rfl⟩
  unfold punctuation? at h
  dsimp only at h
  repeat' split at h
  all_goals
    cases h
  all_goals
    cases ‹(c :: cs).head? = some _›
  all_goals first
    | exact ⟨rfl, hone rfl⟩
    | exact ⟨rfl, htwo ‹_› rfl⟩
    | exact ⟨rfl, hthree ‹_› rfl⟩

theorem punctuation_kind {c : Char} {cs : List Char} {kind : Kind} {width : Nat}
    (h : punctuation? (c :: cs) = some (kind, width)) :
    kind.isKeyword = false ∧ kind ≠ .ident ∧ kind ≠ .template ∧ kind ≠ .eof ∧ kind ≠ .int
      ∧ kind ≠ .float := by
  have hkind := (punctuation_spelled h).1
  refine ⟨?_, ?_, ?_, ?_, ?_, ?_⟩
  · cases kind <;> first | rfl | cases hkind
  all_goals
    rintro rfl
    cases hkind

theorem scanNumber_kind (cs : List Char) :
    (scanNumber cs).kind = .int ∨ (scanNumber cs).kind = .float := by
  have hdecimal (cs : List Char) : (scanDecimal cs).kind = .int ∨ (scanDecimal cs).kind = .float := by
    unfold scanDecimal
    dsimp only [Lexeme.plain]
    split
    · exact .inl rfl
    · exact .inr rfl
  unfold scanNumber
  split
  · split
    · exact .inl rfl
    · exact hdecimal _
  · exact hdecimal _

/-- A body ends in front of its closing mark. -/
theorem templateBody_text (cs : List Char) (h : (templateBody cs).closed = true) :
    (templateBody cs).text = (templateBody cs).content ++ ['"'] := by
  fun_induction templateBody cs <;> simp_all [Body.push]

/-- How the lexemes come about that have words in them: a word is as long as it can be, and a
    template is its body between quotes. Other lexemes have none. -/
inductive ScanCase (c : Char) (cs : List Char) (l : Lexeme) : Prop where
  | word (hstart : isIdentStart c = true) (heq : l = scanWord (c :: cs))
  | template (hkind : l.kind = .template) (htext : l.text = 't' :: '"' :: (l.literal.toList ++ ['"']))
  | other (hident : l.kind ≠ .ident) (hkeyword : l.kind.isKeyword = false)
      (htemplate : l.kind ≠ .template)

theorem scan_cases (c : Char) (cs : List Char) : ScanCase c cs (scan c cs) := by
  -- a string is closed or illegal, and no word in either case
  have hstring (b : Body) (mark : List Char) :
      ScanCase c cs (b.lexeme .str .openString mark) := by
    unfold Body.lexeme
    split <;> exact .other (by simp [Lexeme.decoded, Lexeme.illegal]) rfl
      (by simp [Lexeme.decoded, Lexeme.illegal])
  unfold scan
  split
  · exact .other (by simp [Lexeme.illegal]) rfl (by simp [Lexeme.illegal])
  split
  · exact .other (by simp [Lexeme.plain]) rfl (by simp [Lexeme.plain])
  split
  · split
    · exact hstring _ _
    · exact hstring _ _
  split
  · unfold scanRaw
    split <;> exact .other (by simp [Lexeme.decoded, Lexeme.illegal]) rfl
      (by simp [Lexeme.decoded, Lexeme.illegal])
  split
  · unfold scanTemplate Body.lexeme
    split
    next hclosed =>
      refine .template rfl ?_
      show 't' :: '"' :: (templateBody (cs.drop 1)).text = _
      rw [templateBody_text _ hclosed]
      simp [Lexeme.decoded]
    next => exact .other (by simp [Lexeme.illegal]) rfl (by simp [Lexeme.illegal])
  split
  · rcases scanNumber_kind (c :: cs) with h | h <;>
      exact .other (by simp [h]) (by rw [h]; rfl) (by simp [h])
  split
  next hstart => exact .word hstart rfl
  next =>
    unfold scanPunctuation
    split
    next kind width h =>
      obtain ⟨hkeyword, hident, htemplate, -⟩ := punctuation_kind h
      exact .other hident hkeyword htemplate
    next => exact .other (by simp [Lexeme.illegal]) rfl (by simp [Lexeme.illegal])

/-! ## Words -/

/-- A template is longer than its body. -/
theorem literal_length_of_mem {pos : Position} {cs : List Char} {t : Token}
    (ht : t ∈ tokensFrom pos cs) (hkind : t.kind = .template) :
    t.literal.length + 3 ≤ cs.length := by
  obtain ⟨before, behind, rfl, rfl⟩ := mem_tokensFrom ht
  cases behind with
  | nil => cases hkind
  | cons c rest =>
    cases scan_cases c rest with
    | word hstart heq =>
      change (scan c rest).kind = .template at hkind
      rw [heq] at hkind
      exact absurd hkind (Kind.ofWord_ne_template _)
    | template _ htext =>
      have hscan := congrArg List.length (scan_append c rest)
      rw [htext] at hscan
      simp only [List.length_cons, List.length_append, List.length_nil, String.length_toList]
        at hscan ⊢
      change (scan c rest).literal.length + 3 ≤ _
      omega
    | other _ _ htemplate => exact absurd hkind htemplate

end Token

namespace Template

/-- The source of an interpolation is shorter than the body it stands in. -/
theorem source_length_of_mem {pos : Position} {cs : List Char} {source : String}
    {origin opening : Position} (h : .hole source origin opening ∈ (splitFrom pos cs).2) :
    source.length + 2 ≤ cs.length := by
  fun_induction splitFrom pos cs with
  | case1 => cases h
  | case2 => cases h
  | case3 pos e rest inner ih =>
    have := ih h
    simp only [List.length_cons]
    omega
  | case4 pos c cs hc hopen inside origin' behind ih =>
    have happend := congrArg List.length (takeHole_append 1 (cs.drop 1))
    have hbrace : cs.length = (cs.drop 1).length + 1 := by
      cases cs with
      | nil => simp at hopen
      | cons d ds => simp
    rw [List.length_append] at happend
    rw [List.length_cons]
    simp only [List.mem_cons, Segment.hole.injEq, reduceCtorEq, false_or] at h
    rcases h with ⟨rfl, -, -⟩ | h
    · rw [String.length_ofList]
      change (takeHole 1 (cs.drop 1)).source.length + 2 ≤ cs.length + 1
      omega
    · simp only [behind] at h
      split at h
      next rest hrest =>
        have := ih rest hrest h
        have := takeHole_rest_length hrest
        omega
      next => cases h
  | case5 pos c cs _ _ inner ih =>
    have := ih h
    simp only [List.length_cons]
    omega

theorem source_length_of_mem_split {literal source : String} {pos origin opening : Position}
    (h : .hole source origin opening ∈ split literal pos) : source.length + 2 ≤ literal.length := by
  rw [← String.length_toList (s := literal)]
  exact source_length_of_mem (by simpa [split] using h)

theorem mem_holeTokens {t : Token} {run : List Token} (h : run ∈ holeTokens t) :
    t.kind = .template ∧ ∃ source origin opening,
      .hole source origin opening ∈ split t.literal (t.pos.shifted 2)
      ∧ run = Token.tokenizeAt source origin := by
  unfold holeTokens at h
  split at h
  next hkind =>
    obtain ⟨segment, hsegment, hrun⟩ := List.mem_filterMap.1 h
    cases segment with
    | text value => cases hrun
    | hole source origin opening =>
      exact ⟨hkind, source, origin, opening, hsegment, (Option.some.inj hrun).symm⟩
  next => cases h

end Template

namespace Token

/-- How much of a token can be words of its interpolations. -/
def depthBound (t : Token) : Nat := if t.kind = .template then t.literal.length + 1 else 0

theorem depthBound_lt {t u : Token} {run : List Token} (hrun : run ∈ Template.holeTokens t)
    (hu : u ∈ run) : u.depthBound < t.depthBound := by
  obtain ⟨hkind, source, origin, opening, hhole, rfl⟩ := Template.mem_holeTokens hrun
  have hsource := Template.source_length_of_mem_split hhole
  unfold depthBound
  rw [if_pos hkind]
  split
  next hu' =>
    have := literal_length_of_mem hu hu'
    simp only [String.length_toList] at this
    omega
  next => omega

/-- The words that a token writes. -/
def words (t : Token) : List Ident :=
  if t.isWord then [⟨t.literal, t.pos⟩]
  else (Template.holeTokens t).attach.flatMap fun run => run.1.attach.flatMap fun u => words u.1
termination_by t.depthBound
decreasing_by exact depthBound_lt run.2 u.2

theorem words_eq (t : Token) : t.words = if t.isWord then [⟨t.literal, t.pos⟩]
    else (Template.holeTokens t).flatMap fun run => run.flatMap words := by
  rw [words]
  simp

/-! ## Places -/

/-- A text that does not go on with a word. -/
def EndsWord (cs : List Char) : Prop := ∀ c, cs.head? = some c → isIdentContinue c = false

/-- The characters of a word. -/
structure IsWordText (cs : List Char) : Prop where
  starts : ∃ c, cs.head? = some c ∧ isIdentStart c = true
  continues : ∀ c ∈ cs, isIdentContinue c = true

/-- Words stand in a text one after the other, each one where its position says, and none of them
    goes on behind its end. The first character of the text stands at the given position. -/
def Placed : Position → List Char → List Ident → Prop
  | _, _, [] => True
  | pos, cs, w :: ws => ∃ gap rest, cs = gap ++ (w.name.toList ++ rest) ∧ w.pos = pos.after gap
    ∧ IsWordText w.name.toList ∧ EndsWord rest ∧ Placed (w.pos.after w.name.toList) rest ws

theorem Placed.prepend {pos : Position} {cs : List Char} {ws : List Ident} {before : List Char}
    (h : Placed (pos.after before) cs ws) : Placed pos (before ++ cs) ws := by
  cases ws with
  | nil => trivial
  | cons w ws =>
    obtain ⟨gap, rest, rfl, hpos, hword, hends, hrest⟩ := h
    exact ⟨before ++ gap, rest, by simp, by simp [hpos], hword, hends, hrest⟩

theorem Placed.append {pos : Position} {us vs : List Char} {ws ws' : List Ident}
    (h : Placed pos us ws) (hends : EndsWord vs) (h' : Placed (pos.after us) vs ws') :
    Placed pos (us ++ vs) (ws ++ ws') := by
  induction ws generalizing pos us with
  | nil => exact h'.prepend
  | cons w ws ih =>
    obtain ⟨gap, rest, rfl, hpos, hword, hends', hrest⟩ := h
    refine ⟨gap, rest ++ vs, by simp, hpos, hword, ?_, ih hrest ?_⟩
    · cases rest with
      | nil => exact hends
      | cons c cs => exact hends'
    · rwa [hpos, ← Position.after_append, ← Position.after_append]

/-- The words of an interpolation. -/
def segmentWords : Template.Segment → List Ident
  | .text _ => []
  | .hole source origin _ => (tokenizeAt source origin).flatMap words

theorem words_of_template {t : Token} (h : t.kind = .template) :
    t.words = (Template.split t.literal (t.pos.shifted 2)).flatMap segmentWords := by
  have hword : t.isWord = false := by simp [isWord, h, Kind.isKeyword]
  rw [words_eq, hword, Template.holeTokens, if_pos h, if_neg (by simp)]
  generalize Template.split t.literal (t.pos.shifted 2) = segments
  induction segments with
  | nil => rfl
  | cons segment segments ih => cases segment <;> simp [segmentWords, ih]

theorem words_of_other {t : Token} (hword : t.isWord = false) (htemplate : t.kind ≠ .template) :
    t.words = [] := by
  rw [words_eq, hword, Template.holeTokens, if_neg htemplate]
  rfl

theorem placed_segments {cs : List Char} {pos : Position}
    (h : ∀ (source : String) (origin : Position), source.length < cs.length →
      Placed origin source.toList ((tokenizeAt source origin).flatMap words)) :
    Placed pos cs ((Template.splitFrom pos cs).2.flatMap segmentWords) := by
  fun_induction Template.splitFrom pos cs with
  | case1 => trivial
  | case2 => trivial
  | case3 pos e rest inner ih =>
    have hrest := ih fun source origin hlength => h source origin (by
      simp only [List.length_cons]
      omega)
    exact (show Placed (pos.after ['\\', e]) rest _ from hrest).prepend
  | case4 pos c cs hc hopen inside origin behind ih =>
    obtain ⟨rfl, hbrace⟩ : c = '$' ∧ cs.head? = some '{' := by simpa using hopen
    obtain ⟨cs, rfl⟩ : ∃ ds, cs = '{' :: ds := by
      cases cs with
      | nil => simp at hbrace
      | cons d ds => exact ⟨ds, by simpa using hbrace⟩
    -- behind a source stands its brace, or nothing if it is not closed
    let tail := ((Template.takeHole 1 cs).rest.map ('}' :: ·)).getD []
    have happend : inside ++ tail = cs := Template.takeHole_append 1 cs
    have hinside : Placed origin inside (segmentWords (.hole (String.ofList inside) origin pos)) := by
      have hlength := congrArg List.length happend
      have := h (String.ofList inside) origin (by
        simp only [String.length_ofList, List.length_append, List.length_cons] at hlength ⊢
        omega)
      rwa [String.toList_ofList] at this
    have hbehind : EndsWord tail ∧ Placed (origin.after inside) tail (behind.2.flatMap segmentWords) := by
      simp only [behind, tail]
      split
      next rest hrest =>
        rw [show (Template.takeHole 1 cs).rest = some rest from hrest]
        refine ⟨fun c hc => ?_, ?_⟩
        · obtain rfl : '}' = c := by simpa using hc
          rfl
        · have hlength := Template.takeHole_rest_length hrest
          have hrest := ih rest hrest fun source origin hsource => h source origin (by
            simp only [List.length_cons, List.drop_succ_cons, List.drop_zero] at hlength ⊢
            omega)
          exact (show Placed ((origin.after inside).after ['}']) rest _ from hrest).prepend
      next hnone =>
        rw [show (Template.takeHole 1 cs).rest = none from hnone]
        exact ⟨fun c hc => by simp at hc, trivial⟩
    have hall := hinside.append hbehind.1 hbehind.2
    rw [happend, show origin = pos.after ['$', '{'] from rfl] at hall
    exact hall.prepend
  | case5 pos c cs _ _ inner ih =>
    have hrest := ih fun source origin hlength => h source origin (by
      simp only [List.length_cons]
      omega)
    exact (show Placed (pos.after [c]) cs _ from hrest).prepend

theorem placed_words (pos : Position) (cs : List Char) :
    Placed pos cs ((tokensFrom pos cs).flatMap words) := by
  induction hn : cs.length using Nat.strongRecOn generalizing pos cs with
  | ind n ih =>
    subst hn
    rw [tokensFrom]
    split
    next gap hgap =>
      rw [List.flatMap_singleton, words_of_other rfl (by simp [endOfText])]
      trivial
    next gap c rest hgap =>
      have happend := skipGap_append cs
      rw [hgap] at happend
      have hscan := scan_append c rest
      have hlength := congrArg List.length happend
      have hscanLength := scan_rest_length c rest
      simp only [List.length_append, List.length_cons] at hlength
      -- the words of the first token stand in its text, all others behind it
      have hrest := ih (scan c rest).rest.length (by omega) ((pos.after gap).after (scan c rest).text)
        (scan c rest).rest rfl
      dsimp only at happend ⊢
      rw [← happend, ← hscan, List.flatMap_cons]
      refine Placed.prepend ?_
      cases scan_cases c rest with
      | word hstart heq =>
        have hhead : ∃ d, ((c :: rest).takeWhile isIdentContinue).head? = some d
            ∧ isIdentStart d = true := ⟨c, by simp [isIdentContinue, hstart], hstart⟩
        have hcontinues : ∀ d ∈ (c :: rest).takeWhile isIdentContinue, isIdentContinue d = true :=
          fun d hd => List.mem_takeWhile_imp hd
        have hends : EndsWord ((c :: rest).dropWhile isIdentContinue) := by
          intro d hd
          simpa only [hd] using List.head?_dropWhile_not isIdentContinue (c :: rest)
        have hkind : ∀ word pos,
            isWord ⟨.ofWord (String.ofList word), String.ofList word, none, pos⟩ = true := by
          intro word pos
          simpa [isWord] using Kind.ofWord_eq (String.ofList word)
        rw [heq] at hrest ⊢
        dsimp only [scanWord, Lexeme.plain] at hrest ⊢
        rw [words_eq, if_pos (hkind _ _)]
        refine ⟨[], (c :: rest).dropWhile isIdentContinue, ?_, rfl, ⟨?_, ?_⟩, hends, ?_⟩
        · simp
        · simpa using hhead
        · simpa using hcontinues
        · simpa using hrest
      | template hkind htext =>
        -- the sources of interpolations are shorter than the template
        have hbody : Placed ((pos.after gap).shifted 2) (scan c rest).literal.toList
            ((Template.split (scan c rest).literal ((pos.after gap).shifted 2)).flatMap
              segmentWords) := by
          refine placed_segments fun source origin hlength => ?_
          refine ih source.toList.length ?_ origin source.toList rfl
          have htextLength := congrArg List.length htext
          have hscanLength := congrArg List.length hscan
          simp only [List.length_append, List.length_cons, String.length_toList]
            at htextLength hscanLength hlength ⊢
          omega
        have hquote : EndsWord ('"' :: (scan c rest).rest) := by
          intro d hd
          obtain rfl : '"' = d := by simpa using hd
          rfl
        have hend : (pos.after gap).after (scan c rest).text
            = (((pos.after gap).shifted 2).after (scan c rest).literal.toList).after ['"'] := by
          rw [htext, Position.after_cons, Position.after_cons, Position.after_append]
          rfl
        have hclose : Placed (((pos.after gap).shifted 2).after (scan c rest).literal.toList)
            ('"' :: (scan c rest).rest) ((tokensFrom ((pos.after gap).after (scan c rest).text)
              (scan c rest).rest).flatMap words) := by
          rw [hend] at hrest ⊢
          exact hrest.prepend
        have hall := hbody.append hquote hclose
        rw [words_of_template hkind]
        rw [show (scan c rest).text ++ (scan c rest).rest
          = ['t', '"'] ++ ((scan c rest).literal.toList ++ ('"' :: (scan c rest).rest)) by simp [htext]]
        exact Placed.prepend hall
      | other hident hkeyword htemplate =>
        rw [words_of_other (by simp [isWord, hident, hkeyword]) htemplate]
        exact hrest.prepend

/-! ## Words do not touch -/

/-- A word of a text where its position says. -/
theorem Placed.mem {pos : Position} {cs : List Char} {ws : List Ident} {w : Ident}
    (h : Placed pos cs ws) (hw : w ∈ ws) : ∃ before behind,
      cs = before ++ (w.name.toList ++ behind) ∧ w.pos = pos.after before
      ∧ IsWordText w.name.toList ∧ EndsWord behind := by
  induction ws generalizing pos cs with
  | nil => cases hw
  | cons v ws ih =>
    obtain ⟨gap, rest, rfl, hpos, hword, hends, hrest⟩ := h
    rcases List.mem_cons.1 hw with rfl | hw
    · exact ⟨gap, rest, rfl, hpos, hword, hends⟩
    · obtain ⟨before, behind, rfl, hpos', hword', hends'⟩ := ih hrest hw
      exact ⟨gap ++ (v.name.toList ++ before), behind, by simp, by simp [hpos', hpos], hword', hends'⟩

/-- The words of a text that goes on with no word stand behind its first character. -/
theorem Placed.lt_of_endsWord {pos : Position} {cs : List Char} {ws : List Ident} {w : Ident}
    (h : Placed pos cs ws) (hends : EndsWord cs) (hw : w ∈ ws) : pos < w.pos := by
  obtain ⟨before, behind, rfl, hpos, hword, -⟩ := h.mem hw
  rw [hpos]
  refine Position.lt_after pos ?_
  rintro rfl
  obtain ⟨c, hc, hstart⟩ := hword.starts
  have hcontinue := hends c (by simp [List.head?_append, hc])
  simp [isIdentContinue, hstart] at hcontinue

/-- The words of a text follow each other with something between them. -/
theorem Placed.pairwise {pos : Position} {cs : List Char} {ws : List Ident} (h : Placed pos cs ws) :
    ws.Pairwise fun v w => v.pos.after v.name.toList < w.pos := by
  induction ws generalizing pos cs with
  | nil => exact .nil
  | cons v ws ih =>
    obtain ⟨gap, rest, rfl, hpos, hword, hends, hrest⟩ := h
    exact .cons (fun w hw => hrest.lt_of_endsWord hends hw) (ih hrest)

/-- No two words of a text stand at the same place. -/
theorem nodup_words (pos : Position) (cs : List Char) :
    (((tokensFrom pos cs).flatMap words).map (·.pos)).Nodup := by
  refine List.pairwise_map.2 ((placed_words pos cs).pairwise.imp fun {v w} h heq => ?_)
  rw [← heq] at h
  exact Position.lt_irrefl _ (Position.lt_of_le_of_lt (Position.le_after _ _) h)

end Token

end Welle
