import Mathlib.Data.List.Nodup
import Welle.Bracket
import Welle.Proofs.Words

set_option autoImplicit false

/-! # Tokens in templates and pairs of brackets

The tokens of a text and those of its interpolations, at any depth, stand in the text one behind the
other. So no two of them stand at the same place, and the table of pairs has at most one entry for an
opening bracket. -/

namespace Welle

namespace Token

/-! ## Tokens at any depth -/

/-- A token and the tokens of its interpolations, at any depth. -/
def deep (t : Token) : List Token :=
  t :: (Template.holeTokens t).attach.flatMap fun run => run.1.attach.flatMap fun u => deep u.1
termination_by t.depthBound
decreasing_by exact depthBound_lt run.2 u.2

theorem deep_eq (t : Token) :
    t.deep = t :: (Template.holeTokens t).flatMap fun run => run.flatMap deep := by
  rw [deep]
  simp

theorem mem_deep_self (t : Token) : t ∈ t.deep := by
  rw [deep_eq]
  exact List.mem_cons_self

/-- The tokens of an interpolation, at any depth. -/
def segmentDeep : Template.Segment → List Token
  | .text _ => []
  | .hole source origin _ => (tokenizeAt source origin).flatMap deep

theorem deep_of_template {t : Token} (h : t.kind = .template) :
    t.deep = t :: (Template.split t.literal (t.pos.shifted 2)).flatMap segmentDeep := by
  rw [deep_eq, Template.holeTokens, if_pos h]
  generalize Template.split t.literal (t.pos.shifted 2) = segments
  congr 1
  induction segments with
  | nil => rfl
  | cons segment segments ih => cases segment <;> simp [segmentDeep, ih]

theorem deep_of_other {t : Token} (h : t.kind ≠ .template) : t.deep = [t] := by
  rw [deep_eq, Template.holeTokens, if_neg h]
  rfl

/-! ## Order -/

/-- Tokens that stand one behind the other, from `first` to `last`. -/
structure Spread (first last : Position) (ts : List Token) : Prop where
  sorted : ts.Pairwise fun t u => t.pos < u.pos
  first : ∀ t ∈ ts, first ≤ t.pos
  last : ∀ t ∈ ts, t.pos ≤ last

namespace Spread

variable {a b c d : Position} {ts us : List Token}

theorem nil : Spread a b [] := ⟨.nil, by simp, by simp⟩

theorem mono (h : Spread b c ts) (hfirst : a ≤ b) (hlast : c ≤ d) : Spread a d ts where
  sorted := h.sorted
  first := fun t ht => Position.le_trans hfirst (h.first t ht)
  last := fun t ht => Position.le_trans (h.last t ht) hlast

theorem append (h : Spread a b ts) (h' : Spread c d us) (hab : a ≤ b) (hbc : b < c) (hcd : c ≤ d) :
    Spread a d (ts ++ us) where
  sorted := by
    refine List.pairwise_append.2 ⟨h.sorted, h'.sorted, fun t ht u hu => ?_⟩
    have hlt := Position.lt_of_le_of_lt (h.last t ht) hbc
    exact Position.lt_of_lt_of_le hlt (h'.first u hu)
  first := by
    intro t ht
    rcases List.mem_append.1 ht with ht | ht
    · exact h.first t ht
    · exact Position.le_trans (Position.le_trans hab (Position.le_of_lt hbc)) (h'.first t ht)
  last := by
    intro t ht
    rcases List.mem_append.1 ht with ht | ht
    · exact Position.le_trans (h.last t ht) (Position.le_trans (Position.le_of_lt hbc) hcd)
    · exact h'.last t ht

theorem singleton (t : Token) : Spread t.pos t.pos [t] where
  sorted := List.pairwise_singleton _ _
  first := fun u hu => by
    rw [List.mem_singleton.1 hu]
    exact Position.le_refl _
  last := fun u hu => by
    rw [List.mem_singleton.1 hu]
    exact Position.le_refl _

end Spread

/-- The tokens of the interpolations of a body stand in it in order, if those of shorter texts do. -/
theorem spread_segments {cs : List Char} {pos : Position}
    (h : ∀ (source : String) (origin : Position), source.length < cs.length →
      Spread origin (origin.after source.toList) ((tokenizeAt source origin).flatMap deep)) :
    Spread pos (pos.after cs) ((Template.splitFrom pos cs).2.flatMap segmentDeep) := by
  fun_induction Template.splitFrom pos cs with
  | case1 => exact .nil
  | case2 => exact .nil
  | case3 pos e rest inner ih =>
    have hrest := ih fun source origin hlength => h source origin (by
      simp only [List.length_cons]
      omega)
    exact hrest.mono (Position.le_after pos ['\\', e]) (Position.le_refl _)
  | case4 pos c cs hc hopen inside origin behind ih =>
    obtain ⟨rfl, hbrace⟩ : c = '$' ∧ cs.head? = some '{' := by simpa using hopen
    obtain ⟨cs, rfl⟩ : ∃ ds, cs = '{' :: ds := by
      cases cs with
      | nil => simp at hbrace
      | cons d ds => exact ⟨ds, by simpa using hbrace⟩
    -- behind a source stands its brace, or nothing if it is not closed
    let tail := ((Template.takeHole 1 cs).rest.map ('}' :: ·)).getD []
    have happend : inside ++ tail = cs := Template.takeHole_append 1 cs
    have hinside : Spread origin (origin.after inside)
        (segmentDeep (.hole (String.ofList inside) origin pos)) := by
      have hlength := congrArg List.length happend
      have := h (String.ofList inside) origin (by
        simp only [String.length_ofList, List.length_append, List.length_cons] at hlength ⊢
        omega)
      rwa [String.toList_ofList] at this
    have hend : pos.after ('$' :: '{' :: cs) = (origin.after inside).after tail := by
      rw [← Position.after_append, happend]
      rfl
    have hstart : pos ≤ origin := Position.le_after pos ['$', '{']
    rw [hend]
    simp only [List.flatMap_cons, segmentDeep, List.nil_append]
    cases hrest : (Template.takeHole 1 cs).rest with
    | none =>
      have hbehind : behind.2 = [] := by
        simp only [behind]
        split
        next rest h => simp [hrest] at h
        next => rfl
      rw [hbehind, List.flatMap_nil, List.append_nil]
      exact hinside.mono hstart (Position.le_after _ _)
    | some rest =>
      have hbehind : behind.2
          = (Template.splitFrom ((origin.after inside).next '}') rest).2 := by
        simp only [behind]
        split
        next rest' h =>
          obtain rfl : rest = rest' := by simpa [hrest] using h
          rfl
        next h => simp [hrest] at h
      have htail : tail = '}' :: rest := by simp [tail, hrest]
      have hlength := Template.takeHole_rest_length hrest
      have hnext := ih rest hrest fun source origin hsource => h source origin (by
        simp only [List.length_cons] at hlength ⊢
        omega)
      rw [hbehind, htail, Position.after_cons]
      refine (hinside.append hnext (Position.le_after _ _) (Position.lt_next _ _)
        (Position.le_after _ _)).mono hstart (Position.le_refl _)
  | case5 pos c cs _ _ inner ih =>
    have hrest := ih fun source origin hlength => h source origin (by
      simp only [List.length_cons]
      omega)
    exact hrest.mono (Position.le_after pos [c]) (Position.le_refl _)

/-- A lexeme ends behind the tokens of its interpolations. -/
theorem spread_scan {c : Char} {cs : List Char} {pos : Position}
    (h : ∀ (source : String) (origin : Position), source.length < (c :: cs).length →
      Spread origin (origin.after source.toList) ((tokenizeAt source origin).flatMap deep)) :
    ∃ last, Spread pos last
        (deep ⟨(scan c cs).kind, (scan c cs).literal, (scan c cs).raw, pos⟩)
      ∧ pos ≤ last ∧ last < pos.after (scan c cs).text := by
  have hpos : pos < pos.after (scan c cs).text := by
    apply Position.lt_after
    intro hnil
    have hhead := scan_head c cs
    rw [hnil] at hhead
    cases hhead
  have htoken : Spread pos pos [⟨(scan c cs).kind, (scan c cs).literal, (scan c cs).raw, pos⟩] :=
    Spread.singleton ⟨(scan c cs).kind, (scan c cs).literal, (scan c cs).raw, pos⟩
  -- no other token has tokens within
  by_cases hkind : (scan c cs).kind = .template
  · cases scan_cases c cs with
    | word _ heq =>
      rw [heq] at hkind
      exact absurd hkind (Kind.ofWord_ne_template _)
    | other _ _ htemplate => exact absurd hkind htemplate
    | template _ htext =>
      have hlength : (scan c cs).literal.length < (c :: cs).length := by
        have hscan := congrArg List.length (scan_append c cs)
        have htextLength := congrArg List.length htext
        simp only [List.length_append, List.length_cons, List.length_nil, String.length_toList]
          at hscan htextLength ⊢
        omega
      have hbody : Spread (pos.shifted 2) ((pos.shifted 2).after (scan c cs).literal.toList)
          ((Template.splitFrom (pos.shifted 2) (scan c cs).literal.toList).2.flatMap segmentDeep) :=
        spread_segments fun source origin hsource => h source origin (by
          rw [String.length_toList] at hsource
          omega)
      have hstart : pos < pos.shifted 2 := .inr ⟨rfl, Nat.lt_add_of_pos_right (by decide)⟩
      have hend : pos.after (scan c cs).text
          = ((pos.shifted 2).after (scan c cs).literal.toList).next '"' := by
        rw [htext, Position.after_cons, Position.after_cons, Position.after_append]
        rfl
      refine ⟨(pos.shifted 2).after (scan c cs).literal.toList, ?_, ?_, ?_⟩
      · rw [deep_of_template hkind]
        simp only [Template.split, List.flatMap_cons, segmentDeep, List.nil_append]
        exact htoken.append hbody (Position.le_refl _) hstart (Position.le_after _ _)
      · exact Position.le_trans (Position.le_of_lt hstart) (Position.le_after _ _)
      · rw [hend]
        exact Position.lt_next _ _
  · refine ⟨pos, ?_, Position.le_refl _, hpos⟩
    rw [deep_of_other hkind]
    exact htoken

/-- The tokens of a text, at any depth, stand in it in order. -/
theorem spread_deep (pos : Position) (cs : List Char) :
    Spread pos (pos.after cs) ((tokensFrom pos cs).flatMap deep) := by
  induction hn : cs.length using Nat.strongRecOn generalizing pos cs with
  | ind n ih =>
    subst hn
    have happend := skipGap_append cs
    rw [tokensFrom]
    split
    next gap hgap =>
      rw [hgap, List.append_nil] at happend
      dsimp only at happend
      rw [List.flatMap_singleton, deep_of_other (by simp [endOfText]), ← happend]
      exact (Spread.singleton _).mono (Position.le_after _ _) (Position.le_refl _)
    next gap c rest hgap =>
      rw [hgap] at happend
      dsimp only at happend
      have hlength := congrArg List.length happend
      have hscanLength := scan_rest_length c rest
      simp only [List.length_append, List.length_cons] at hlength
      have hrest := ih (scan c rest).rest.length (by omega) ((pos.after gap).after (scan c rest).text)
        (scan c rest).rest rfl
      obtain ⟨last, htoken, hstart, hlast⟩ := @spread_scan c rest (pos.after gap)
        fun source origin hsource => ih source.toList.length (by
          simp only [List.length_cons, String.length_toList] at hsource ⊢
          omega) origin source.toList rfl
      have hend : pos.after cs = ((pos.after gap).after (scan c rest).text).after (scan c rest).rest := by
        rw [← Position.after_append, scan_append, ← Position.after_append, happend]
      dsimp only
      rw [List.flatMap_cons, hend]
      refine (htoken.append hrest hstart hlast (Position.le_after _ _)).mono ?_ (Position.le_refl _)
      exact Position.le_after _ _

theorem sublist_flatMap_deep (ts : List Token) : ts.Sublist (ts.flatMap deep) := by
  induction ts with
  | nil => exact .slnil
  | cons t ts ih =>
    rw [List.flatMap_cons, deep_eq, List.cons_append]
    exact (ih.trans (List.sublist_append_right _ _)).cons_cons t

/-- The tokens at any depth are the tokens themselves and those of their interpolations. -/
theorem count_flatMap_deep (ts : List Token) (p : Position) :
    ((ts.flatMap deep).map (·.pos)).count p = (ts.map (·.pos)).count p
      + (((ts.flatMap Template.holeTokens).flatMap (·.flatMap deep)).map (·.pos)).count p := by
  induction ts with
  | nil => rfl
  | cons t ts ih =>
    simp only [List.flatMap_cons, List.map_append, List.count_append, ih, List.map_cons, deep_eq t,
      List.cons_append, List.flatMap_append, List.count_cons]
    omega

/-- No two tokens of a text, at any depth, stand at the same place. -/
theorem nodup_deep (text : String) :
    (((tokenize text).flatMap deep).map (·.pos)).Nodup := by
  refine List.pairwise_map.2 ((spread_deep .start text.toList).sorted.imp fun {t u} hlt heq => ?_)
  rw [heq] at hlt
  exact Position.lt_irrefl _ hlt

end Token

namespace Bracket

open Template (holeTokens runsWithin)

/-! ## The table of pairs -/

/-- The opening brackets that a scan has met and not given up. -/
def Scan.openings (scan : Scan) : List Position := scan.stack.map (·.2) ++ scan.pairs.map (·.1)

theorem Scan.count_step (scan : Scan) (t : Token) (p : Position) :
    (scan.step t).openings.count p ≤ scan.openings.count p + [t.pos].count p := by
  unfold Scan.step
  split
  · simp only [Scan.openings, List.map_cons, List.cons_append, List.count_cons, List.count_append,
      List.count_nil]
    omega
  split
  · split
    next => exact Nat.le_add_right _ _
    next kind opening below hstack =>
      -- the brackets above the one that is closed are given up
      have hsub : ((kind, opening) :: below).Sublist scan.stack :=
        hstack ▸ (List.dropWhile_suffix _).sublist
      have hcount := (hsub.map (·.2)).count_le p
      simp only [Scan.openings, List.map_cons, List.count_cons, List.count_append, List.count_nil]
        at hcount ⊢
      omega
  · exact Nat.le_add_right _ _

theorem Scan.count_foldl (tokens : List Token) (scan : Scan) (p : Position) :
    (tokens.foldl Scan.step scan).openings.count p
      ≤ scan.openings.count p + (tokens.map (·.pos)).count p := by
  induction tokens generalizing scan with
  | nil => exact Nat.le_refl _
  | cons t ts ih =>
    have hstep := scan.count_step t p
    have hrest := ih (scan.step t)
    simp only [List.foldl_cons, List.map_cons, List.count_cons, List.count_nil] at hstep hrest ⊢
    omega

theorem count_pairsOf (tokens : List Token) (p : Position) :
    ((pairsOf tokens).map (·.1)).count p ≤ (tokens.map (·.pos)).count p := by
  have hcount := Scan.count_foldl tokens ⟨[], []⟩ p
  simp only [Scan.openings, List.map_nil, List.append_nil, List.count_nil, List.count_append]
    at hcount
  unfold pairsOf
  omega

/-- The closing brackets of the pairs that a scan has found are among the tokens. -/
theorem Scan.count_closers (tokens : List Token) (scan : Scan) (p : Position) :
    ((tokens.foldl Scan.step scan).pairs.map (·.2)).count p
      ≤ (scan.pairs.map (·.2)).count p + (tokens.map (·.pos)).count p := by
  induction tokens generalizing scan with
  | nil => exact Nat.le_refl _
  | cons t ts ih =>
    have hstep : ((scan.step t).pairs.map (·.2)).count p
        ≤ (scan.pairs.map (·.2)).count p + [t.pos].count p := by
      unfold Scan.step
      split
      · exact Nat.le_add_right _ _
      split
      · split
        · exact Nat.le_add_right _ _
        · simp only [List.map_cons, List.count_cons, List.count_nil]
          omega
      · exact Nat.le_add_right _ _
    have hrest := ih (scan.step t)
    simp only [List.foldl_cons, List.map_cons, List.count_cons, List.count_nil] at hstep hrest ⊢
    omega

/-- What stands in the pairs of each run at tokens of its own does so for all runs. -/
theorem count_runsWithin {f : Position × Position → Position} {p : Position}
    (h : ∀ tokens : List Token, ((pairsOf tokens).map f).count p ≤ (tokens.map (·.pos)).count p)
    (depth : Nat) (tokens : List Token) : (((runsWithin depth tokens).flatMap pairsOf).map f).count p
      ≤ ((tokens.flatMap Token.deep).map (·.pos)).count p := by
  induction depth generalizing tokens with
  | zero =>
    have hown := h tokens
    rw [Token.count_flatMap_deep]
    simp only [runsWithin, List.flatMap_singleton]
    omega
  | succ depth ih =>
    have hown := h tokens
    have hinner (runs : List (List Token)) :
        ((runs.flatMap fun run => (runsWithin depth run).flatMap pairsOf).map f).count p
          ≤ ((runs.flatMap (·.flatMap Token.deep)).map (·.pos)).count p := by
      induction runs with
      | nil => exact Nat.le_refl _
      | cons run runs ihruns =>
        have hrun := ih run
        simp only [List.flatMap_cons, List.map_append, List.count_append]
        omega
    have hruns := hinner (tokens.flatMap holeTokens)
    rw [Token.count_flatMap_deep]
    simp only [runsWithin, List.flatMap_cons, List.map_append, List.count_append, List.flatMap_assoc]
      at hruns ⊢
    omega

theorem Pairs.nodup_map {f : Position × Position → Position}
    (h : ∀ (tokens : List Token) (p : Position),
      ((pairsOf tokens).map f).count p ≤ (tokens.map (·.pos)).count p) (text : String) :
    ((Pairs.ofText text).closes.map f).Nodup := by
  rw [List.nodup_iff_count_le_one]
  intro p
  have hcount := count_runsWithin (fun tokens => h tokens p) text.length (Token.tokenize text)
  exact Nat.le_trans hcount (List.nodup_iff_count_le_one.1 (Token.nodup_deep text) p)

/-- An opening bracket stands in the table of a text at most once. -/
theorem Pairs.nodup_closes (text : String) : ((Pairs.ofText text).closes.map (·.1)).Nodup :=
  nodup_map count_pairsOf text

/-- A closing bracket stands in the table of a text at most once. -/
theorem Pairs.nodup_closers (text : String) : ((Pairs.ofText text).closes.map (·.2)).Nodup :=
  nodup_map (fun tokens p => by simpa [pairsOf] using Scan.count_closers tokens ⟨[], []⟩ p) text

theorem lookup_of_mem {α β : Type} [BEq α] [LawfulBEq α] {l : List (α × β)} {q : α × β}
    (hnodup : (l.map (·.1)).Nodup) (hq : q ∈ l) : l.lookup q.1 = some q.2 := by
  induction l with
  | nil => cases hq
  | cons r l ih =>
    rw [List.map_cons, List.nodup_cons] at hnodup
    rcases List.mem_cons.1 hq with rfl | hq
    · exact List.lookup_cons_self
    · have hne : q.1 ≠ r.1 := fun heq => hnodup.1 (heq ▸ List.mem_map_of_mem hq)
      rw [List.lookup_cons, beq_false_of_ne hne]
      exact ih hnodup.2 hq

/-- The table has every pair of a run of tokens. -/
def Pairs.Closes (pairs : Pairs) (tokens : List Token) : Prop :=
  ∀ q ∈ pairsOf tokens, pairs.closeOf q.1 = q.2

/-- The table has every pair inside the interpolations of a token, at any depth. -/
inductive Pairs.ClosesWithin (pairs : Pairs) : Token → Prop where
  | intro {t : Token} : (∀ run ∈ holeTokens t, pairs.Closes run) →
      (∀ run ∈ holeTokens t, ∀ u ∈ run, pairs.ClosesWithin u) → pairs.ClosesWithin t

theorem Pairs.closesWithin_of_runsWithin {pairs : Pairs} {depth : Nat} {tokens : List Token}
    (hdepth : ∀ t ∈ tokens, t.depthBound ≤ depth)
    (hruns : ∀ run ∈ runsWithin depth tokens, pairs.Closes run) :
    ∀ t ∈ tokens, pairs.ClosesWithin t := by
  induction depth generalizing tokens with
  | zero =>
    intro t ht
    have hnone : holeTokens t = [] := by
      have hbound := hdepth t ht
      unfold Token.depthBound at hbound
      unfold holeTokens
      split at hbound
      · omega
      next hkind => rw [if_neg hkind]
    exact .intro (by simp [hnone]) (by simp [hnone])
  | succ depth ih =>
    intro t ht
    have hinner (run : List Token) (hrun : run ∈ holeTokens t) :
        ∀ run' ∈ runsWithin depth run, pairs.Closes run' := by
      intro run' hrun'
      apply hruns run'
      rw [runsWithin]
      refine List.mem_cons_of_mem _ (List.mem_flatMap.2 ⟨run, ?_, hrun'⟩)
      exact List.mem_flatMap.2 ⟨t, ht, hrun⟩
    constructor
    · intro run hrun
      apply hinner run hrun
      cases depth <;> exact List.mem_cons_self
    · intro run hrun
      refine ih (fun u hu => ?_) (hinner run hrun)
      have hlt := Token.depthBound_lt hrun hu
      have hbound := hdepth t ht
      omega

/-- The table of a text has every pair of it, at any depth, however far open brackets reach. -/
theorem Pairs.closes_until (text : String) (stop : Position) :
    Pairs.Closes ⟨(Pairs.ofText text).closes, stop⟩ (Token.tokenize text)
      ∧ ∀ t ∈ Token.tokenize text, Pairs.ClosesWithin ⟨(Pairs.ofText text).closes, stop⟩ t := by
  have hruns : ∀ run ∈ runsWithin text.length (Token.tokenize text),
      Pairs.Closes ⟨(Pairs.ofText text).closes, stop⟩ run := by
    intro run hrun q hq
    have hmem : q ∈ (Pairs.ofText text).closes := List.mem_flatMap.2 ⟨run, hrun, hq⟩
    rw [Pairs.closeOf, lookup_of_mem (Pairs.nodup_closes text) hmem, Option.getD_some]
  constructor
  · apply hruns
    cases text.length <;> exact List.mem_cons_self
  · refine Pairs.closesWithin_of_runsWithin (fun t ht => ?_) hruns
    unfold Token.depthBound
    split
    next hkind =>
      have hlength := Token.literal_length_of_mem ht hkind
      rw [String.length_toList] at hlength
      omega
    next => exact Nat.zero_le _

end Bracket

end Welle
