import Mathlib.Data.List.Pairwise
import Welle.Proofs.Nesting

set_option autoImplicit false

/-! # Pairs of brackets nest

The pairs of a text, those inside of interpolations with them, lie one within the other or apart,
however the brackets of the text are mixed up. Within a run of tokens it is the stack of the scan that
sees to it: a bracket that is still open never stands between the two of a pair (`Scan.Tidy`). The
runs of interpolations stand between two tokens of the run around them, so their pairs do not cross
those of that run. -/

namespace Welle.Bracket

open Template (holeTokens runsWithin)

/-- Two pairs lie apart, or one of them lies within the other. -/
def Clear (q r : Position × Position) : Prop :=
  q.2 < r.1 ∨ r.2 < q.1 ∨ (q.1 < r.1 ∧ r.2 < q.2) ∨ (r.1 < q.1 ∧ q.2 < r.2)

/-- A pair of positions at which a run of tokens has an opening bracket and, further on, a bracket
    that closes its kind. -/
def Joins (run : List Token) (q : Position × Position) : Prop :=
  ∃ l r, [l, r].Sublist run ∧ closer? l.kind = some r.kind ∧ l.pos = q.1 ∧ r.pos = q.2

theorem Joins.mono {run run' : List Token} {q : Position × Position} (h : Joins run q)
    (hsub : run.Sublist run') : Joins run' q := by
  obtain ⟨l, r, hmem, hkind, hq⟩ := h
  exact ⟨l, r, hmem.trans hsub, hkind, hq⟩

theorem Joins.lt {run : List Token} {q : Position × Position} (h : Joins run q)
    (hsorted : run.Pairwise fun t u => t.pos < u.pos) : q.1 < q.2 := by
  obtain ⟨l, r, hmem, -, hl, hr⟩ := h
  rw [← hl, ← hr]
  exact List.rel_of_pairwise_cons (hsorted.sublist hmem) (List.mem_singleton_self r)

/-- Neither bracket of a pair is a template. -/
theorem Joins.exists_mem {run : List Token} {q : Position × Position} (h : Joins run q) :
    ∃ l ∈ run, ∃ r ∈ run, l.pos = q.1 ∧ r.pos = q.2 ∧ l.kind ≠ .template ∧ r.kind ≠ .template := by
  obtain ⟨l, r, hmem, hkind, hl, hr⟩ := h
  have hl' : l ∈ run := hmem.subset List.mem_cons_self
  have hr' : r ∈ run := hmem.subset (List.mem_cons_of_mem l List.mem_cons_self)
  refine ⟨l, hl', r, hr', hl, hr, ?_, ?_⟩
  · intro htemplate
    rw [htemplate] at hkind
    cases hkind
  · intro htemplate
    rw [htemplate] at hkind
    cases hkind' : l.kind <;> rw [hkind'] at hkind <;> cases hkind

/-! ## One run of tokens -/

/-- A scan over tokens in order: the brackets that are open are among the tokens, innermost first, the
    pairs join brackets of the tokens and do not cross, and no open bracket stands within a pair. -/
structure Scan.Tidy (front : List Token) (scan : Scan) : Prop where
  opened : ∀ entry ∈ scan.stack, ∃ l ∈ front, closer? l.kind = some entry.1 ∧ l.pos = entry.2
  innermost : scan.stack.Pairwise fun entry outer => outer.2 < entry.2
  joins : ∀ q ∈ scan.pairs, Joins front q
  clear : scan.pairs.Pairwise Clear
  outside : ∀ entry ∈ scan.stack, ∀ q ∈ scan.pairs, entry.2 < q.1 ∨ q.2 < entry.2

namespace Scan.Tidy

variable {front : List Token} {scan : Scan} {t : Token}

/-- A token that the scan passes by keeps it tidy. -/
theorem pass (h : scan.Tidy front) : scan.Tidy (front ++ [t]) where
  opened := by
    intro entry hentry
    obtain ⟨l, hl, hkind⟩ := h.opened entry hentry
    exact ⟨l, List.mem_append_left _ hl, hkind⟩
  innermost := h.innermost
  joins := fun q hq => (h.joins q hq).mono (List.sublist_append_left _ _)
  clear := h.clear
  outside := h.outside

/-- A bracket that opens stands behind all pairs so far. -/
theorem push {closer : Token.Kind} (h : scan.Tidy front) (hbehind : ∀ u ∈ front, u.pos < t.pos)
    (hkind : closer? t.kind = some closer) :
    Tidy (front ++ [t]) ⟨(closer, t.pos) :: scan.stack, scan.pairs⟩ where
  opened := by
    intro entry hentry
    rcases List.mem_cons.1 hentry with rfl | hentry
    · exact ⟨t, by simp, hkind, rfl⟩
    · exact h.pass.opened entry hentry
  innermost := by
    rw [List.pairwise_cons]
    refine ⟨fun outer houter => ?_, h.innermost⟩
    obtain ⟨l, hl, -, hpos⟩ := h.opened outer houter
    exact hpos ▸ hbehind l hl
  joins := h.pass.joins
  clear := h.clear
  outside := by
    intro entry hentry q hq
    rcases List.mem_cons.1 hentry with rfl | hentry
    · obtain ⟨-, -, r, hr, -, hpos, -⟩ := (h.joins q hq).exists_mem
      exact .inr (hpos ▸ hbehind r hr)
    · exact h.outside entry hentry q hq

/-- A bracket that closes an open one: what was opened inside of the pair is given up, and the pairs
    found so far lie in front of the opening bracket or inside of the pair. -/
theorem pop {kind : Token.Kind} {opening : Position} {above below : List (Token.Kind × Position)}
    (h : scan.Tidy front) (hbehind : ∀ u ∈ front, u.pos < t.pos)
    (hstack : scan.stack = above ++ (kind, opening) :: below) (hkind : kind = t.kind) :
    Tidy (front ++ [t]) ⟨below, (opening, t.pos) :: scan.pairs⟩ := by
  have htop : (kind, opening) ∈ scan.stack := by simp [hstack]
  have hbelow : ∀ entry ∈ below, entry ∈ scan.stack := by
    intro entry hentry
    simp [hstack, hentry]
  have hordered := h.innermost
  rw [hstack, List.pairwise_append, List.pairwise_cons] at hordered
  constructor
  · exact fun entry hentry => h.pass.opened entry (hbelow entry hentry)
  · exact hordered.2.1.2
  · intro q hq
    rcases List.mem_cons.1 hq with rfl | hq
    · obtain ⟨l, hl, hcloser, hpos⟩ := h.opened _ htop
      have hsub : [l, t].Sublist (front ++ [t]) :=
        (List.singleton_sublist.2 hl).append (List.Sublist.refl [t])
      exact ⟨l, t, hsub, hkind ▸ hcloser, hpos, rfl⟩
    · exact h.pass.joins q hq
  · rw [List.pairwise_cons]
    refine ⟨fun q hq => ?_, h.clear⟩
    obtain ⟨-, -, r, hr, -, hpos, -⟩ := (h.joins q hq).exists_mem
    rcases h.outside _ htop q hq with hinside | hfront
    · exact .inr (.inr (.inl ⟨hinside, hpos ▸ hbehind r hr⟩))
    · exact .inr (.inl hfront)
  · intro entry hentry q hq
    rcases List.mem_cons.1 hq with rfl | hq
    · exact .inl (hordered.2.1.1 entry hentry)
    · exact h.outside entry (hbelow entry hentry) q hq

theorem step (h : scan.Tidy front) (hbehind : ∀ u ∈ front, u.pos < t.pos) :
    (scan.step t).Tidy (front ++ [t]) := by
  unfold Scan.step
  split
  next closer hcloser => exact h.push hbehind hcloser
  split
  · split
    next => exact h.pass
    next kind opening below hstack =>
      have hsplit := List.takeWhile_append_dropWhile (p := fun entry => entry.1 ≠ t.kind)
        (l := scan.stack)
      rw [hstack] at hsplit
      have hkind : kind = t.kind := by
        have hhead := List.head?_dropWhile_not (fun entry => decide (entry.1 ≠ t.kind)) scan.stack
        rw [hstack] at hhead
        simpa using hhead
      exact h.pop hbehind hsplit.symm hkind
  · exact h.pass

theorem run (tokens : List Token) (h : scan.Tidy front)
    (hsorted : (front ++ tokens).Pairwise fun t u => t.pos < u.pos) :
    (tokens.foldl Scan.step scan).Tidy (front ++ tokens) := by
  induction tokens generalizing front scan with
  | nil => simpa using h
  | cons t ts ih =>
    have hbehind : ∀ u ∈ front, u.pos < t.pos := fun u hu =>
      (List.pairwise_append.1 hsorted).2.2 u hu t List.mem_cons_self
    rw [List.append_cons] at hsorted ⊢
    rw [List.foldl_cons]
    exact ih (h.step hbehind) hsorted

end Scan.Tidy

theorem tidy_pairsOf {tokens : List Token} (hsorted : tokens.Pairwise fun t u => t.pos < u.pos) :
    (tokens.foldl Scan.step ⟨[], []⟩).Tidy tokens :=
  have hstart : Scan.Tidy [] ⟨[], []⟩ := ⟨by simp, .nil, by simp, .nil, by simp⟩
  hstart.run tokens hsorted

/-! ## Runs inside of templates -/

/-- Tokens in order, those of interpolations with them. -/
abbrev Sorted (tokens : List Token) : Prop :=
  (tokens.flatMap Token.deep).Pairwise fun t u => t.pos < u.pos

/-- The tokens of the interpolations, at any depth, stand in the order of the tokens around them. -/
theorem sublist_holes (tokens : List Token) :
    ((tokens.flatMap holeTokens).flatMap (·.flatMap Token.deep)).Sublist
      (tokens.flatMap Token.deep) := by
  induction tokens with
  | nil => exact .slnil
  | cons t ts ih =>
    rw [List.flatMap_cons, List.flatMap_append, List.flatMap_cons, Token.deep_eq]
    exact (List.sublist_cons_self _ _).append ih

theorem mem_deep_of_mem_runsWithin {depth : Nat} {tokens run : List Token} {t : Token}
    (hrun : run ∈ runsWithin depth tokens) (ht : t ∈ run) : t ∈ tokens.flatMap Token.deep := by
  induction depth generalizing tokens with
  | zero =>
    obtain rfl : run = tokens := by simpa [runsWithin] using hrun
    exact (Token.sublist_flatMap_deep run).subset ht
  | succ depth ih =>
    rw [runsWithin, List.mem_cons] at hrun
    rcases hrun with rfl | hrun
    · exact (Token.sublist_flatMap_deep run).subset ht
    · obtain ⟨hole, hhole, hrun⟩ := List.mem_flatMap.1 hrun
      exact (sublist_holes tokens).subset (List.mem_flatMap.2 ⟨hole, hhole, ih hrun⟩)

/-- The brackets of a pair within some tokens are among them, those of interpolations with them. -/
theorem exists_mem_of_runsWithin {depth : Nat} {tokens run : List Token} {q : Position × Position}
    (hrun : run ∈ runsWithin depth tokens) (hq : Joins run q) :
    ∃ l ∈ tokens.flatMap Token.deep, ∃ r ∈ tokens.flatMap Token.deep, l.pos = q.1 ∧ r.pos = q.2 := by
  obtain ⟨l, hl, r, hr, hposl, hposr, -⟩ := hq.exists_mem
  exact ⟨l, mem_deep_of_mem_runsWithin hrun hl, r, mem_deep_of_mem_runsWithin hrun hr, hposl, hposr⟩

/-- The tokens of a template stand together: another token is in front of all of them or behind. -/
theorem before_or_behind {tokens : List Token} (hsorted : Sorted tokens) {t v : Token}
    (ht : t ∈ tokens) (hv : v ∈ tokens) (hne : t ≠ v) :
    (∀ u ∈ v.deep, t.pos < u.pos) ∨ ∀ u ∈ v.deep, u.pos < t.pos := by
  let R (t v : Token) : Prop :=
    (∀ a ∈ t.deep, ∀ b ∈ v.deep, a.pos < b.pos) ∨ ∀ b ∈ v.deep, ∀ a ∈ t.deep, b.pos < a.pos
  have hsymm : Std.Symm R := ⟨fun _ _ h => h.symm⟩
  have hpairwise : tokens.Pairwise R := (List.pairwise_flatMap.1 hsorted).2.imp fun h => .inl h
  rcases hpairwise.forall ht hv hne with h | h
  · exact .inl fun u hu => h t t.mem_deep_self u hu
  · exact .inr fun u hu => h u hu t t.mem_deep_self

/-- A pair does not cross the pairs inside of the templates that stand in its run. -/
theorem clear_of_hole {depth : Nat} {tokens hole run : List Token} (hsorted : Sorted tokens)
    (hhole : hole ∈ tokens.flatMap holeTokens) (hrun : run ∈ runsWithin depth hole)
    {q r : Position × Position} (hq : Joins tokens q) (hr : Joins run r) : Clear q r := by
  obtain ⟨v, hv, hhole⟩ := List.mem_flatMap.1 hhole
  have htemplate : v.kind = .template := by
    by_contra hkind
    simp [holeTokens, hkind] at hhole
  have hinside : ∀ u ∈ hole.flatMap Token.deep, u ∈ v.deep := by
    intro u hu
    rw [Token.deep_eq]
    exact List.mem_cons_of_mem v (List.mem_flatMap.2 ⟨hole, hhole, hu⟩)
  obtain ⟨a, ha, b, hb, hposa, hposb⟩ := exists_mem_of_runsWithin hrun hr
  obtain ⟨l, hl, m, hm, hposl, hposm, hkindl, hkindm⟩ := hq.exists_mem
  have hlv : l ≠ v := fun heq => hkindl (heq ▸ htemplate)
  have hmv : m ≠ v := fun heq => hkindm (heq ▸ htemplate)
  rw [Clear, ← hposl, ← hposm, ← hposa, ← hposb]
  rcases before_or_behind hsorted hl hv hlv with hbefore | hbehind
  · rcases before_or_behind hsorted hm hv hmv with hbefore' | hbehind'
    · exact .inl (hbefore' a (hinside a ha))
    · exact .inr (.inr (.inl ⟨hbefore a (hinside a ha), hbehind' b (hinside b hb)⟩))
  · exact .inr (.inl (hbehind b (hinside b hb)))

/-- The pairs of a run of tokens and of all runs inside of it do not cross. -/
theorem clear_runsWithin {depth : Nat} {tokens : List Token} (hsorted : Sorted tokens) :
    (∀ run ∈ runsWithin depth tokens, run.Pairwise fun t u => t.pos < u.pos)
      ∧ ((runsWithin depth tokens).flatMap pairsOf).Pairwise Clear := by
  have hown := hsorted.sublist (Token.sublist_flatMap_deep tokens)
  induction depth generalizing tokens with
  | zero =>
    have hclear : (pairsOf tokens).Pairwise Clear := (tidy_pairsOf hown).clear
    simpa [runsWithin, hown] using hclear
  | succ depth ih =>
    have hholes : ((tokens.flatMap holeTokens).flatMap (·.flatMap Token.deep)).Pairwise
        fun t u => t.pos < u.pos := hsorted.sublist (sublist_holes tokens)
    rw [List.pairwise_flatMap] at hholes
    obtain ⟨heach, hapart⟩ := hholes
    have hinner : ∀ hole ∈ tokens.flatMap holeTokens,
        (∀ run ∈ runsWithin depth hole, run.Pairwise fun t u => t.pos < u.pos)
          ∧ ((runsWithin depth hole).flatMap pairsOf).Pairwise Clear := fun hole hhole =>
      ih (heach hole hhole) ((heach hole hhole).sublist (Token.sublist_flatMap_deep hole))
    have hjoins {hole run : List Token} (hhole : hole ∈ tokens.flatMap holeTokens)
        (hrun : run ∈ runsWithin depth hole) {q : Position × Position} (hq : q ∈ pairsOf run) :
        Joins run q := (tidy_pairsOf ((hinner hole hhole).1 run hrun)).joins q hq
    rw [runsWithin]
    constructor
    · rw [List.forall_mem_cons]
      refine ⟨hown, fun run hrun => ?_⟩
      obtain ⟨hole, hhole, hrun⟩ := List.mem_flatMap.1 hrun
      exact (hinner hole hhole).1 run hrun
    · rw [List.flatMap_cons, List.flatMap_assoc, List.pairwise_append, List.pairwise_flatMap]
      refine ⟨(tidy_pairsOf hown).clear, ⟨fun hole hhole => (hinner hole hhole).2, ?_⟩, ?_⟩
      · -- two interpolations stand one behind the other, and so do their pairs
        refine hapart.imp_of_mem fun {hole hole'} hhole hhole' hbefore q hq r hr => ?_
        obtain ⟨run, hrun, hq⟩ := List.mem_flatMap.1 hq
        obtain ⟨run', hrun', hr⟩ := List.mem_flatMap.1 hr
        obtain ⟨-, -, b, hb, -, hposb⟩ := exists_mem_of_runsWithin hrun (hjoins hhole hrun hq)
        obtain ⟨a, ha, -, -, hposa, -⟩ := exists_mem_of_runsWithin hrun' (hjoins hhole' hrun' hr)
        exact .inl (hposb ▸ hposa ▸ hbefore b hb a ha)
      · -- a pair of an interpolation lies within one of the run around it, or apart
        intro q hq r hr
        obtain ⟨hole, hhole, hr⟩ := List.mem_flatMap.1 hr
        obtain ⟨run, hrun, hr⟩ := List.mem_flatMap.1 hr
        exact clear_of_hole hsorted hhole hrun ((tidy_pairsOf hown).joins q hq)
          (hjoins hhole hrun hr)

/-! ## Texts -/

/-- The pairs of a text, valid or not: each joins an opening bracket with one of its kind further on
    in the same run of tokens, no bracket is in two pairs, and any two pairs lie apart or one within
    the other. The pairs of all interpolations are among them, at any depth. -/
theorem Pairs.clear_ofText (text : String) :
    (∀ q ∈ (ofText text).closes, q.1 < q.2 ∧ ∃ run ∈ Template.runs text, Joins run q)
      ∧ ((ofText text).closes.map (·.1)).Nodup ∧ ((ofText text).closes.map (·.2)).Nodup
      ∧ (ofText text).closes.Pairwise Clear
      ∧ (ofText text).Closes (Token.tokenize text)
      ∧ ∀ t ∈ Token.tokenize text, (ofText text).ClosesWithin t := by
  obtain ⟨hsorted, hclear⟩ := @clear_runsWithin text.length _
    (Token.spread_deep .start text.toList).sorted
  refine ⟨fun q hq => ?_, nodup_closes text, nodup_closers text, hclear,
    closes_until text (endPosition text)⟩
  obtain ⟨run, hrun, hq⟩ := List.mem_flatMap.1 hq
  have hjoins := (tidy_pairsOf (hsorted run hrun)).joins q hq
  exact ⟨hjoins.lt (hsorted run hrun), run, hrun, hjoins⟩

/-- The bracket that is skipped over stays open, and the pair in the interpolation lies apart. -/
example : (Pairs.ofText "(a[b) t\"$\x7bf(1)\x7d\"]").closes
    = [(⟨1, 1⟩, ⟨1, 5⟩), (⟨1, 12⟩, ⟨1, 14⟩)] := by decide +kernel

end Welle.Bracket
