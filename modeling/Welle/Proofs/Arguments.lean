import Welle.Proofs.Calls

set_option autoImplicit false

/-! # The argument at a cursor

The scan for the argument at a cursor goes over tokens and knows nothing of the tree. Where nothing is
reported it finds the argument that the tree has there: the scan is quiet within every argument, so it
counts the commas of the call's own argument list and no others. -/

namespace Welle

namespace Grammar

/-! ## Argument lists -/

/-- Tokens that write the arguments of a call: the tokens of each argument, and the commas behind
    arguments. Behind the last argument there may be a comma, too. -/
inductive Arguments : List Token → List Expr → List (List Token) → List Token → Prop where
  | none : Arguments [] [] [] []
  | last {ts : List Token} {e : Expr} :
      Derives True ts (.item (.arg e)) → Arguments ts [e] [ts] []
  | trailing {ts : List Token} {e : Expr} {comma : Token} :
      Derives True ts (.item (.arg e)) → comma.kind = .comma →
      Arguments (ts ++ [comma]) [e] [ts] [comma]
  | next {ts us : List Token} {e e' : Expr} {es : List Expr} {comma : Token}
      {written : List (List Token)} {commas : List Token} :
      Derives True ts (.item (.arg e)) → comma.kind = .comma →
      Arguments us (e' :: es) written commas →
      Arguments (ts ++ comma :: us) (e :: e' :: es) (ts :: written) (comma :: commas)

theorem Derives.arguments_more {ts us : List Token} {e : Expr} {args : List Expr}
    (he : Derives True ts (.item (.arg e))) (h : Derives True us (.more (args.map .arg))) :
    ∃ written commas, Arguments (ts ++ us) (e :: args) written commas := by
  induction args generalizing ts us e with
  | nil =>
    rw [List.map_nil] at h
    cases h with
    | moreNil => exact ⟨[ts], [], (List.append_nil ts).symm ▸ .last he⟩
    | moreTrailing hcomma => exact ⟨[ts], _, .trailing he hcomma⟩
  | cons e' es ih =>
    rw [List.map_cons] at h
    cases h with
    | moreCons hcomma he' hmore =>
      obtain ⟨written, commas, hrest⟩ := ih he' hmore
      exact ⟨ts :: written, _ :: commas, .next he hcomma hrest⟩

/-- What is read as a list of arguments writes an argument list. -/
theorem Derives.arguments {ts : List Token} {args : List Expr}
    (h : Derives True ts (.items (args.map .arg))) :
    ∃ written commas, Arguments ts args written commas := by
  cases args with
  | nil =>
    rw [List.map_nil] at h
    cases h with
    | itemsNil => exact ⟨[], [], .none⟩
  | cons e es =>
    rw [List.map_cons] at h
    cases h with
    | itemsCons he hmore => exact he.arguments_more hmore

end Grammar

/-! ## Cursors -/

/-- Tokens one behind the other. -/
abbrev InOrder (ts : List Token) : Prop := ts.Pairwise fun t u => t.pos < u.pos

/-- The tokens in front of a cursor. -/
abbrev inFront (pos : Position) (ts : List Token) : List Token := ts.filter (·.pos < pos)

/-- The cursor is behind the separator with an index and not behind the next one. -/
def Between (separators : List Token) (index : Nat) (pos : Position) : Prop :=
  ∃ low high, separators[index]? = some low ∧ separators[index + 1]? = some high
    ∧ low.pos < pos ∧ pos ≤ high.pos

section InFront

variable {ts us : List Token} {comma : Token} {pos : Position}

theorem inFront_eq_self (h : ∀ t ∈ ts, t.pos < pos) : inFront pos ts = ts :=
  List.filter_eq_self.2 fun t ht => decide_eq_true (h t ht)

theorem inFront_eq_nil (h : ∀ t ∈ ts, pos ≤ t.pos) : inFront pos ts = [] := by
  refine List.filter_eq_nil_iff.2 fun t ht hlt => ?_
  exact Position.lt_irrefl _ (Position.lt_of_le_of_lt (h t ht) (of_decide_eq_true hlt))

theorem inFront_append (ts us : List Token) (pos : Position) :
    inFront pos (ts ++ us) = inFront pos ts ++ inFront pos us := List.filter_append ..

theorem inFront_cons_of_lt (h : comma.pos < pos) (us : List Token) :
    inFront pos (comma :: us) = comma :: inFront pos us :=
  List.filter_cons_of_pos (decide_eq_true h)

/-- Nothing is in front of a cursor that is not behind the first token. -/
theorem inFront_cons_of_le (hsorted : InOrder (comma :: us)) (h : pos ≤ comma.pos) :
    inFront pos (comma :: us) = [] := by
  refine inFront_eq_nil fun t ht => ?_
  rcases List.mem_cons.1 ht with rfl | ht
  · exact h
  · exact Position.le_trans h (Position.le_of_lt (List.rel_of_pairwise_cons hsorted ht))

/-- What stands in front of a cursor is a beginning of tokens in order. -/
theorem inFront_begins (hsorted : InOrder ts) (pos : Position) : inFront pos ts <+: ts := by
  induction ts with
  | nil => exact List.prefix_rfl
  | cons t ts ih =>
    rcases Position.lt_or_le t.pos pos with hlt | hle
    · rw [inFront_cons_of_lt hlt, List.cons_prefix_cons]
      exact ⟨rfl, ih hsorted.of_cons⟩
    · rw [inFront_cons_of_le hsorted hle]
      exact List.nil_prefix

end InFront

/-! ## Counting -/

/-- Within an argument no comma counts. -/
theorem Quiet.commas_inFront {ts : List Token} (h : Quiet 1 ts) (hsorted : InOrder ts)
    (pos : Position) (commas : Nat) :
    ((inFront pos ts).foldl ArgumentCount.next ⟨1, commas⟩).commas = commas :=
  h.part ⟨1, commas⟩ _ (Nat.le_refl 1) (inFront_begins hsorted pos)

section Separated

variable {ts us : List Token} {comma : Token} {pos : Position} {commas : Nat}

/-- A comma behind an argument counts where it is in front of the cursor. -/
theorem Quiet.foldl_of_lt (h : Quiet 1 ts) (hcomma : comma.kind = .comma)
    (hsorted : InOrder (ts ++ comma :: us)) (hlt : comma.pos < pos) :
    (inFront pos (ts ++ comma :: us)).foldl ArgumentCount.next ⟨1, commas⟩
      = (inFront pos us).foldl ArgumentCount.next ⟨1, commas + 1⟩ := by
  have hfront : inFront pos ts = ts := inFront_eq_self fun t ht =>
    Position.lt_of_lt_of_le ((List.pairwise_append.1 hsorted).2.2 t ht comma List.mem_cons_self)
      (Position.le_of_lt hlt)
  rw [inFront_append, hfront, inFront_cons_of_lt hlt, List.foldl_append,
    h.whole ⟨1, commas⟩ (Nat.le_refl 1), List.foldl_cons, ArgumentCount.next_of_comma hcomma]
  rfl

/-- Where the comma is not in front of the cursor, neither is anything behind it. -/
theorem Quiet.commas_of_le (h : Quiet 1 ts) (hsorted : InOrder (ts ++ comma :: us))
    (hle : pos ≤ comma.pos) :
    ((inFront pos (ts ++ comma :: us)).foldl ArgumentCount.next ⟨1, commas⟩).commas = commas := by
  obtain ⟨hts, hus, -⟩ := List.pairwise_append.1 hsorted
  rw [inFront_append, inFront_cons_of_le hus hle, List.append_nil]
  exact h.commas_inFront hts pos commas

end Separated

namespace Grammar.Arguments

variable {ts commas : List Token} {args : List Expr} {written : List (List Token)} {l r : Token}
variable {pos : Position}

theorem sublist (h : Arguments ts args written commas) : commas.Sublist ts := by
  induction h with
  | none => exact .slnil
  | last _ => exact List.nil_sublist _
  | trailing _ _ => exact List.sublist_append_right _ _
  | next _ _ _ ih => exact (ih.cons_cons _).trans (List.sublist_append_right _ _)

/-- The commas of an argument list that count are those in front of the cursor. -/
theorem count (h : Arguments ts args written commas) (hsorted : InOrder ts) (pos : Position)
    (before : Nat) : ((inFront pos ts).foldl ArgumentCount.next ⟨1, before⟩).commas
      = before + (inFront pos commas).length := by
  induction h generalizing before with
  | none => rfl
  | last he => exact he.carries.quiet.commas_inFront hsorted pos before
  | @trailing ts e comma he hcomma =>
    rcases Position.lt_or_le comma.pos pos with hlt | hle
    · rw [he.carries.quiet.foldl_of_lt hcomma hsorted hlt, inFront_cons_of_lt hlt]
      rfl
    · rw [he.carries.quiet.commas_of_le hsorted hle,
        inFront_cons_of_le (List.pairwise_singleton _ _) hle]
      rfl
  | @next ts us e e' es comma written commas he hcomma hrest ih =>
    have hus : InOrder (comma :: us) := (List.pairwise_append.1 hsorted).2.1
    rcases Position.lt_or_le comma.pos pos with hlt | hle
    · rw [he.carries.quiet.foldl_of_lt hcomma hsorted hlt, inFront_cons_of_lt hlt, ih hus.of_cons,
        List.length_cons]
      omega
    · rw [he.carries.quiet.commas_of_le hsorted hle,
        inFront_cons_of_le (hus.sublist (hrest.sublist.cons_cons comma)) hle]
      rfl

end Grammar.Arguments

/-! ## Separators -/

theorem Between.cons {separators : List Token} {index : Nat} {pos : Position}
    (h : Between separators index pos) (t : Token) : Between (t :: separators) (index + 1) pos := by
  obtain ⟨low, high, hlow, hhigh, hpos⟩ := h
  exact ⟨low, high, by rwa [List.getElem?_cons_succ], by rwa [List.getElem?_cons_succ], hpos⟩

/-- Between two separators, as many commas are in front of the cursor as the first of them has in
    front of it or is. -/
theorem length_inFront_of_between {commas : List Token} {l r : Token} {index : Nat} {pos : Position}
    (hsorted : InOrder (l :: (commas ++ [r]))) (h : Between (l :: (commas ++ [r])) index pos) :
    (inFront pos commas).length = index := by
  induction commas generalizing l index with
  | nil =>
    obtain ⟨low, high, -, hhigh, -⟩ := h
    cases index with
    | zero => rfl
    | succ index => simp at hhigh
  | cons comma commas ih =>
    have htail : InOrder (comma :: (commas ++ [r])) := hsorted.of_cons
    obtain ⟨low, high, hlow, hhigh, hlt, hle⟩ := h
    cases index with
    | zero =>
      obtain rfl : comma = high := by simpa using hhigh
      rw [inFront_cons_of_le (htail.sublist (List.sublist_append_left (comma :: commas) [r])) hle]
      rfl
    | succ index =>
      have hrest : Between (comma :: (commas ++ [r])) index pos := by
        exact ⟨low, high, by simpa using hlow, by simpa using hhigh, hlt, hle⟩
      have hcomma : comma.pos < pos := by
        rw [List.getElem?_cons_succ] at hlow
        rcases List.mem_cons.1 (List.mem_of_getElem? hlow) with rfl | hmem
        · exact hlt
        · have hbefore := List.rel_of_pairwise_cons htail hmem
          exact Position.lt_of_lt_of_le hbefore (Position.le_of_lt hlt)
      rw [inFront_cons_of_lt hcomma, List.length_cons, ih htail hrest]

theorem between_of_mem {ts rest separators : List Token} {l sep t : Token}
    (hsorted : InOrder (l :: (ts ++ sep :: rest))) (ht : t ∈ ts) :
    Between (l :: sep :: separators) 0 t.pos := by
  obtain ⟨hl, hrest⟩ := List.pairwise_cons.1 hsorted
  refine ⟨l, sep, rfl, rfl, hl t (List.mem_append_left _ ht), Position.le_of_lt ?_⟩
  exact (List.pairwise_append.1 hrest).2.2 t ht sep List.mem_cons_self

/-- Every argument stands between the separators that have its index and the next one. -/
theorem Grammar.Arguments.between {ts commas : List Token} {args : List Expr}
    {written : List (List Token)} (h : Arguments ts args written commas) {l r : Token}
    (hsorted : InOrder (l :: (ts ++ [r]))) {index : Nat} {us : List Token}
    (hus : written[index]? = some us) {t : Token} (ht : t ∈ us) :
    Between (l :: (commas ++ [r])) index t.pos := by
  induction h generalizing l index with
  | none => cases hus
  | last _ =>
    cases index with
    | zero =>
      obtain rfl := Option.some.inj hus
      exact between_of_mem hsorted ht
    | succ index => cases hus
  | trailing _ _ =>
    cases index with
    | zero =>
      obtain rfl := Option.some.inj hus
      rw [List.append_assoc] at hsorted
      exact between_of_mem hsorted ht
    | succ index => cases hus
  | @next ts vs e e' es comma written commas _ _ _ ih =>
    rw [List.append_assoc] at hsorted
    cases index with
    | zero =>
      obtain rfl := Option.some.inj hus
      exact between_of_mem hsorted ht
    | succ index =>
      have hrest : InOrder (comma :: (vs ++ [r])) := (List.pairwise_append.1 hsorted.of_cons).2.1
      exact (ih hrest hus).cons l

/-! ## The brackets of a call -/

namespace Bracket

/-- Pairs that are found stay. -/
theorem Scan.subset_foldl (ts : List Token) (scan : Scan) :
    scan.pairs ⊆ (ts.foldl Scan.step scan).pairs := by
  induction ts generalizing scan with
  | nil => exact List.Subset.refl _
  | cons t ts ih =>
    refine List.Subset.trans ?_ (ih (scan.step t))
    unfold Scan.step
    split
    · exact List.Subset.refl _
    split
    · split
      · exact List.Subset.refl _
      · exact List.subset_cons_self _ _
    · exact List.Subset.refl _

/-- Brackets around balanced tokens are a pair, whatever stands around them. -/
theorem mem_pairsOf {ts inner : List Token} {l r : Token} (hpart : l :: (inner ++ [r]) <:+: ts)
    (hkind : closer? l.kind = some r.kind) (hinner : Balanced inner) :
    (l.pos, r.pos) ∈ pairsOf ts := by
  obtain ⟨before, after, rfl⟩ := hpart
  rw [pairsOf, List.foldl_append, List.foldl_append, foldl_bracket hkind hinner]
  exact Scan.subset_foldl after _ List.mem_cons_self

end Bracket

namespace Token

theorem inOrder_withoutNewlines (text : String) : InOrder (withoutNewlines text) := by
  have hsorted := (spread_deep .start text.toList).sorted
  exact hsorted.sublist (List.filter_sublist.trans (sublist_flatMap_deep _))

/-- What a program is read from are its tokens without line ends, up to the end of the text. -/
theorem content_part (text : String) : Grammar.content (tokenize text) <:+: withoutNewlines text :=
  ((List.takeWhile_prefix _).filter _).isInfix

end Token

/-- The tokens from an opening bracket on and in front of a cursor within the brackets. -/
theorem filter_between {before inner after : List Token} {l r : Token} {pos : Position}
    (hsorted : InOrder (before ++ l :: (inner ++ r :: after))) (hopen : l.pos < pos)
    (hclose : pos ≤ r.pos) :
    (before ++ l :: (inner ++ r :: after)).filter (fun t => l.pos ≤ t.pos && t.pos < pos)
      = l :: inFront pos inner := by
  obtain ⟨-, hrest, hbefore⟩ := List.pairwise_append.1 hsorted
  obtain ⟨hl, hinner⟩ := List.pairwise_cons.1 hrest
  have hnone : before.filter (fun t => l.pos ≤ t.pos && t.pos < pos) = [] := by
    refine List.filter_eq_nil_iff.2 fun t ht hkeep => ?_
    have hle : l.pos ≤ t.pos := of_decide_eq_true (Bool.and_eq_true_iff.1 hkeep).1
    exact Position.lt_irrefl _ (Position.lt_of_lt_of_le (hbefore t ht l List.mem_cons_self) hle)
  have hall : ∀ t ∈ inner ++ r :: after,
      (decide (l.pos ≤ t.pos) && decide (t.pos < pos)) = decide (t.pos < pos) := by
    intro t ht
    rw [decide_eq_true (Position.le_of_lt (hl t ht)), Bool.true_and]
  have hkeep : (decide (l.pos ≤ l.pos) && decide (l.pos < pos)) = true :=
    Bool.and_eq_true_iff.2 ⟨decide_eq_true (Position.le_refl _), decide_eq_true hopen⟩
  have hbehind : inFront pos (r :: after) = [] :=
    inFront_cons_of_le (List.pairwise_append.1 hinner).2.1 hclose
  calc (before ++ l :: (inner ++ r :: after)).filter (fun t => l.pos ≤ t.pos && t.pos < pos)
    _ = (l :: (inner ++ r :: after)).filter (fun t => l.pos ≤ t.pos && t.pos < pos) := by
      rw [List.filter_append, hnone, List.nil_append]
    _ = l :: inFront pos (inner ++ r :: after) := by
      rw [List.filter_cons, if_pos hkeep, List.filter_congr hall]
    _ = l :: inFront pos inner := by rw [inFront_append, hbehind, List.append_nil]

/-- A scan that starts at an opening bracket has that bracket open in front of the arguments, and it
    does not come to the closing one. -/
theorem activeParameter_eq {tokens inner : List Token} {l r : Token} {pos : Position}
    (hsorted : InOrder tokens) (hpart : l :: (inner ++ [r]) <:+: tokens)
    (hkind : Bracket.closer? l.kind = some r.kind) (hopen : l.pos < pos) (hclose : pos ≤ r.pos) :
    activeParameter tokens l.pos pos
      = ((inFront pos inner).foldl ArgumentCount.next ⟨1, 0⟩).commas := by
  obtain ⟨before, after, rfl⟩ := hpart
  simp only [List.append_assoc, List.cons_append, List.nil_append] at hsorted ⊢
  unfold activeParameter
  dsimp only
  rw [filter_between hsorted hopen hclose, List.foldl_cons, ArgumentCount.next_of_opener hkind]

/-! ## Calls of a program -/

/-- The argument list of a call in some tokens: its parentheses, the tokens of each argument, and the
    commas of the list. -/
structure ArgumentList (tokens : List Token) (call : CallNode) where
  opening : Token
  inner : List Token
  closing : Token
  written : List (List Token)
  commas : List Token
  stands : opening :: (inner ++ [closing]) <:+: tokens
  opens : opening.kind = .lparen
  opens_at : opening.pos = call.opening
  closes : closing.kind = .rparen
  arguments : Grammar.Arguments inner call.args written commas

namespace ArgumentList

variable {tokens : List Token} {call : CallNode} (list : ArgumentList tokens call)

/-- What stands in front of the arguments, between them and behind them. -/
def separators : List Token := list.opening :: (list.commas ++ [list.closing])

theorem closer : Bracket.closer? list.opening.kind = some list.closing.kind := by
  rw [list.opens, list.closes]
  rfl

theorem inOrder (hsorted : InOrder tokens) :
    InOrder (list.opening :: (list.inner ++ [list.closing])) :=
  hsorted.sublist list.stands.sublist

theorem inOrder_separators (hsorted : InOrder tokens) : InOrder list.separators :=
  (list.inOrder hsorted).sublist ((list.arguments.sublist.append_right _).cons_cons _)

/-- The argument at a cursor between the parentheses, counted from zero, is that behind as many commas
    of the list as are in front of the cursor. -/
theorem active (hsorted : InOrder tokens) {pos : Position} (hopen : call.opening < pos)
    (hclose : pos ≤ list.closing.pos) :
    activeParameter tokens call.opening pos = (inFront pos list.commas).length := by
  have hinner : InOrder list.inner :=
    (list.inOrder hsorted).of_cons.sublist (List.sublist_append_left _ _)
  rw [← list.opens_at] at hopen ⊢
  rw [activeParameter_eq hsorted list.stands list.closer hopen hclose,
    list.arguments.count hinner, Nat.zero_add]

/-- A cursor between two separators is behind the first parenthesis and not behind the last one. -/
theorem within_of_between (hsorted : InOrder tokens) {index : Nat} {pos : Position}
    (h : Between list.separators index pos) :
    call.opening < pos ∧ pos ≤ list.closing.pos := by
  obtain ⟨low, high, hlow, hhigh, hlt, hle⟩ := h
  have hordered := list.inOrder_separators hsorted
  obtain ⟨hfirst, hrest⟩ := List.pairwise_cons.1 hordered
  constructor
  · rw [← list.opens_at]
    rcases List.mem_cons.1 (List.mem_of_getElem? hlow) with rfl | hmem
    · exact hlt
    · exact Position.lt_of_lt_of_le (hfirst low hmem) (Position.le_of_lt hlt)
  · rw [separators, List.getElem?_cons_succ] at hhigh
    rcases List.mem_append.1 (List.mem_of_getElem? hhigh) with hmem | hmem
    · have hlast := (List.pairwise_append.1 hrest).2.2 high hmem list.closing List.mem_cons_self
      exact Position.le_trans hle (Position.le_of_lt hlast)
    · rwa [List.mem_singleton.1 hmem] at hle

end ArgumentList

/-- Every call of a program without reports has its argument list in the tokens of the text, and the
    closing parenthesis of the list is the one that the table of pairs has for the opening one. -/
theorem Program.exists_argumentList {text : String} {call : CallNode}
    (h : (Program.parse text).diagnostics = [])
    (hcall : call ∈ (Program.parse text).program.calls) :
    ∃ list : ArgumentList (Token.withoutNewlines text) call,
      list.closing.pos = (Bracket.Pairs.ofText text).closeOf call.opening := by
  have hwritten := (derives_content h).carries.written call hcall
  obtain ⟨l, inner, r, hpart, hl, hpos, hr, hargs⟩ := hwritten
  obtain ⟨written, commas, harguments⟩ := hargs.arguments
  have hkind : Bracket.closer? l.kind = some r.kind := by
    rw [hl, hr]
    rfl
  refine ⟨⟨l, inner, r, written, commas, hpart.trans (Token.content_part text), hl, hpos, hr,
    harguments⟩, ?_⟩
  have hsits := hargs.sits trivial (Bracket.Pairs.ofText text)
  have hpair := Bracket.mem_pairsOf hpart hkind (Grammar.ItemsSit.args hsits).balanced
  rw [Token.tokenize, Token.tokenizeAt, Grammar.pairsOf_content] at hpair
  have hclose := (Bracket.Pairs.closes_until text (endPosition text)).1 _ hpair
  rw [← hpos]
  exact hclose.symm

/-- The argument at a cursor. Where nothing is reported, every call that is not in the interpolation of
    a template has its argument list in the tokens, and for a cursor between its parentheses the scan
    counts the commas of that list which are in front of the cursor. So within an argument, that is
    from the separator in front of it up to the one behind it, the scan gives the argument's index. -/
theorem activeParameter_call {text : String} {call : CallNode}
    (h : (Program.parse text).diagnostics = [])
    (hcall : call ∈ (Program.parse text).program.calls) :
    ∃ list : ArgumentList (Token.withoutNewlines text) call,
      list.closing.pos = (Bracket.Pairs.ofText text).closeOf call.opening
        ∧ (∀ pos, call.opening < pos → pos ≤ list.closing.pos →
          activeParameter (Token.withoutNewlines text) call.opening pos
            = (inFront pos list.commas).length)
        ∧ ∀ index us, list.written[index]? = some us →
          (∀ t ∈ us, Between list.separators index t.pos)
            ∧ ∀ pos, Between list.separators index pos →
              activeParameter (Token.withoutNewlines text) call.opening pos = index := by
  obtain ⟨list, hclose⟩ := Program.exists_argumentList h hcall
  have hsorted := Token.inOrder_withoutNewlines text
  refine ⟨list, hclose, fun pos => list.active hsorted, fun index us hus => ⟨fun t ht => ?_, ?_⟩⟩
  · exact list.arguments.between (list.inOrder hsorted) hus ht
  · intro pos hpos
    obtain ⟨hopen, hend⟩ := list.within_of_between hsorted hpos
    rw [list.active hsorted hopen hend]
    exact length_inFront_of_between (list.inOrder_separators hsorted) hpos

/-- The commas of a list and of a dictionary among the arguments do not count. -/
theorem activeParameter_call_nested :
    (Program.parse "f(1, [2, 3], #\x7ba: 4, b: 5\x7d, 6)").diagnostics = []
      ∧ ∃ call ∈ (Program.parse "f(1, [2, 3], #\x7ba: 4, b: 5\x7d, 6)").program.calls,
        call.opening = ⟨1, 2⟩
          ∧ ∃ list : ArgumentList (Token.withoutNewlines "f(1, [2, 3], #\x7ba: 4, b: 5\x7d, 6)") call,
            list.closing.pos = ⟨1, 30⟩
              ∧ activeParameter (Token.withoutNewlines "f(1, [2, 3], #\x7ba: 4, b: 5\x7d, 6)")
                ⟨1, 2⟩ ⟨1, 29⟩ = (inFront ⟨1, 29⟩ list.commas).length := by
  have hclean : (Program.parse "f(1, [2, 3], #\x7ba: 4, b: 5\x7d, 6)").diagnostics = [] := by
    decide +kernel
  have hmem : (⟨1, 2⟩ : Position)
      ∈ (Program.parse "f(1, [2, 3], #\x7ba: 4, b: 5\x7d, 6)").program.calls.map (·.opening) := by
    decide +kernel
  have hend : (Bracket.Pairs.ofText "f(1, [2, 3], #\x7ba: 4, b: 5\x7d, 6)").closeOf ⟨1, 2⟩ = ⟨1, 30⟩ := by
    decide +kernel
  obtain ⟨call, hcall, hopening⟩ := List.mem_map.1 hmem
  obtain ⟨list, hclose, hactive, -⟩ := activeParameter_call hclean hcall
  rw [hopening] at hclose hactive
  rw [hend] at hclose
  refine ⟨hclean, call, hcall, hopening, list, hclose, hactive ⟨1, 29⟩ (by decide) ?_⟩
  rw [hclose]
  decide

/-- A comma behind the last argument counts, too, although it separates no arguments. -/
theorem activeParameter_trailing_comma :
    ¬∀ (text : String) (call : CallNode), (Program.parse text).diagnostics = [] →
      call ∈ (Program.parse text).program.calls →
      ∃ list : ArgumentList (Token.withoutNewlines text) call,
        list.closing.pos = (Bracket.Pairs.ofText text).closeOf call.opening
          ∧ ∀ pos, call.opening < pos → pos ≤ list.closing.pos →
            activeParameter (Token.withoutNewlines text) call.opening pos
              = (inFront pos (list.commas.take (call.args.length - 1))).length := by
  intro hall
  have hmem : ((⟨1, 2⟩ : Position), 1) ∈ (Program.parse "f(1,)").program.calls.map fun call =>
      (call.opening, call.args.length) := by
    decide +kernel
  have hend : (Bracket.Pairs.ofText "f(1,)").closeOf ⟨1, 2⟩ = ⟨1, 5⟩ := by decide +kernel
  have hone : activeParameter (Token.withoutNewlines "f(1,)") ⟨1, 2⟩ ⟨1, 5⟩ = 1 := by decide +kernel
  obtain ⟨call, hcall, heq⟩ := List.mem_map.1 hmem
  obtain ⟨hopening, hlength⟩ := Prod.mk.inj heq
  obtain ⟨list, hclose, hactive⟩ := hall "f(1,)" call (by decide +kernel) hcall
  rw [hopening] at hclose hactive
  have hzero := hactive ⟨1, 5⟩ (by decide) (by rw [hclose, hend]; decide)
  rw [hone, hlength, Nat.sub_self, List.take_zero] at hzero
  exact Nat.one_ne_zero hzero

end Welle
