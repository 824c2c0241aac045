import Welle.Proofs.Discards
import Welle.Proofs.Placement

set_option autoImplicit false

/-! # Names that are kept

Where nothing is reported, a name of the text is at one place of the tree, with one exception: of
several `default` clauses of a `match` or a `switch` the last one counts, and the names of the
others are gone. `Token.kept` leaves these clauses out of some tokens. What remains is exactly what
the tree names, in interpolations at any depth, too. -/

namespace Welle

/-! ## Clauses that are overwritten -/

namespace Token

/-- Whether a `default` clause comes before the brace that closes the last of `depth + 1` open ones.
    Behind a dot, `default` is the name of a member. -/
def defaultFollows (member : Bool) (depth : Nat) : List Token → Bool
  | [] => false
  | t :: ts =>
    if t.kind = .lbrace then defaultFollows false (depth + 1) ts
    else if t.kind = .rbrace then
      if depth = 0 then false else defaultFollows false (depth - 1) ts
    else if t.kind = .kwDefault && !member && depth = 0 then true
    else defaultFollows (t.kind = .dot) depth ts

/-- What stands behind the brace that closes the last of `depth` open ones. -/
def behindBraces (depth : Nat) : List Token → List Token
  | [] => []
  | t :: ts =>
    if t.kind = .lbrace then behindBraces (depth + 1) ts
    else if t.kind = .rbrace then if depth ≤ 1 then ts else behindBraces (depth - 1) ts
    else behindBraces depth ts

theorem behindBraces_suffix (depth : Nat) (ts : List Token) : behindBraces depth ts <:+ ts := by
  induction ts generalizing depth with
  | nil => exact List.suffix_rfl
  | cons t ts ih =>
    have hcons := List.suffix_cons t ts
    rw [behindBraces]
    split
    · exact (ih _).trans hcons
    split
    · split
      · exact hcons
      · exact (ih _).trans hcons
    · exact (ih _).trans hcons

/-- The tokens without the `default` clauses behind which another one follows in the same braces. -/
def kept (member : Bool) (ts : List Token) : List Token :=
  match ts with
  | [] => []
  | t :: ts =>
    if t.kind = .kwDefault && !member && defaultFollows false 0 (behindBraces 0 ts) then
      kept false (behindBraces 0 ts)
    else t :: kept (t.kind = .dot) ts
termination_by ts.length
decreasing_by
  · exact Nat.lt_succ_of_le (behindBraces_suffix 0 ts).length_le
  · exact Nat.lt_succ_self _

theorem kept_sublist (member : Bool) (ts : List Token) : (kept member ts).Sublist ts := by
  fun_induction kept member ts with
  | case1 => exact .refl _
  | case2 member t ts _ ih => exact (ih.trans (behindBraces_suffix 0 ts).sublist).cons t
  | case3 member t ts _ ih => exact ih.cons_cons t

/-! ## Tokens that clauses do not reach across -/

/-- The kinds that neither open or close braces, nor start a clause or a member. -/
def Kind.isPlain : Kind → Bool
  | lbrace | rbrace | dot | kwDefault => false
  | _ => true

/-- The kinds that neither are a name nor have names inside. -/
def Kind.isSilent (kind : Kind) : Bool := kind ≠ .ident && kind ≠ .template

/-- Tokens without a clause that goes on behind them or is overwritten there. -/
structure Sealed (ts : List Token) : Prop where
  follows : ∀ depth us, defaultFollows false depth (ts ++ us) = defaultFollows false depth us
  behind : ∀ depth us, 0 < depth → behindBraces depth (ts ++ us) = behindBraces depth us
  kept : ∀ us, kept false (ts ++ us) = kept false ts ++ kept false us

/-- Where the braces around some clauses end. -/
def EndsClauses (us : List Token) : Prop := ∀ t, us.head? = some t → t.kind = .rbrace

/-- The clauses between two braces, with or without a `default` among them. -/
structure Clauses (ts : List Token) (hasDefault : Bool) : Prop where
  follows : ∀ depth us, defaultFollows false (depth + 1) (ts ++ us) = defaultFollows false (depth + 1) us
  default : ∀ us, EndsClauses us → defaultFollows false 0 (ts ++ us) = hasDefault
  behind : ∀ depth us, 0 < depth → behindBraces depth (ts ++ us) = behindBraces depth us
  kept : ∀ us, EndsClauses us → Token.kept false (ts ++ us) = Token.kept false ts ++ Token.kept false us

theorem Kind.ne_of_isPlain {kind : Kind} (h : kind.isPlain = true) :
    kind ≠ .lbrace ∧ kind ≠ .rbrace ∧ kind ≠ .dot ∧ kind ≠ .kwDefault := by
  refine ⟨?_, ?_, ?_, ?_⟩
  all_goals
    rintro rfl
    cases h

section Steps

variable {t : Token}

theorem defaultFollows_plain (h : t.kind.isPlain = true) (depth : Nat) (us : List Token) :
    defaultFollows false depth (t :: us) = defaultFollows false depth us := by
  obtain ⟨hopen, hclose, hdot, hdefault⟩ := Kind.ne_of_isPlain h
  rw [defaultFollows, if_neg hopen, if_neg hclose, if_neg (by simp [hdefault]), decide_eq_false hdot]

theorem behindBraces_plain (h : t.kind.isPlain = true) (depth : Nat) (us : List Token) :
    behindBraces depth (t :: us) = behindBraces depth us := by
  obtain ⟨hopen, hclose, -, -⟩ := Kind.ne_of_isPlain h
  rw [behindBraces, if_neg hopen, if_neg hclose]

theorem kept_nil (member : Bool) : kept member [] = [] := by rw [kept]

theorem kept_plain (h : t.kind.isPlain = true) (us : List Token) :
    kept false (t :: us) = t :: kept false us := by
  obtain ⟨-, -, hdot, hdefault⟩ := Kind.ne_of_isPlain h
  rw [kept, if_neg (by simp [hdefault]), decide_eq_false hdot]

theorem kept_brace (h : t.kind = .lbrace ∨ t.kind = .rbrace) (us : List Token) :
    kept false (t :: us) = t :: kept false us := by
  rcases h with h | h
  all_goals rw [kept, if_neg (by simp [h]), decide_eq_false (by simp [h])]

/-- A member is kept whatever its name is. -/
theorem kept_member {dot : Token} (hdot : dot.kind = .dot)
    (h : t.kind ≠ .dot) (us : List Token) :
    kept false (dot :: t :: us) = dot :: t :: kept false us := by
  rw [kept, if_neg (by simp [hdot]), decide_eq_true hdot, kept, if_neg (by simp),
    decide_eq_false h]

end Steps

namespace Sealed

variable {t : Token} {ts us : List Token}

theorem nil : Sealed [] := ⟨fun _ _ => rfl, fun _ _ _ => rfl, fun _ => by rw [kept_nil]; rfl⟩

theorem append (hts : Sealed ts) (hus : Sealed us) : Sealed (ts ++ us) where
  follows depth vs := by rw [List.append_assoc, hts.follows, hus.follows]
  behind depth vs h := by rw [List.append_assoc, hts.behind _ _ h, hus.behind _ _ h]
  kept vs := by rw [List.append_assoc, hts.kept, hus.kept, hts.kept, List.append_assoc]

theorem cons (h : t.kind.isPlain = true) (hts : Sealed ts) : Sealed (t :: ts) where
  follows depth vs := by rw [List.cons_append, defaultFollows_plain h, hts.follows]
  behind depth vs hdepth := by rw [List.cons_append, behindBraces_plain h, hts.behind _ _ hdepth]
  kept vs := by rw [List.cons_append, kept_plain h, kept_plain h, hts.kept, List.cons_append]

theorem member {dot : Token} (hdot : dot.kind = .dot)
    (h : t.kind = .ident ∨ t.kind.isKeyword = true) : Sealed [dot, t] := by
  have hne : t.kind ≠ .lbrace ∧ t.kind ≠ .rbrace ∧ t.kind ≠ .dot := by
    refine ⟨?_, ?_, ?_⟩
    all_goals
      intro hkind
      rw [hkind] at h
      rcases h with h | h <;> cases h
  refine ⟨fun depth us => ?_, fun depth us _ => ?_, fun us => ?_⟩
  · simp [defaultFollows, hdot, hne]
  · simp [behindBraces, hdot, hne]
  · rw [List.cons_append, List.cons_append, kept_member hdot hne.2.2, kept_member hdot hne.2.2,
      kept_nil]
    rfl

/-- Without a `default` of their own, tokens are clauses like any other. -/
theorem clauses (h : Sealed ts) : Clauses ts false where
  follows depth := h.follows (depth + 1)
  default us hus := by
    rw [h.follows]
    cases us with
    | nil => rfl
    | cons t us => simp [defaultFollows, hus t rfl]
  behind := h.behind
  kept us _ := h.kept us

end Sealed

namespace Clauses

variable {t l r : Token} {ts us : List Token} {hasDefault : Bool}

theorem cons (ht : t.kind.isPlain = true) (h : Clauses ts hasDefault) :
    Clauses (t :: ts) hasDefault where
  follows depth vs := by rw [List.cons_append, defaultFollows_plain ht, h.follows]
  default vs hvs := by rw [List.cons_append, defaultFollows_plain ht, h.default _ hvs]
  behind depth vs hdepth := by rw [List.cons_append, behindBraces_plain ht, h.behind _ _ hdepth]
  kept vs hvs := by
    rw [List.cons_append, kept_plain ht, kept_plain ht, h.kept _ hvs, List.cons_append]

theorem prepend (hts : Sealed ts) (h : Clauses us hasDefault) : Clauses (ts ++ us) hasDefault where
  follows depth vs := by rw [List.append_assoc, hts.follows, h.follows]
  default vs hvs := by rw [List.append_assoc, hts.follows, h.default _ hvs]
  behind depth vs hdepth := by rw [List.append_assoc, hts.behind _ _ hdepth, h.behind _ _ hdepth]
  kept vs hvs := by rw [List.append_assoc, hts.kept, h.kept _ hvs, hts.kept, List.append_assoc]

/-- A `default` clause stays exactly if no other one follows. -/
theorem kept_default {vs : List Token} (ht : t.kind = .kwDefault) (hts : Sealed ts)
    (hclause : ∀ us, behindBraces 0 (ts ++ us) = us) (h : Clauses us hasDefault)
    (hvs : EndsClauses vs) :
    Token.kept false (t :: (ts ++ (us ++ vs)))
      = (if hasDefault then [] else t :: Token.kept false ts) ++ Token.kept false (us ++ vs) := by
  have hdot : decide (t.kind = .dot) = false := by simp [ht]
  rw [Token.kept, hclause, h.default _ hvs, hdot]
  cases hasDefault with
  | true => rw [if_pos (by simp [ht])]; rfl
  | false => rw [if_neg (by simp), hts.kept]; rfl

theorem overwritten (ht : t.kind = .kwDefault) (hts : Sealed ts)
    (hclause : ∀ us, behindBraces 0 (ts ++ us) = us) (h : Clauses us hasDefault) :
    Clauses (t :: (ts ++ us)) true where
  follows depth vs := by
    rw [List.cons_append, List.append_assoc, defaultFollows, if_neg (by simp [ht]),
      if_neg (by simp [ht]), if_neg (by simp), decide_eq_false (by simp [ht]), hts.follows, h.follows]
  default vs _ := by
    rw [List.cons_append, defaultFollows, if_neg (by simp [ht]), if_neg (by simp [ht]),
      if_pos (by simp [ht])]
  behind depth vs hdepth := by
    rw [List.cons_append, List.append_assoc, behindBraces, if_neg (by simp [ht]),
      if_neg (by simp [ht]), hts.behind _ _ hdepth, h.behind _ _ hdepth]
  kept vs hvs := by
    have hnil : EndsClauses [] := by intro t ht; cases ht
    have hall := kept_default ht hts hclause h hnil
    rw [List.append_nil] at hall
    rw [List.cons_append, List.append_assoc, kept_default ht hts hclause h hvs, hall, h.kept _ hvs,
      List.append_assoc]

/-- Clauses between braces. -/
theorem braces (hl : l.kind = .lbrace) (hr : r.kind = .rbrace) (h : Clauses ts hasDefault) :
    Sealed (l :: (ts ++ [r])) where
  follows depth us := by
    rw [List.cons_append, List.append_assoc, defaultFollows, if_pos hl, h.follows,
      List.singleton_append, defaultFollows, if_neg (by simp [hr]), if_pos hr,
      if_neg (Nat.succ_ne_zero _)]
    rfl
  behind depth us hdepth := by
    rw [List.cons_append, List.append_assoc, behindBraces, if_pos hl,
      h.behind _ _ (Nat.succ_pos _), List.singleton_append, behindBraces, if_neg (by simp [hr]),
      if_pos hr, if_neg (by omega)]
    rfl
  kept us := by
    have hend (us : List Token) : EndsClauses (r :: us) := by
      intro t ht
      rw [← Option.some.inj ht, hr]
    rw [List.cons_append, List.append_assoc, List.singleton_append, kept_brace (.inl hl),
      kept_brace (.inl hl), h.kept _ (hend _), h.kept _ (hend _), kept_brace (.inr hr),
      kept_brace (.inr hr), kept_nil, List.cons_append, List.append_assoc]
    rfl

/-- Braces around clauses are all that is left out with them. -/
theorem behind_braces (hl : l.kind = .lbrace) (hr : r.kind = .rbrace) (h : Clauses ts hasDefault)
    (us : List Token) : behindBraces 0 (l :: (ts ++ [r]) ++ us) = us := by
  rw [List.cons_append, List.append_assoc, behindBraces, if_pos hl, h.behind _ _ Nat.one_pos,
    List.singleton_append, behindBraces, if_neg (by simp [hr]), if_pos hr, if_pos (by omega)]

end Clauses

end Token

/-! ## What is derived is sealed -/

namespace Token.Kind

theorem isPlain_of_prefix {kind : Kind} {op : PrefixOp} (h : PrefixOp.ofKind? kind = some op) :
    kind.isPlain = true ∧ kind.isSilent = true := by
  cases kind <;> first | exact ⟨rfl, rfl⟩ | cases h

theorem isPlain_of_infix {kind : Kind} {op : InfixOp} (h : InfixOp.ofKind? kind = some op) :
    kind.isPlain = true ∧ kind.isSilent = true := by
  cases kind <;> first | exact ⟨rfl, rfl⟩ | cases h

theorem isPlain_of_assign {kind : Kind} {op : AssignOp} (h : AssignOp.ofKind? kind = some op) :
    kind.isPlain = true ∧ kind.isSilent = true := by
  cases kind <;> first | exact ⟨rfl, rfl⟩ | cases h

theorem isPlain_of_destructuring {kind : Kind} {op : AssignOp}
    (h : Parser.destructuringOp? kind = some op) : kind.isPlain = true ∧ kind.isSilent = true := by
  cases kind <;> first | exact ⟨rfl, rfl⟩ | cases h

end Token.Kind

namespace Grammar

open Token (Sealed Clauses behindBraces)

/-- How clauses lie in the tokens of a phrase: the cases between two braces may have a `default`
    among them, anything else is sealed. Blocks and results are what a clause is left out with. -/
def Phrase.Seals (ts : List Token) : Phrase → Prop
  | matchArms found => Clauses ts (found.any Sum.isRight)
  | switchArms found => Clauses ts (found.any Sum.isRight)
  | result _ | block _ => Sealed ts ∧ ∀ us, behindBraces 0 (ts ++ us) = us
  | _ => Sealed ts

theorem sealed_separators {ts : List Token} (h : ∀ t ∈ ts, t.kind = .semicolon) : Sealed ts := by
  induction ts with
  | nil => exact .nil
  | cons t ts ih =>
    rw [List.forall_mem_cons] at h
    exact .cons (by rw [h.1]; rfl) (ih h.2)

/-- Where nothing is reported, the clauses of a phrase end in its tokens. -/
theorem Derives.seals {ts : List Token} {phrase : Phrase} (h : Derives True ts phrase) :
    phrase.Seals ts := by
  induction h
  case openBlock h _ _ _ => exact absurd trivial h
  case stmtsSkip h _ _ => exact absurd trivial h
  case int ht _ =>
    rcases ht with ht | ht
    all_goals exact Sealed.cons (by rw [ht]; rfl) .nil
  case float ht _ =>
    rcases ht with ht | ht
    all_goals exact Sealed.cons (by rw [ht]; rfl) .nil
  case bool value ht => exact Sealed.cons (by rw [ht]; cases value <;> rfl) .nil
  case dict hhash hl hr _ ih => exact Sealed.cons (by rw [hhash]; rfl) (ih.clauses.braces hl hr)
  case select hword hl hr _ _ ihvalue ih =>
    exact Sealed.cons (by rw [hword]; rfl) (Sealed.append ihvalue (ih.braces hl hr))
  case matchNil => exact Sealed.nil.clauses
  case matchSeparator hsep _ ih => exact Clauses.cons (by rw [hsep]; rfl) ih
  case matchCase hword _ _ _ _ ihvalues ihresult ih =>
    exact Clauses.cons (by rw [hword]; rfl) (.prepend ihvalues (.prepend ihresult.1 ih))
  case matchDefault hword _ _ ihresult ih => exact ih.overwritten hword ihresult.1 ihresult.2
  case result l r before ts behind e hl hr hseparators _ ih =>
    rw [List.forall_mem_append] at hseparators
    have hinside : Sealed (before ++ (ts ++ behind)) :=
      (sealed_separators hseparators.1).append (Sealed.append ih (sealed_separators hseparators.2))
    have heq : l :: (before ++ (ts ++ (behind ++ [r]))) = l :: ((before ++ (ts ++ behind)) ++ [r]) := by
      simp
    rw [heq]
    exact ⟨hinside.clauses.braces hl hr, hinside.clauses.behind_braces hl hr⟩
  case unary hop _ ih => exact Sealed.cons (Token.Kind.isPlain_of_prefix hop).1 ih
  case binary hop _ _ ih ih' => exact Sealed.append ih (.cons (Token.Kind.isPlain_of_infix hop).1 ih')
  case assign hop _ _ _ ih ih' =>
    exact Sealed.append ih (.cons (Token.Kind.isPlain_of_assign hop).1 ih')
  case member hdot ht _ ih => exact Sealed.append ih (.member hdot ht)
  case block hl hr _ ih =>
    exact ⟨(Sealed.clauses ih).braces hl hr, (Sealed.clauses ih).behind_braces hl hr⟩
  case destructure hl hr hop _ _ _ _ ih ih' =>
    exact Sealed.cons (by rw [hl]; rfl) (.append ih (.cons (by rw [hr]; rfl)
      (.cons (Token.Kind.isPlain_of_destructuring hop).1 ih')))
  case switch hword hl hr _ _ ihvalue ih =>
    exact Sealed.cons (by rw [hword]; rfl) (Sealed.append ihvalue (ih.braces hl hr))
  case switchNil => exact Sealed.nil.clauses
  case switchSeparator hsep _ ih => exact Clauses.cons (by rw [hsep]; rfl) ih
  case switchCase hword _ _ _ _ ihvalues ihbody ih =>
    exact Clauses.cons (by rw [hword]; rfl) (.prepend ihvalues (.prepend ihbody.1 ih))
  case switchDefault hword _ _ ihbody ih => exact ih.overwritten hword ihbody.1 ihbody.2
  -- elsewhere all tokens of the phrase itself are plain
  all_goals
    simp only [Phrase.Seals] at *
    repeat' first
      | assumption
      | exact Sealed.nil
      | refine Sealed.cons (by simp only [*]; rfl) ?_
      | refine Sealed.append ?_ ?_
      | exact And.left (by assumption)

/-- Whether a phrase consists of the cases between two braces. -/
def Phrase.isClauses : Phrase → Bool
  | matchArms _ | switchArms _ => true
  | _ => false

/-- Clauses apart, what is derived is sealed. -/
theorem Derives.sealed {ts : List Token} {phrase : Phrase} (h : Derives True ts phrase)
    (hphrase : phrase.isClauses = false) : Sealed ts := by
  have hseals := h.seals
  cases phrase with
  | matchArms | switchArms => cases hphrase
  | result | block => exact hseals.1
  | _ => exact hseals

end Grammar

/-! ## Names that are kept -/

namespace Token

/-- A token with the tokens of its interpolations that are kept, at any depth. -/
def keptDeep (t : Token) : List Token :=
  t :: (Template.holeTokens t).attach.flatMap fun run =>
    (kept false (Grammar.content run.1)).attach.flatMap fun u => keptDeep u.1
termination_by t.depthBound
decreasing_by
  refine depthBound_lt run.2 ?_
  exact (Grammar.content_sublist _).subset ((kept_sublist false _).subset u.2)

/-- The tokens of a run that are kept, at any depth. -/
def keptTokens (tokens : List Token) : List Token :=
  (kept false (Grammar.content tokens)).flatMap keptDeep

theorem keptDeep_eq (t : Token) :
    t.keptDeep = t :: (Template.holeTokens t).flatMap keptTokens := by
  rw [keptDeep]
  simp only [List.flatMap_subtype, List.unattach_attach]
  rfl

theorem keptTokens_sublist (tokens : List Token) :
    (keptTokens tokens).Sublist (tokens.flatMap deep) := by
  have hdeep (t : Token) : t.keptDeep.Sublist t.deep := by
    induction h : t.depthBound using Nat.strongRecOn generalizing t with
    | ind n ih =>
      subst h
      rw [keptDeep_eq, deep_eq]
      refine List.Sublist.cons_cons t (List.Sublist.flatMap_right _ fun run hrun => ?_)
      have hsublist := (kept_sublist false _).trans (Grammar.content_sublist run)
      refine List.Sublist.trans ?_ (hsublist.flatMap deep)
      refine List.Sublist.flatMap_right _ fun u hu => ?_
      exact ih _ (depthBound_lt hrun (hsublist.subset hu)) u rfl
  have hsublist := (kept_sublist false _).trans (Grammar.content_sublist tokens)
  exact (List.Sublist.flatMap_right _ fun t _ => hdeep t).trans (hsublist.flatMap deep)

/-- The names that a token keeps, where words of some kinds are names. -/
def keptWords (counts : Kind → Bool) (t : Token) : List Ident :=
  (t.keptDeep.filter fun u => counts u.kind).map Grammar.identOf

/-- The names that an interpolation keeps. -/
def segmentKept (counts : Kind → Bool) : Template.Segment → List Ident
  | .text _ => []
  | .hole source origin _ =>
    (kept false (Grammar.content (tokenizeAt source origin))).flatMap (keptWords counts)

theorem keptWords_of_template {counts : Kind → Bool} {t : Token} (hcounts : counts .template = false)
    (h : t.kind = .template) : t.keptWords counts
      = (Template.split t.literal (t.pos.shifted 2)).flatMap (segmentKept counts) := by
  rw [keptWords, keptDeep_eq, List.filter_cons_of_neg (by simp [h, hcounts]), Template.holeTokens,
    if_pos h]
  generalize Template.split t.literal (t.pos.shifted 2) = segments
  induction segments with
  | nil => rfl
  | cons segment segments ih =>
    cases segment with
    | text => simpa [segmentKept] using ih
    | hole source origin opening =>
      rw [List.filterMap_cons]
      simp only [List.flatMap_cons, List.filter_append, List.map_append, ih]
      rw [keptTokens, List.filter_flatMap, List.map_flatMap]
      rfl

theorem keptDeep_of_other {t : Token} (h : t.kind ≠ .template) : t.keptDeep = [t] := by
  rw [keptDeep_eq, Template.holeTokens, if_neg h]
  rfl

theorem keptWords_of_counts {counts : Kind → Bool} {t : Token} (hcounts : counts t.kind = true)
    (h : t.kind ≠ .template) : t.keptWords counts = [Grammar.identOf t] := by
  rw [keptWords, keptDeep_of_other h, List.filter_cons_of_pos (by simpa using hcounts)]
  rfl

theorem keptWords_of_other {counts : Kind → Bool} {t : Token} (hcounts : counts t.kind = false)
    (h : t.kind ≠ .template) : t.keptWords counts = [] := by
  rw [keptWords, keptDeep_of_other h, List.filter_cons_of_neg (by simp [hcounts])]
  rfl

/-- How often some tokens keep a name. -/
def keptCount (counts : Kind → Bool) (a : Ident) (ts : List Token) : Nat :=
  ((kept false ts).flatMap (keptWords counts)).count a

section Counts

variable {counts : Kind → Bool} {a : Ident} {t l r : Token} {ts us : List Token}

theorem keptCount_nil : keptCount counts a [] = 0 := by
  rw [keptCount, kept_nil]
  rfl

theorem keptCount_append (h : Sealed ts) :
    keptCount counts a (ts ++ us) = keptCount counts a ts + keptCount counts a us := by
  rw [keptCount, h.kept, List.flatMap_append, List.count_append]
  rfl

theorem keptCount_plain (h : t.kind.isPlain = true) :
    keptCount counts a (t :: us) = (t.keptWords counts).count a + keptCount counts a us := by
  rw [keptCount, kept_plain h, List.flatMap_cons, List.count_append]
  rfl

theorem keptCount_member {dot : Token} (hdot : dot.kind = .dot) (h : t.kind ≠ .dot) :
    keptCount counts a [dot, t] = (dot.keptWords counts).count a + (t.keptWords counts).count a := by
  rw [keptCount, kept_member hdot h, kept_nil, List.flatMap_cons, List.flatMap_cons,
    List.count_append, List.count_append]
  rfl

theorem keptCount_braces {hasDefault : Bool} (hl : l.kind = .lbrace) (hr : r.kind = .rbrace)
    (h : Clauses ts hasDefault) : keptCount counts a (l :: (ts ++ [r]))
      = (l.keptWords counts).count a + keptCount counts a ts + (r.keptWords counts).count a := by
  have hend : EndsClauses [r] := by
    intro t ht
    rw [← Option.some.inj ht, hr]
  rw [keptCount, kept_brace (.inl hl), h.kept _ hend, kept_brace (.inr hr), kept_nil]
  simp only [List.flatMap_cons, List.flatMap_append, List.count_append, List.flatMap_nil,
    List.count_nil, keptCount]
  omega

end Counts

end Token

namespace Token.Kind

/-- The kind of names. -/
def isName (kind : Kind) : Bool := kind = .ident

/-- The kinds of names and of reserved words, which may name a member. -/
def isWord (kind : Kind) : Bool := kind = .ident || kind.isKeyword

theorem isPlain_of_eq {kind kind' : Kind} (h : kind = kind') (hkind : kind'.isPlain = true) :
    kind.isPlain = true := h ▸ hkind

theorem isSilent_of_eq {kind kind' : Kind} (h : kind = kind') (hkind : kind'.isSilent = true) :
    kind.isSilent = true := h ▸ hkind

end Token.Kind

namespace Token

theorem keptWords_isName {t : Token} (h : t.kind = .ident) :
    t.keptWords Kind.isName = [Grammar.identOf t] :=
  keptWords_of_counts (by rw [h]; rfl) (by simp [h])

theorem keptWords_isWord {t : Token} (h : t.kind = .ident) :
    t.keptWords Kind.isWord = [Grammar.identOf t] :=
  keptWords_of_counts (by rw [h]; rfl) (by simp [h])

theorem keptWords_silent {t : Token} (h : t.kind.isSilent = true) :
    t.keptWords Kind.isName = [] := by
  obtain ⟨hident, htemplate⟩ : t.kind ≠ .ident ∧ t.kind ≠ .template := by
    simpa [Kind.isSilent] using h
  exact keptWords_of_other (by simpa [Kind.isName] using hident) htemplate

end Token

namespace Grammar

open Token (Sealed Clauses behindBraces keptCount keptWords segmentKept)

/-- The names of some cases and of the last `default` among them. -/
def keptClauses {α β : Type} (f : α → List Ident) (g : β → List Ident) (found : List (α ⊕ β)) :
    List Ident :=
  (found.filterMap Sum.getLeft?).flatMap f
    ++ (found.filterMap Sum.getRight?).getLast?.toList.flatMap g

theorem count_keptClauses_inl {α β : Type} (f : α → List Ident) (g : β → List Ident) (x : α)
    (found : List (α ⊕ β)) (a : Ident) : (keptClauses f g (.inl x :: found)).count a
      = (f x).count a + (keptClauses f g found).count a := by
  simp [keptClauses]

theorem count_keptClauses_inr {α β : Type} (f : α → List Ident) (g : β → List Ident) (y : β)
    (found : List (α ⊕ β)) (a : Ident) : (keptClauses f g (.inr y :: found)).count a
      = (if found.any Sum.isRight then 0 else (g y).count a) + (keptClauses f g found).count a := by
  have hlast : (found.filterMap Sum.getRight?).getLast? = none ↔ ¬found.any Sum.isRight = true := by
    rw [List.getLast?_eq_none_iff, List.filterMap_eq_nil_iff]
    simp
  simp only [keptClauses, List.filterMap_cons, Sum.getLeft?, Sum.getRight?, List.getLast?_cons,
    List.count_append]
  cases h : (found.filterMap Sum.getRight?).getLast? with
  | none => simp [hlast.1 h, Nat.add_comm]
  | some z =>
    have hany : found.any Sum.isRight = true := by
      by_contra hnone
      rw [hlast.2 hnone] at h
      cases h
    simp [hany]

/-- The names and discarded targets of a phrase. Of several `default` clauses the last one counts. -/
def Phrase.keptNames : Phrase → List Ident
  | matchArms found =>
    keptClauses MatchArm.idents Expr.idents found ++ keptClauses MatchArm.discards Expr.discards found
  | switchArms found =>
    keptClauses SwitchCase.idents Block.idents found
      ++ keptClauses SwitchCase.discards Block.discards found
  | phrase => phrase.idents ++ phrase.discards

/-- How often the interpolations of a phrase keep a name. -/
def Phrase.innerKept (counts : Token.Kind → Bool) (a : Ident) : Phrase → Nat
  | holes segments _ => (segments.flatMap (segmentKept counts)).count a
  | _ => 0

theorem keptCount_silent {t : Token} (a : Ident)
    (h : t.kind.isPlain = true ∧ t.kind.isSilent = true) (us : List Token) :
    keptCount Token.Kind.isName a (t :: us) = keptCount Token.Kind.isName a us
      ∧ keptCount Token.Kind.isWord a us ≤ keptCount Token.Kind.isWord a (t :: us) := by
  rw [Token.keptCount_plain h.1, Token.keptCount_plain h.1, Token.keptWords_silent h.2]
  exact ⟨Nat.zero_add _, Nat.le_add_left _ _⟩

theorem keptCount_braces {l r : Token} {ts : List Token} {hasDefault : Bool} (a : Ident)
    (hl : l.kind = .lbrace) (hr : r.kind = .rbrace) (h : Clauses ts hasDefault) :
    keptCount Token.Kind.isName a (l :: (ts ++ [r])) = keptCount Token.Kind.isName a ts
      ∧ keptCount Token.Kind.isWord a ts ≤ keptCount Token.Kind.isWord a (l :: (ts ++ [r])) := by
  rw [Token.keptCount_braces hl hr h, Token.keptCount_braces hl hr h,
    Token.keptWords_silent (Token.Kind.isSilent_of_eq hl rfl),
    Token.keptWords_silent (Token.Kind.isSilent_of_eq hr rfl), List.count_nil]
  omega

theorem keptCount_separators {ts : List Token} (a : Ident) (h : ∀ t ∈ ts, t.kind = .semicolon) :
    keptCount Token.Kind.isName a ts = 0 := by
  induction ts with
  | nil => exact Token.keptCount_nil
  | cons t ts ih =>
    rw [List.forall_mem_cons] at h
    rw [(keptCount_silent a (by rw [h.1]; exact ⟨rfl, rfl⟩) ts).1, ih h.2]

/-- A `default` clause counts exactly if no other one follows. -/
theorem keptCount_default {t : Token} {ts us : List Token} {hasDefault : Bool} (a : Ident)
    (ht : t.kind = .kwDefault) (hts : Sealed ts) (hclause : ∀ us, behindBraces 0 (ts ++ us) = us)
    (h : Clauses us hasDefault) :
    keptCount Token.Kind.isName a (t :: (ts ++ us))
        = (if hasDefault then 0 else keptCount Token.Kind.isName a ts) + keptCount Token.Kind.isName a us
      ∧ (if hasDefault then 0 else keptCount Token.Kind.isWord a ts) + keptCount Token.Kind.isWord a us
        ≤ keptCount Token.Kind.isWord a (t :: (ts ++ us)) := by
  have hnil : Token.EndsClauses [] := by intro t ht; cases ht
  have hkept := Clauses.kept_default ht hts hclause h hnil
  rw [List.append_nil] at hkept
  have hsilent := Token.keptWords_silent (Token.Kind.isSilent_of_eq ht rfl)
  cases hasDefault with
  | true => simp [keptCount, hkept]
  | false =>
    simp only [keptCount, hkept, hsilent, List.flatMap_append, List.flatMap_cons, List.count_append,
      Bool.false_eq_true, if_false, List.count_nil]
    omega

/-- Where nothing is reported, a phrase names what its tokens keep. Reserved words count only where
    they name a member. -/
theorem Derives.count_kept {ts : List Token} {phrase : Phrase} (h : Derives True ts phrase)
    (a : Ident) :
    keptCount Token.Kind.isName a ts + phrase.innerKept Token.Kind.isName a
        ≤ phrase.keptNames.count a
      ∧ phrase.keptNames.count a
        ≤ keptCount Token.Kind.isWord a ts + phrase.innerKept Token.Kind.isWord a := by
  induction h
  case openBlock h _ _ _ => exact absurd trivial h
  case stmtsSkip h _ _ => exact absurd trivial h
  case targetDiscard t ht hliteral =>
    have hname : (⟨"_", t.pos⟩ : Ident) = identOf t := by rw [identOf, hliteral]
    have hplain := Token.Kind.isPlain_of_eq ht rfl
    simp [Phrase.keptNames, Phrase.innerKept, Phrase.idents, Phrase.discards, Item.idents,
      Item.discards, Target.ident?, Target.discard?, hname, Token.keptCount_plain hplain,
      Token.keptCount_nil, Token.keptWords_isName ht, Token.keptWords_isWord ht]
  case int t value ht _ =>
    have hkind : t.kind.isPlain = true ∧ t.kind.isSilent = true := by
      rcases ht with ht | ht <;> rw [ht] <;> exact ⟨rfl, rfl⟩
    have hcount := (keptCount_silent a hkind []).1
    simp [Phrase.keptNames, Phrase.innerKept, Phrase.idents, Phrase.discards, Item.idents,
      Item.discards, Expr.idents, Expr.discards, hcount, Token.keptCount_nil]
  case float t value ht _ =>
    have hkind : t.kind.isPlain = true ∧ t.kind.isSilent = true := by
      rcases ht with ht | ht <;> rw [ht] <;> exact ⟨rfl, rfl⟩
    have hcount := (keptCount_silent a hkind []).1
    simp [Phrase.keptNames, Phrase.innerKept, Phrase.idents, Phrase.discards, Item.idents,
      Item.discards, Expr.idents, Expr.discards, hcount, Token.keptCount_nil]
  case bool t value ht =>
    have hkind : t.kind.isPlain = true ∧ t.kind.isSilent = true := by
      cases value <;> rw [ht] <;> exact ⟨rfl, rfl⟩
    have hcount := (keptCount_silent a hkind []).1
    simp [Phrase.keptNames, Phrase.innerKept, Phrase.idents, Phrase.discards, Item.idents,
      Item.discards, Expr.idents, Expr.discards, hcount, Token.keptCount_nil]
  case unary t ts op e hop _ ih =>
    have hcount := keptCount_silent a (Token.Kind.isPlain_of_prefix hop) ts
    simp only [Phrase.keptNames, Phrase.innerKept, Phrase.idents, Phrase.discards, Item.idents,
      Item.discards, Expr.idents, Expr.discards] at ih ⊢
    omega
  case binary t ts us op left right hop hleft _ ih ih' =>
    have hcount := keptCount_silent a (Token.Kind.isPlain_of_infix hop) us
    have hsealed := hleft.sealed rfl
    simp only [Phrase.keptNames, Phrase.innerKept, Phrase.idents, Phrase.discards, Item.idents,
      Item.discards, Expr.idents, Expr.discards, List.count_append,
      Token.keptCount_append hsealed] at ih ih' ⊢
    omega
  case assign t ts us op target value hop _ htarget _ ih ih' =>
    have hcount := keptCount_silent a (Token.Kind.isPlain_of_assign hop) us
    have hsealed := htarget.sealed rfl
    simp only [Phrase.keptNames, Phrase.innerKept, Phrase.idents, Phrase.discards, Item.idents,
      Item.discards, Expr.idents, Expr.discards, List.count_append,
      Token.keptCount_append hsealed] at ih ih' ⊢
    omega
  case dict hash l r ts entries hhash hl hr hts ih =>
    have hcount := keptCount_silent a (by rw [hhash]; exact ⟨rfl, rfl⟩) (l :: (ts ++ [r]))
    have hbraces := keptCount_braces a hl hr (hts.sealed rfl).clauses
    simp only [Phrase.keptNames, Phrase.innerKept, Phrase.idents, Phrase.discards, Item.idents,
      Item.discards, Expr.idents, Expr.discards, flatMap_entry, flatMap_discards_entry,
      List.count_append] at ih ⊢
    omega
  case block l r ts ss hl hr hts ih =>
    have hbraces := keptCount_braces a hl hr (hts.sealed rfl).clauses
    simp only [Phrase.keptNames, Phrase.innerKept, Phrase.idents, Phrase.discards, Block.idents,
      Block.discards, List.count_append] at ih ⊢
    omega
  case select word l r ts us value found hword hl hr hvalue hfound ihvalue ih =>
    have hcount := keptCount_silent a (by rw [hword]; exact ⟨rfl, rfl⟩) (ts ++ l :: (us ++ [r]))
    have hbraces := keptCount_braces a hl hr hfound.seals
    rw [Token.keptCount_append (hvalue.sealed rfl), Token.keptCount_append (hvalue.sealed rfl)] at hcount
    simp only [Phrase.keptNames, Phrase.innerKept, Phrase.idents, Phrase.discards, Item.idents,
      Item.discards, Expr.idents, Expr.discards, keptClauses, listIdents_matchArms,
      listDiscards_matchArms, optionIdents_expr, optionDiscards_expr, List.count_append] at ihvalue ih ⊢
    omega
  case switch word l r ts us value found hword hl hr hvalue hfound ihvalue ih =>
    have hcount := keptCount_silent a (by rw [hword]; exact ⟨rfl, rfl⟩) (ts ++ l :: (us ++ [r]))
    have hbraces := keptCount_braces a hl hr hfound.seals
    rw [Token.keptCount_append (hvalue.sealed rfl), Token.keptCount_append (hvalue.sealed rfl)] at hcount
    simp only [Phrase.keptNames, Phrase.innerKept, Phrase.idents, Phrase.discards, Stmt.idents,
      Stmt.discards, keptClauses, listIdents_switchCases, listDiscards_switchCases,
      optionIdents_block, optionDiscards_block, List.count_append] at ihvalue ih ⊢
    omega
  case matchNil => simp [Phrase.keptNames, Phrase.innerKept, keptClauses, Token.keptCount_nil]
  case switchNil => simp [Phrase.keptNames, Phrase.innerKept, keptClauses, Token.keptCount_nil]
  case matchDefault word ts us result found hword hresult hfound ihresult ih =>
    have hcount := keptCount_default a hword (hresult.sealed rfl) hresult.seals.2 hfound.seals
    simp only [Phrase.keptNames, Phrase.innerKept, Phrase.idents, Phrase.discards,
      List.count_append, count_keptClauses_inr] at ihresult ih ⊢
    cases hany : found.any Sum.isRight
    all_goals
      simp only [hany, Bool.false_eq_true, if_true, if_false] at hcount ⊢
      omega
  case switchDefault word ts us body found hword hbody hfound ihbody ih =>
    have hcount := keptCount_default a hword (hbody.sealed rfl) hbody.seals.2 hfound.seals
    simp only [Phrase.keptNames, Phrase.innerKept, Phrase.idents, Phrase.discards,
      List.count_append, count_keptClauses_inr] at ihbody ih ⊢
    cases hany : found.any Sum.isRight
    all_goals
      simp only [hany, Bool.false_eq_true, if_true, if_false] at hcount ⊢
      omega
  case result l r before ts behind e hl hr hseparators hts ih =>
    rw [List.forall_mem_append] at hseparators
    have hbefore := sealed_separators hseparators.1
    have hsealed := hts.sealed rfl
    have hbraces := keptCount_braces a hl hr
      (hbefore.append (hsealed.append (sealed_separators hseparators.2))).clauses
    have hcount := keptCount_separators a hseparators.1
    have hcount' := keptCount_separators a hseparators.2
    have heq : l :: (before ++ (ts ++ (behind ++ [r]))) = l :: ((before ++ (ts ++ behind)) ++ [r]) := by
      simp
    rw [heq]
    simp only [Token.keptCount_append hbefore, Token.keptCount_append hsealed] at hbraces
    simp only [Phrase.keptNames, Phrase.innerKept, Phrase.idents, Phrase.discards, Item.idents,
      Item.discards, List.count_append] at ih ⊢
    omega
  case template t es ht _ ih =>
    rw [Token.keptCount_plain (Token.Kind.isPlain_of_eq ht rfl),
      Token.keptCount_plain (Token.Kind.isPlain_of_eq ht rfl), Token.keptWords_of_template rfl ht,
      Token.keptWords_of_template rfl ht]
    simp only [Phrase.keptNames, Phrase.innerKept, Phrase.idents, Phrase.discards, Item.idents,
      Item.discards, Expr.idents, Expr.discards, Expr.optionIdents, Expr.optionDiscards,
      List.nil_append, List.count_append, Token.keptCount_nil] at ih ⊢
    omega
  case tagged t ts tag es ht _ htag _ ihtag ih =>
    rw [Token.keptCount_append (htag.sealed rfl), Token.keptCount_append (htag.sealed rfl),
      Token.keptCount_plain (Token.Kind.isPlain_of_eq ht rfl),
      Token.keptCount_plain (Token.Kind.isPlain_of_eq ht rfl), Token.keptWords_of_template rfl ht,
      Token.keptWords_of_template rfl ht]
    simp only [Phrase.keptNames, Phrase.innerKept, Phrase.idents, Phrase.discards, Item.idents,
      Item.discards, Expr.idents, Expr.discards, Expr.optionIdents, Expr.optionDiscards,
      List.count_append, Token.keptCount_nil] at ihtag ih ⊢
    omega
  case holesHole source origin opening segments e es _ _ ihhole ih =>
    simp only [Phrase.keptNames, Phrase.innerKept, Phrase.idents, Phrase.discards, Item.idents,
      Item.discards, Expr.listIdents, Expr.listDiscards, List.flatMap_cons, List.count_append,
      segmentKept, Token.keptCount_nil] at ihhole ih ⊢
    simp only [keptCount] at ihhole
    omega
  case member dot t ts object hdot ht hobject ih =>
    have hne : t.kind ≠ .dot ∧ t.kind ≠ .template := by
      constructor
      all_goals
        intro hkind
        rw [hkind] at ht
        rcases ht with ht | ht <;> cases ht
    have hsilent := Token.keptWords_silent (Token.Kind.isSilent_of_eq hdot rfl)
    have hword : t.keptWords Token.Kind.isWord = [identOf t] := by
      refine Token.keptWords_of_counts ?_ hne.2
      simpa [Token.Kind.isWord] using ht
    have hname : (t.keptWords Token.Kind.isName).count a ≤ [identOf t].count a := by
      by_cases hident : t.kind = .ident
      · rw [Token.keptWords_isName hident]
      · rw [Token.keptWords_of_other (by simpa [Token.Kind.isName] using hident) hne.2]
        exact Nat.zero_le _
    rw [Token.keptCount_append (hobject.sealed rfl), Token.keptCount_append (hobject.sealed rfl),
      Token.keptCount_member hdot hne.1, Token.keptCount_member hdot hne.1, hsilent, hword]
    simp only [Phrase.keptNames, Phrase.innerKept, Phrase.idents, Phrase.discards, Item.idents,
      Item.discards, Expr.idents, Expr.discards, List.count_append, List.count_nil] at ih ⊢
    omega
  case destructure l r t ts us targets op value hl hr hop _ _ htargets _ ihtargets ih =>
    have hcount := keptCount_silent a (by rw [hl]; exact ⟨rfl, rfl⟩) (ts ++ r :: t :: us)
    have hcount' := keptCount_silent a (by rw [hr]; exact ⟨rfl, rfl⟩) (t :: us)
    have hcount'' := keptCount_silent a (Token.Kind.isPlain_of_destructuring hop) us
    rw [Token.keptCount_append (htargets.sealed rfl), Token.keptCount_append (htargets.sealed rfl)]
      at hcount
    simp only [Phrase.keptNames, Phrase.innerKept, Phrase.idents, Phrase.discards, Item.idents,
      Item.discards, Stmt.idents, Stmt.discards, flatMap_target, flatMap_discards_target,
      List.count_append] at ihtargets ih ⊢
    omega
  -- where nothing is reported, a loop has no third name
  case' forGrouped hothers _ _ _ _ _ _ =>
    obtain ⟨second, rfl⟩ := List.length_eq_one_iff.1 (hothers trivial)
  case' forOutside hothers _ _ _ _ _ _ =>
    obtain ⟨second, rfl⟩ := List.length_eq_one_iff.1 (hothers trivial)
  all_goals
    simp only [Phrase.keptNames, Phrase.innerKept, Phrase.idents, Phrase.discards, Item.idents,
      Item.discards, Expr.idents, Expr.discards, DictEntry.idents, DictEntry.discards,
      ImportItem.idents, MatchArm.idents, MatchArm.discards, SwitchCase.idents,
      SwitchCase.discards, CatchClause.idents, CatchClause.discards, Stmt.idents, Stmt.discards,
      Expr.listIdents, Expr.listDiscards, Stmt.listIdents, Stmt.listDiscards, Expr.optionIdents,
      Expr.optionDiscards, Block.optionIdents, Block.optionDiscards, Stmt.optionIdents,
      Stmt.optionDiscards, CatchClause.optionIdents, CatchClause.optionDiscards, Target.ident?,
      Target.discard?, flatMap_expr, flatMap_arg, flatMap_name, flatMap_imported, idents_toStmt,
      flatMap_discards_expr, flatMap_discards_arg, flatMap_discards_name,
      flatMap_discards_imported, discards_toStmt, Option.toList_some, Option.toList_none,
      List.flatMap_cons, List.flatMap_nil, List.count_append, List.count_nil, List.cons_append,
      List.nil_append, List.append_nil, List.count_cons, List.head?_cons, count_keptClauses_inl,
      segmentKept, Token.keptCount_nil] at *
    try simp (disch := first
      | assumption
      | exact Derives.sealed ‹_› rfl
      | exact Token.Kind.isPlain_of_eq ‹_› rfl
      | exact Token.Kind.isSilent_of_eq ‹_› rfl
      | fail) only
      [Token.keptCount_append, Token.keptCount_plain, Token.keptWords_isName, Token.keptWords_isWord,
        Token.keptCount_nil, Token.keptWords_silent, List.count_nil, List.count_cons]
    try omega

end Grammar

/-! ## Tokens and places -/

namespace Token

/-- The significant tokens of a text are all but line breaks and the end. -/
theorem mem_content {pos : Position} {cs : List Char} {t : Token} (ht : t ∈ tokensFrom pos cs)
    (hend : t.kind ≠ .eof) (hline : t.kind ≠ .newline) : t ∈ Grammar.content (tokensFrom pos cs) := by
  obtain ⟨front, htokens, hfront⟩ := tokensFrom_eq_concat pos cs
  rw [htokens] at ht ⊢
  rw [Grammar.content, beforeEnd, List.takeWhile_append_of_pos (by simpa using hfront)]
  refine List.mem_filter.2 ⟨List.mem_append_left _ ?_, by simpa using hline⟩
  rcases List.mem_append.1 ht with ht | ht
  · exact ht
  · rw [List.mem_singleton.1 ht] at hend
    exact absurd rfl hend

theorem mem_keptTokens_self {pos : Position} {cs : List Char} {t : Token}
    (hkept : kept false (Grammar.content (tokensFrom pos cs)) = Grammar.content (tokensFrom pos cs))
    (ht : t ∈ tokensFrom pos cs) (hend : t.kind ≠ .eof) (hline : t.kind ≠ .newline) :
    t ∈ keptTokens (tokensFrom pos cs) := by
  rw [keptTokens, hkept]
  refine List.mem_flatMap.2 ⟨t, mem_content ht hend hline, ?_⟩
  rw [keptDeep_eq]
  exact List.mem_cons_self

theorem keptCount_content (counts : Kind → Bool) (a : Ident) (tokens : List Token) :
    keptCount counts a (Grammar.content tokens)
      = (((keptTokens tokens).filter fun u => counts u.kind).map Grammar.identOf).count a := by
  rw [keptTokens, List.filter_flatMap, List.map_flatMap]
  rfl

end Token

namespace Template

theorem self_mem_runsWithin (depth : Nat) (tokens : List Token) :
    tokens ∈ runsWithin depth tokens := by
  cases depth <;> exact List.mem_cons_self

/-- The tokens of all runs are those of the first one, at any depth. -/
theorem mem_deep_of_runsWithin {depth : Nat} {tokens run : List Token} {t : Token}
    (hrun : run ∈ runsWithin depth tokens) (ht : t ∈ run) : t ∈ tokens.flatMap Token.deep := by
  induction depth generalizing tokens with
  | zero =>
    rw [List.mem_singleton.1 hrun] at ht
    exact (Token.sublist_flatMap_deep tokens).subset ht
  | succ depth ih =>
    rcases List.mem_cons.1 hrun with rfl | hrun
    · exact (Token.sublist_flatMap_deep run).subset ht
    · obtain ⟨hole, hhole, hrun⟩ := List.mem_flatMap.1 hrun
      obtain ⟨u, hu, hmem⟩ := List.mem_flatMap.1 hhole
      refine List.mem_flatMap.2 ⟨u, hu, ?_⟩
      rw [Token.deep_eq]
      exact List.mem_cons_of_mem _ (List.mem_flatMap.2 ⟨hole, hmem, ih hrun⟩)

/-- Where no run has a clause that is overwritten, all names are kept. -/
theorem mem_keptTokens_of_runsWithin {depth : Nat} {pos : Position} {cs : List Char}
    {run : List Token} {t : Token}
    (hkept : ∀ run ∈ runsWithin depth (Token.tokensFrom pos cs),
      Token.kept false (Grammar.content run) = Grammar.content run)
    (hrun : run ∈ runsWithin depth (Token.tokensFrom pos cs)) (ht : t ∈ run)
    (hkind : t.kind = .ident) : t ∈ Token.keptTokens (Token.tokensFrom pos cs) := by
  have hown := hkept _ (self_mem_runsWithin depth _)
  induction depth generalizing pos cs with
  | zero =>
    rw [List.mem_singleton.1 hrun] at ht
    exact Token.mem_keptTokens_self hown ht (by simp [hkind]) (by simp [hkind])
  | succ depth ih =>
    rcases List.mem_cons.1 hrun with rfl | hrun
    · exact Token.mem_keptTokens_self hown ht (by simp [hkind]) (by simp [hkind])
    -- a run of a template, which is kept
    obtain ⟨hole, hhole, hrun⟩ := List.mem_flatMap.1 hrun
    obtain ⟨u, hu, hmem⟩ := List.mem_flatMap.1 hhole
    obtain ⟨htemplate, source, origin, -, -, rfl⟩ := mem_holeTokens hmem
    have hruns : ∀ run' ∈ runsWithin depth (Token.tokenizeAt source origin),
        Token.kept false (Grammar.content run') = Grammar.content run' := by
      intro run' hrun'
      exact hkept run' (List.mem_cons_of_mem _ (List.mem_flatMap.2 ⟨_, hhole, hrun'⟩))
    have hinner := ih hruns hrun (hruns _ (self_mem_runsWithin depth _))
    have hcontent := Token.mem_content hu (by simp [htemplate]) (by simp [htemplate])
    rw [Token.keptTokens, hown]
    refine List.mem_flatMap.2 ⟨u, hcontent, ?_⟩
    rw [Token.keptDeep_eq]
    exact List.mem_cons_of_mem _ (List.mem_flatMap.2 ⟨_, hmem, hinner⟩)

end Template

namespace Program

open Grammar (identOf)
open Token (keptTokens tokenize)

section Places

variable {text : String} (h : (Program.parse text).diagnostics = [])

include h

/-- Where nothing is reported, a program names what its text keeps. -/
theorem count_names (a : Ident) :
    (((keptTokens (tokenize text)).filter fun t => t.kind.isName).map identOf).count a
        ≤ ((Program.parse text).program.idents ++ (Program.parse text).program.discards).count a
      ∧ ((Program.parse text).program.idents ++ (Program.parse text).program.discards).count a
        ≤ (((keptTokens (tokenize text)).filter fun t => t.kind.isWord).map identOf).count a := by
  have hcount := (derives_content h).count_kept a
  rw [Token.keptCount_content, Token.keptCount_content] at hcount
  exact hcount

/-- No two names of a program stand at the same place. -/
theorem count_places_le_one (p : Position) : (Program.parse text).program.places.count p ≤ 1 := by
  have hnodup : (((keptTokens (tokenize text)).filter fun t => t.kind.isWord).map (·.pos)).Nodup :=
    (Token.nodup_deep text).sublist
      ((List.filter_sublist.trans (Token.keptTokens_sublist _)).map _)
  have hsubperm := List.subperm_ext_iff.2 fun a _ => (count_names h a).2
  have hle := hsubperm.countP_le (fun id => id.pos == p)
  rw [List.countP_map] at hle
  have hone := List.nodup_iff_count_le_one.1 hnodup p
  rw [List.count_eq_countP, List.countP_map] at hone
  rw [Program.places, List.count_eq_countP, List.countP_map]
  exact Nat.le_trans hle hone

/-- Where nothing is reported, the tree has a place for a name exactly if it is kept. -/
theorem mem_places_iff {run : List Token} (hrun : run ∈ Template.runs text) {t : Token}
    (ht : t ∈ run) (hkind : t.kind = .ident) :
    t.pos ∈ (Program.parse text).program.places ↔ t ∈ keptTokens (tokenize text) := by
  constructor
  · intro hplace
    obtain ⟨id, hid, hpos⟩ := List.mem_map.1 hplace
    have hword : id ∈ ((keptTokens (tokenize text)).filter fun t => t.kind.isWord).map identOf :=
      List.count_pos_iff.1 (Nat.lt_of_lt_of_le (List.count_pos_iff.2 hid) (count_names h id).2)
    obtain ⟨u, hu, rfl⟩ := List.mem_map.1 hword
    have hkept := (List.mem_filter.1 hu).1
    have heq := List.inj_on_of_nodup_map (Token.nodup_deep text)
      ((Token.keptTokens_sublist _).subset hkept) (Template.mem_deep_of_runsWithin hrun ht) hpos
    exact heq ▸ hkept
  · intro hkept
    have hname : identOf t ∈ ((keptTokens (tokenize text)).filter fun t => t.kind.isName).map identOf :=
      List.mem_map_of_mem (List.mem_filter.2 ⟨hkept, by rw [hkind]; rfl⟩)
    refine List.mem_map.2 ⟨identOf t, ?_, rfl⟩
    exact List.count_pos_iff.1
      (Nat.lt_of_lt_of_le (List.count_pos_iff.2 hname) (count_names h _).1)

/-- Where nothing is reported, the tree has one place for a name that is kept and none for another.
    All names are kept if no run of tokens has a `default` clause that another one overwrites. -/
theorem count_places {run : List Token} (hrun : run ∈ Template.runs text) {t : Token}
    (ht : t ∈ run) (hkind : t.kind = .ident) :
    (Program.parse text).program.places.count t.pos
        = (if t ∈ keptTokens (tokenize text) then 1 else 0)
      ∧ ((∀ run' ∈ Template.runs text, Token.kept false (Grammar.content run') = Grammar.content run') →
        (Program.parse text).program.places.count t.pos = 1) := by
  have hle := count_places_le_one h t.pos
  have hcount : (Program.parse text).program.places.count t.pos
      = if t ∈ keptTokens (tokenize text) then 1 else 0 := by
    split
    next hkept =>
      have hpos := List.count_pos_iff.2 ((mem_places_iff h hrun ht hkind).2 hkept)
      omega
    next hdropped =>
      exact List.count_eq_zero.2 fun hplace => hdropped ((mem_places_iff h hrun ht hkind).1 hplace)
  refine ⟨hcount, fun hall => ?_⟩
  have hkept : t ∈ keptTokens (tokenize text) :=
    Template.mem_keptTokens_of_runsWithin hall hrun ht hkind
  rw [hcount, if_pos hkept]

end Places

/-- The name in a `default` clause that another one overwrites is gone, although nothing is
    reported. -/
theorem count_places_second_default :
    (Program.parse "match (1) \x7b default \x7b x \x7d default \x7b 2 \x7d \x7d").diagnostics = []
      ∧ (⟨.ident, "x", none, ⟨1, 23⟩⟩ : Token)
        ∈ tokenize "match (1) \x7b default \x7b x \x7d default \x7b 2 \x7d \x7d"
      ∧ (Program.parse "match (1) \x7b default \x7b x \x7d default \x7b 2 \x7d \x7d").program.places.count
        ⟨1, 23⟩ = 0
      ∧ (⟨.ident, "x", none, ⟨1, 23⟩⟩ : Token)
        ∉ keptTokens (tokenize "match (1) \x7b default \x7b x \x7d default \x7b 2 \x7d \x7d") := by
  have hclean :
      (Program.parse "match (1) \x7b default \x7b x \x7d default \x7b 2 \x7d \x7d").diagnostics = [] := by
    decide +kernel
  have ht : (⟨.ident, "x", none, ⟨1, 23⟩⟩ : Token)
      ∈ tokenize "match (1) \x7b default \x7b x \x7d default \x7b 2 \x7d \x7d" := by
    decide +kernel
  have hnone : (Program.parse
      "match (1) \x7b default \x7b x \x7d default \x7b 2 \x7d \x7d").program.places.count ⟨1, 23⟩ = 0 := by
    decide +kernel
  have hcount := (count_places hclean (Template.self_mem_runsWithin _ _) ht rfl).1
  refine ⟨hclean, ht, hnone, fun hkept => ?_⟩
  rw [if_pos hkept] at hcount
  exact Nat.one_ne_zero (hcount.symm.trans hnone)

end Program

end Welle
