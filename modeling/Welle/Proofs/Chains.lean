import Welle.Proofs.Parser.Levels
import Welle.Proofs.Printing.Lexing
import Welle.Proofs.Printing.Takes

set_option autoImplicit false

/-! # Chains of operators

A chain is a sequence of names, each behind any number of prefix operators, with an infix operator
between each name and the next. Read at a level, a chain gives a tree up to its first operator that
binds no more strongly than the level. The tree has the names and operators of the chain in their
order, and `Expr.Climbs` says how it is built: what stands on the left of an operator binds at least
as strongly as it does, what stands on its right binds more strongly, and a prefix operator takes no
more than the name behind it. No other tree has these names and operators in this order. -/

namespace Welle

open Grammar (identOf)

/-! ## How strongly infix operators bind -/

/-- How strongly an infix operator binds. -/
def InfixOp.strength : InfixOp → Precedence
  | nullish => .nullish
  | or => .or
  | and => .and
  | bitOr => .bitOr
  | bitXor => .bitXor
  | bitAnd => .bitAnd
  | eq | ne => .equals
  | lt | le | gt | ge => .lessGreater
  | shl | shr => .shift
  | add | sub => .sum
  | mul | div | mod => .product

/-- The level of an infix operator: the higher, the more strongly it binds. -/
def InfixOp.level (op : InfixOp) : Nat := op.strength.level

theorem Precedence.ofKind?_infix (op : InfixOp) : ofKind? op.kind = some op.strength := by
  cases op <;> rfl

theorem InfixOp.ofKind?_kind (op : InfixOp) : ofKind? op.kind = some op := by cases op <;> rfl

theorem InfixOp.kind_injective {op op' : InfixOp} (h : op.kind = op'.kind) : op = op' := by
  have hop := op.ofKind?_kind
  rw [h, op'.ofKind?_kind] at hop
  exact (Option.some.inj hop).symm

theorem PrefixOp.kind_injective {op op' : PrefixOp} (h : op.kind = op'.kind) : op = op' := by
  have hop := op.ofKind?_kind
  rw [h, op'.ofKind?_kind] at hop
  exact (Option.some.inj hop).symm

theorem InfixOp.level_lt (op : InfixOp) : op.level < Precedence.prefixOp.level := by
  cases op <;> decide

/-! ## Chains -/

namespace Chain

/-- A name behind any number of prefix operators. -/
structure Operand where
  prefixes : List Token
  name : Token
  prefixes_kind : ∀ t ∈ prefixes, ∃ op : PrefixOp, t.kind = op.kind
  name_kind : name.kind = .ident

/-- The tokens of an operand. -/
def Operand.tokens (operand : Operand) : List Token := operand.prefixes ++ [operand.name]

/-- An infix operator and the operand behind it. -/
structure Link where
  sign : Token
  op : InfixOp
  operand : Operand
  sign_kind : sign.kind = op.kind

/-- The tokens of a link. -/
def Link.tokens (link : Link) : List Token := link.sign :: link.operand.tokens

/-- The links in front of the first operator that binds no more strongly than a level. -/
def above (level : Nat) (links : List Link) : List Link :=
  links.takeWhile (level < ·.op.level)

/-- The links from the first operator on that binds no more strongly than a level. -/
def behind (level : Nat) (links : List Link) : List Link :=
  links.dropWhile (level < ·.op.level)

theorem above_append_behind (level : Nat) (links : List Link) :
    above level links ++ behind level links = links := List.takeWhile_append_dropWhile

/-- What binds more strongly than a level starts with what binds more strongly than a higher one. -/
theorem above_split {low high : Nat} (h : low ≤ high) (links : List Link) :
    above low links = above high links ++ above low (behind high links) := by
  induction links with
  | nil => rfl
  | cons link links ih =>
    by_cases hhigh : high < link.op.level
    · have hlow : low < link.op.level := by omega
      simpa [above, behind, hhigh, hlow] using ih
    · simp [above, behind, hhigh]

theorem behind_behind {low high : Nat} (h : low ≤ high) (links : List Link) :
    behind low (behind high links) = behind low links := by
  induction links with
  | nil => rfl
  | cons link links ih =>
    by_cases hhigh : high < link.op.level
    · have hlow : low < link.op.level := by omega
      simpa [behind, hhigh, hlow] using ih
    · simp [behind, hhigh]

/-- The operator in front of what is left binds no more strongly than the level. -/
theorem le_of_head?_behind {level : Nat} {links : List Link} {link : Link}
    (h : link ∈ (behind level links).head?) : link.op.level ≤ level := by
  have hhead := List.head?_dropWhile_not (fun link : Link => decide (level < link.op.level)) links
  rw [behind, Option.mem_def] at h
  rw [h] at hhead
  simpa using hhead

theorem above_cons {low : Nat} {link : Link} {links : List Link} (h : low < link.op.level) :
    above low (link :: links)
      = link :: (above link.op.level links ++ above low (behind link.op.level links)) := by
  rw [← above_split h.le]
  simp [above, h]

theorem behind_cons {low : Nat} {link : Link} {links : List Link} (h : low < link.op.level) :
    behind low (link :: links) = behind low links := by
  simp [behind, h]

theorem above_of_le {high : Nat} {link : Link} {links : List Link} (h : link.op.level ≤ high) :
    above high (link :: links) = [] := by
  simp [above, h]

theorem behind_of_le {high : Nat} {link : Link} {links : List Link} (h : link.op.level ≤ high) :
    behind high (link :: links) = link :: links := by
  simp [behind, h]

/-- No infix operator binds more strongly than prefix operators. -/
theorem above_prefixOp (links : List Link) : above Precedence.prefixOp.level links = [] := by
  cases links with
  | nil => rfl
  | cons link links => exact above_of_le link.op.level_lt.le

theorem behind_prefixOp (links : List Link) : behind Precedence.prefixOp.level links = links := by
  cases links with
  | nil => rfl
  | cons link links => exact behind_of_le link.op.level_lt.le

theorem length_behind_le (level : Nat) (links : List Link) :
    ((behind level links).flatMap Link.tokens).length ≤ (links.flatMap Link.tokens).length := by
  conv_rhs => rw [← above_append_behind level links, List.flatMap_append, List.length_append]
  omega

theorem lt_of_mem_above {level : Nat} {links : List Link} {link : Link}
    (h : link ∈ above level links) : level < link.op.level := by
  simpa using List.mem_takeWhile_imp h

/-- What binds no more strongly than a link binds no more strongly than all that was taken up to the
    operators behind the link that bind more strongly. -/
theorem le_of_taken {before links : List Link} {link : Link} {level : Nat}
    (hbefore : ∀ other ∈ before, link.op.level ≤ other.op.level) (h : level ≤ link.op.level) :
    ∀ other ∈ before ++ link :: above link.op.level links, level ≤ other.op.level := by
  intro other hother
  rcases List.mem_append.1 hother with hother | hother
  · exact h.trans (hbefore other hother)
  · rcases List.mem_cons.1 hother with rfl | hother
    · exact h
    · exact h.trans (lt_of_mem_above hother).le

end Chain

/-- Operands joined by infix operators. -/
structure Chain where
  first : Chain.Operand
  links : List Chain.Link

namespace Chain

/-- The tokens of a chain. -/
def tokens (c : Chain) : List Token := c.first.tokens ++ c.links.flatMap Link.tokens

theorem Operand.length_pos (operand : Operand) : 0 < operand.tokens.length := by
  simp [Operand.tokens]

theorem length_pos (c : Chain) : 0 < c.tokens.length := by
  have hfirst := c.first.length_pos
  rw [tokens, List.length_append]
  omega

/-- The part of a chain in front of its first operator that binds no more strongly than a level. -/
def upTo (level : Nat) (c : Chain) : Chain := ⟨c.first, above level c.links⟩

/-- The tokens of a chain from its first operator on that binds no more strongly than a level. -/
def tokensBehind (level : Nat) (c : Chain) : List Token :=
  (behind level c.links).flatMap Link.tokens

end Chain

/-! ## Trees of operators -/

/-- A name or an operator where it is written. -/
inductive Piece where
  | name (id : Ident)
  | sign (kind : Token.Kind) (pos : Position)

/-- The name or the operator that a token stands for. -/
def Piece.ofToken (t : Token) : Piece :=
  if t.kind = .ident then .name (identOf t) else .sign t.kind t.pos

/-- Whether a piece is a name. -/
def Piece.isName : Piece → Bool
  | .name _ => true
  | .sign .. => false

namespace Expr

/-- The names and operators of an expression that has no other parts, in their order. -/
def pieces : Expr → List Piece
  | .ident id => [.name id]
  | .unary pos op operand => .sign op.kind pos :: operand.pieces
  | .binary pos op left right => left.pieces ++ .sign op.kind pos :: right.pieces
  | _ => []

/-- The infix operators of an expression that has no parts but names and operators. -/
def infixOps : Expr → List InfixOp
  | .unary _ _ operand => operand.infixOps
  | .binary _ op left right => left.infixOps ++ op :: right.infixOps
  | _ => []

/-- An expression of names and operators in which operators stand over those that bind more
    strongly, and the later one over the earlier one where they bind equally strongly. -/
inductive Climbs : Expr → Prop
  | ident {id : Ident} : Climbs (.ident id)
  | unary {pos : Position} {op : PrefixOp} {operand : Expr} :
      Climbs operand → operand.infixOps = [] → Climbs (.unary pos op operand)
  | binary {pos : Position} {op : InfixOp} {left right : Expr} : Climbs left → Climbs right →
      (∀ other ∈ left.infixOps, op.level ≤ other.level) →
      (∀ other ∈ right.infixOps, op.level < other.level) → Climbs (.binary pos op left right)

@[simp] theorem pieces_ident (id : Ident) : (Expr.ident id).pieces = [.name id] := rfl

@[simp] theorem pieces_unary (pos : Position) (op : PrefixOp) (operand : Expr) :
    (Expr.unary pos op operand).pieces = .sign op.kind pos :: operand.pieces := rfl

@[simp] theorem pieces_binary (pos : Position) (op : InfixOp) (left right : Expr) :
    (Expr.binary pos op left right).pieces = left.pieces ++ .sign op.kind pos :: right.pieces := rfl

@[simp] theorem infixOps_ident (id : Ident) : (Expr.ident id).infixOps = [] := rfl

@[simp] theorem infixOps_unary (pos : Position) (op : PrefixOp) (operand : Expr) :
    (Expr.unary pos op operand).infixOps = operand.infixOps := rfl

@[simp] theorem infixOps_binary (pos : Position) (op : InfixOp) (left right : Expr) :
    (Expr.binary pos op left right).infixOps = left.infixOps ++ op :: right.infixOps := rfl

/-! ## One tree for each order of names and operators -/

/-- Some pieces of which the last one is a name. -/
def EndsInName (ps : List Piece) : Prop := ∃ id, ps.getLast? = some (.name id)

theorem endsInName_append_cons {ps qs : List Piece} {kind : Token.Kind} {pos : Position} :
    EndsInName (ps ++ .sign kind pos :: qs) ↔ EndsInName qs := by
  cases qs with
  | nil => simp [EndsInName]
  | cons q qs => simp [EndsInName, List.getLast?_append, List.getLast?_cons]

theorem endsInName_cons {ps : List Piece} {kind : Token.Kind} {pos : Position} :
    EndsInName (.sign kind pos :: ps) ↔ EndsInName ps :=
  @endsInName_append_cons [] ps kind pos

theorem Climbs.endsInName {e : Expr} (h : e.Climbs) : EndsInName e.pieces := by
  induction h with
  | ident => exact ⟨_, rfl⟩
  | unary _ _ ih => exact endsInName_cons.2 ih
  | binary _ _ _ _ _ ihright => exact endsInName_append_cons.2 ihright

/-- An operator behind a name is an infix operator. -/
theorem Climbs.infix_of_pieces {e : Expr} (h : e.Climbs) {ps qs : List Piece} {kind : Token.Kind}
    {pos : Position} (he : e.pieces = ps ++ .sign kind pos :: qs) (hps : EndsInName ps) :
    ∃ op ∈ e.infixOps, op.kind = kind := by
  induction h generalizing ps qs with
  | ident =>
    obtain ⟨_, hlast⟩ := hps
    cases ps with
    | nil => cases hlast
    | cons p ps => simp at he
  | unary _ _ ih =>
    cases ps with
    | nil =>
      obtain ⟨_, hlast⟩ := hps
      cases hlast
    | cons p ps =>
      obtain ⟨rfl, hoperand⟩ := List.cons.inj he
      exact ih hoperand (endsInName_cons.1 hps)
  | @binary _ op left right _ _ _ _ ihleft ihright =>
    simp only [infixOps_binary, List.mem_append, List.mem_cons]
    rcases List.append_eq_append_iff.1 he with ⟨cs, rfl, hcs⟩ | ⟨cs, hleft, hcs⟩
    · cases cs with
      | nil => exact ⟨op, .inr (.inl rfl), (Piece.sign.inj (List.cons.inj hcs).1).1⟩
      | cons p cs =>
        obtain ⟨rfl, hright⟩ := List.cons.inj hcs
        obtain ⟨other, hmem, hkind⟩ := ihright hright (endsInName_append_cons.1 hps)
        exact ⟨other, .inr (.inr hmem), hkind⟩
    · cases cs with
      | nil => exact ⟨op, .inr (.inl rfl), (Piece.sign.inj (List.cons.inj hcs).1).1.symm⟩
      | cons p cs =>
        obtain ⟨rfl, -⟩ := List.cons.inj hcs
        obtain ⟨other, hmem, hkind⟩ := ihleft hleft hps
        exact ⟨other, .inl hmem, hkind⟩

/-- The left operand does not go on behind the operator: the operator there would bind both more
    strongly and no more strongly. -/
theorem Climbs.left_not_longer {left right left' right' : Expr} {op op' : InfixOp}
    {pos pos' : Position} {ps : List Piece} (h : (Expr.binary pos op left right).Climbs)
    (h' : (Expr.binary pos' op' left' right').Climbs)
    (hleft : left'.pieces = left.pieces ++ .sign op.kind pos :: ps) 
    (hright : right.pieces = ps ++ .sign op'.kind pos' :: right'.pieces) : False := by
  cases h with
  | binary hl hr _ hstrong =>
    cases h' with
    | binary hl' _ hweak' _ =>
      obtain ⟨other, hmem, hkind⟩ := hl'.infix_of_pieces hleft hl.endsInName
      have hps : EndsInName ps := endsInName_append_cons.1 (hleft ▸ hl'.endsInName)
      obtain ⟨other', hmem', hkind'⟩ := hr.infix_of_pieces hright hps
      have hle := hweak' other hmem
      have hlt := hstrong other' hmem'
      rw [InfixOp.kind_injective hkind] at hle
      rw [InfixOp.kind_injective hkind'] at hlt
      omega

/-- A tree with an infix operator has more than one name. -/
theorem Climbs.count_names {e : Expr} (h : e.Climbs) :
    e.pieces.countP Piece.isName = e.infixOps.length + 1 := by
  induction h with
  | ident => rfl
  | unary _ _ ih => simpa [Piece.isName] using ih
  | binary _ _ _ _ ihleft ihright =>
    simp [Piece.isName, ihleft, ihright]
    omega

theorem Climbs.length_infixOps {e e' : Expr} (h : e.Climbs) (h' : e'.Climbs)
    (hpieces : e.pieces = e'.pieces) : e.infixOps.length = e'.infixOps.length := by
  have hnames := h.count_names
  rw [hpieces, h'.count_names] at hnames
  omega

/-- Names and operators in their order make one tree. -/
theorem Climbs.eq_of_pieces {e e' : Expr} (h : e.Climbs) (h' : e'.Climbs)
    (hpieces : e.pieces = e'.pieces) : e = e' := by
  have hcount := h.length_infixOps h' hpieces
  induction h generalizing e' with
  | ident =>
    cases h' with
    | ident => simpa using hpieces
    | unary => simp at hpieces
    | binary => simp at hcount
  | unary h hnone ih =>
    cases h' with
    | ident => simp at hpieces
    | unary h' hnone' =>
      obtain ⟨hsign, hoperand⟩ := List.cons.inj hpieces
      obtain ⟨hkind, rfl⟩ := Piece.sign.inj hsign
      rw [PrefixOp.kind_injective hkind, ih h' hoperand (by rw [hnone, hnone'])]
    | binary => simp [hnone] at hcount
  | @binary pos op left right hl hr hweak hstrong ihleft ihright =>
    cases h' with
    | ident => simp at hcount
    | unary _ hnone' => simp [hnone'] at hcount
    | @binary pos' op' left' right' hl' hr' hweak' hstrong' =>
      have h : (Expr.binary pos op left right).Climbs := .binary hl hr hweak hstrong
      have h' : (Expr.binary pos' op' left' right').Climbs := .binary hl' hr' hweak' hstrong'
      -- operands with the same pieces are the same ones
      have hsame (hleft : left.pieces = left'.pieces)
          (hright : Piece.sign op.kind pos :: right.pieces = .sign op'.kind pos' :: right'.pieces) :
          Expr.binary pos op left right = .binary pos' op' left' right' := by
        obtain ⟨hsign, hbehind⟩ := List.cons.inj hright
        obtain ⟨hkind, rfl⟩ := Piece.sign.inj hsign
        rw [InfixOp.kind_injective hkind, ihleft hl' hleft (hl.length_infixOps hl' hleft),
          ihright hr' hbehind (hr.length_infixOps hr' hbehind)]
      rcases List.append_eq_append_iff.1 hpieces with ⟨ps, hleft, hps⟩ | ⟨ps, hleft, hps⟩
      · cases ps with
        | nil => exact hsame (by simpa using hleft.symm) hps
        | cons p ps =>
          obtain ⟨rfl, hright⟩ := List.cons.inj hps
          exact (h.left_not_longer h' hleft hright).elim
      · cases ps with
        | nil => exact hsame (by simpa using hleft) hps.symm
        | cons p ps =>
          obtain ⟨rfl, hright⟩ := List.cons.inj hps
          exact (h'.left_not_longer h hleft hright).elim

end Expr

/-! ## The tree of a chain -/

namespace Chain

/-- An expression is a tree of a chain. -/
structure IsTree (c : Chain) (e : Expr) : Prop where
  pieces : e.pieces = c.tokens.map Piece.ofToken
  infixOps : e.infixOps = c.links.map (·.op)
  climbs : e.Climbs

namespace IsTree

/-- A name alone. -/
theorem ident {t : Token} (h : t.kind = .ident) :
    IsTree ⟨⟨[], t, by simp, h⟩, []⟩ (.ident (identOf t)) where
  pieces := by simp [tokens, Operand.tokens, Piece.ofToken, h]
  infixOps := rfl
  climbs := .ident

/-- A prefix operator in front of an operand. -/
theorem unary {t name : Token} {op : PrefixOp} {ts : List Token} {e : Expr}
    {hts : ∀ t ∈ ts, ∃ op : PrefixOp, t.kind = op.kind} {hname : name.kind = .ident}
    (h : IsTree ⟨⟨ts, name, hts, hname⟩, []⟩ e) (ht : t.kind = op.kind)
    (hts' : ∀ u ∈ t :: ts, ∃ op : PrefixOp, u.kind = op.kind) :
    IsTree ⟨⟨t :: ts, name, hts', hname⟩, []⟩ (.unary t.pos op e) where
  pieces := by
    have hne : op.kind ≠ .ident := by cases op <;> decide
    simp [h.pieces, tokens, Operand.tokens, Piece.ofToken, ht, hne]
  infixOps := h.infixOps
  climbs := .unary h.climbs h.infixOps

/-- A chain in front of an operator, none of whose own operators binds less strongly, and what binds
    more strongly behind it. -/
theorem binary {c : Chain} {link : Link} {links : List Link} {left right : Expr}
    (hleft : c.IsTree left) (hright : IsTree ⟨link.operand, links⟩ right)
    (hweak : ∀ other ∈ c.links, link.op.level ≤ other.op.level)
    (hstrong : ∀ other ∈ links, link.op.level < other.op.level) :
    IsTree ⟨c.first, c.links ++ link :: links⟩ (.binary link.sign.pos link.op left right) where
  pieces := by
    have hne : link.op.kind ≠ .ident := by cases link.op <;> decide
    simp [hleft.pieces, hright.pieces, tokens, Link.tokens, Piece.ofToken, link.sign_kind, hne]
  infixOps := by simp [hleft.infixOps, hright.infixOps]
  climbs := by
    refine .binary hleft.climbs hright.climbs ?_ ?_
    · simpa [hleft.infixOps] using hweak
    · simpa [hright.infixOps] using hstrong

end IsTree

end Chain

namespace Parser

open Chain (IsTree Link above behind)

variable {g : Grammar} {level : Precedence} {t : Token} {rest : List Token} {n : Nat}
variable {ds : List Diagnostic} {st : State} {e left : Expr}

/-! ## Operands and operators one by one -/

theorem run_operand_ident (g : Grammar) (h : t.kind = .ident) (rest : List Token) (n : Nat)
    (ds : List Diagnostic) :
    run (operand g) ⟨t :: rest, n, ds⟩ = (.ok (.ident (identOf t)), ⟨rest, n, ds⟩) := by
  have hat := At.cons (t := t) (by simp [h]) rest n ds
  rw [operand, run_bind, run_current, hat.settled, hat.current]
  simp only [h]
  rw [run_bind_ok (run_advance hat (by simp [h]))]
  rfl

theorem run_operand_unary (g : Grammar) {op : PrefixOp} (h : t.kind = op.kind) (rest : List Token)
    (n : Nat) (ds : List Diagnostic) :
    run (operand g) ⟨t :: rest, n, ds⟩
      = run (do return .unary t.pos op (← g.expression .prefixOp)) ⟨rest, n, ds⟩ := by
  have hat := At.cons (t := t) (by rw [h]; cases op <;> decide) rest n ds
  have hadvance := run_advance hat (by rw [h]; cases op <;> decide)
  rw [operand, run_bind, run_current, hat.settled, hat.current]
  simp only [h]
  cases op <;> exact run_bind_ok hadvance _

/-- The expression ends in front of a token that continues none. -/
theorem run_continuation?_none (h : Precedence.ofKind? st.settle.current.kind = none) :
    run (continuation? level e) st = (.ok none, st.settle) := by
  rw [continuation?, run_bind, run_currentKind]
  simp only [h]
  rfl

theorem run_continuation?_infix {op : InfixOp} (h : t.kind = op.kind) :
    run (continuation? level e) ⟨t :: rest, n, ds⟩
      = (.ok (if level.level < op.level then some op.strength else none), ⟨t :: rest, n, ds⟩) := by
  have hat := At.cons (t := t) (by rw [h]; cases op <;> decide) rest n ds
  have htemplate : op.kind ≠ .template := by cases op <;> decide
  rw [continuation?, run_bind, run_currentKind, hat.settled, hat.current]
  simp only [h, Precedence.ofKind?_infix, htemplate, decide_false, Bool.false_and,
    Bool.false_eq_true, if_false]
  by_cases hlevel : level.level < op.level
  · have hle : ¬op.strength ≤ level := Nat.not_le.2 hlevel
    rw [if_neg hle, if_pos hlevel]
    rfl
  · have hle : op.strength ≤ level := Nat.not_lt.1 hlevel
    rw [if_pos hle, if_neg hlevel]
    rfl

theorem run_operation_binary (g : Grammar) (left : Expr) {op : InfixOp} (h : t.kind = op.kind)
    (strength : Precedence) :
    run (operation g left strength) ⟨t :: rest, n, ds⟩
      = run (do return .binary t.pos op left (← g.expression strength)) ⟨rest, n, ds⟩ := by
  have hat := At.cons (t := t) (by rw [h]; cases op <;> decide) rest n ds
  have hadvance := run_advance hat (by rw [h]; cases op <;> decide)
  rw [operation, run_bind, run_current, hat.settled, hat.current]
  simp only [h]
  cases op <;> exact run_bind_ok hadvance _

/-! ## Reading a chain -/

/-- A grammar reads the part of a chain in front of the first operator that binds no more strongly
    than the level, and stops there. -/
def ReadsChain (g : Grammar) (level : Precedence) (c : Chain) (rest : List Token) (n : Nat)
    (ds : List Diagnostic) : Prop :=
  ∃ e, run (g.expression level) ⟨c.tokens ++ rest, n, ds⟩
      = (.ok e, State.settle ⟨c.tokensBehind level.level ++ rest, n, ds⟩)
    ∧ (c.upTo level.level).IsTree e

theorem length_settle_le (st : State) : st.settle.tokens.length ≤ st.tokens.length := by
  unfold State.settle
  split
  · exact (List.dropWhile_suffix _).length_le
  · exact le_rfl

theorem settle_links {link : Link} {links : List Link} :
    State.settle ⟨(link :: links).flatMap Link.tokens ++ rest, n, ds⟩
      = ⟨(link :: links).flatMap Link.tokens ++ rest, n, ds⟩ := by
  refine settle_of_headKind ?_ n ds
  rw [List.flatMap_cons, Link.tokens, List.cons_append, List.cons_append, headKind_cons,
    link.sign_kind]
  cases link.op <;> decide

/-- The operand that a chain starts with. Prefix operators bind more strongly than all infix
    operators, so what is read behind one of them is the operand alone. -/
theorem run_operand_chain {operand : Chain.Operand} {links : List Link}
    (hg : ∀ c : Chain, c.tokens.length < operand.tokens.length + (links.flatMap Link.tokens).length →
      ReadsChain g .prefixOp c rest n ds) :
    ∃ e st, run (Parser.operand g) ⟨operand.tokens ++ (links.flatMap Link.tokens ++ rest), n, ds⟩
        = (.ok e, st)
      ∧ st.settle = State.settle ⟨links.flatMap Link.tokens ++ rest, n, ds⟩
      ∧ IsTree ⟨operand, []⟩ e := by
  obtain ⟨prefixes, name, hprefixes, hname⟩ := operand
  cases prefixes with
  | nil => exact ⟨_, _, run_operand_ident g hname _ n ds, rfl, .ident hname⟩
  | cons t ts =>
    obtain ⟨op, hop⟩ := hprefixes t List.mem_cons_self
    have hts : ∀ u ∈ ts, ∃ op : PrefixOp, u.kind = op.kind := fun u hu =>
      hprefixes u (List.mem_cons_of_mem t hu)
    obtain ⟨e, hrun, he⟩ := hg ⟨⟨ts, name, hts, hname⟩, links⟩ (by
      simp only [Chain.tokens, Chain.Operand.tokens, List.length_append, List.length_cons]
      omega)
    rw [Chain.tokens, Chain.tokensBehind, Chain.behind_prefixOp, List.append_assoc] at hrun
    rw [Chain.upTo, Chain.above_prefixOp] at he
    exact ⟨_, _, (run_operand_unary g hop _ n ds).trans (run_bind_ok hrun _),
      State.settle_settle _, he.unary hop hprefixes⟩

/-- The operator behind a chain, where none of the operators in the chain binds less strongly. -/
theorem run_operation_chain {c : Chain} {link : Link} {links : List Link}
    (hright : ReadsChain g link.op.strength ⟨link.operand, links⟩ rest n ds) (he : c.IsTree e)
    (hweak : ∀ other ∈ c.links, link.op.level ≤ other.op.level) :
    ∃ e', run (operation g e link.op.strength)
          ⟨link.sign :: ((link.operand.tokens ++ links.flatMap Link.tokens) ++ rest), n, ds⟩
        = (.ok e', State.settle ⟨(behind link.op.level links).flatMap Link.tokens ++ rest, n, ds⟩)
      ∧ IsTree ⟨c.first, c.links ++ link :: above link.op.level links⟩ e' := by
  obtain ⟨right, hrun, htree⟩ := hright
  exact ⟨_, (run_operation_binary g e link.sign_kind _).trans (run_bind_ok hrun _),
    he.binary htree hweak fun _ => Chain.lt_of_mem_above⟩

/-- The loop over the operators behind a chain. The next operator that it takes binds no more
    strongly than those in the chain: the last operand was read at the level of the operator in front
    of it, so what binds more strongly is in the operand. -/
theorem run_operations_chain {c : Chain} {links : List Link} {limit : Nat}
    (hrest : Precedence.ofKind? (State.settle ⟨rest, n, ds⟩).current.kind = none)
    (hg : ∀ (level : Precedence) (c : Chain),
      c.tokens.length < (links.flatMap Link.tokens).length → ReadsChain g level c rest n ds)
    (he : c.IsTree e) (hnext : ∀ link ∈ links.head?, level.level < link.op.level →
      ∀ other ∈ c.links, link.op.level ≤ other.op.level)
    (hst : st.settle = State.settle ⟨links.flatMap Link.tokens ++ rest, n, ds⟩)
    (hlimit : st.tokens.length ≤ limit) :
    ∃ e', run (operations g level limit e) st
        = (.ok e', State.settle ⟨(behind level.level links).flatMap Link.tokens ++ rest, n, ds⟩)
      ∧ IsTree ⟨c.first, c.links ++ above level.level links⟩ e' := by
  induction limit generalizing c e links st with
  | zero =>
    have hempty : st.tokens = [] := List.length_eq_zero_iff.1 (Nat.le_zero.1 hlimit)
    have hsettle : st.settle = st := by
      obtain ⟨tokens, n, ds⟩ := st
      obtain rfl : tokens = [] := hempty
      exact settle_of_headKind (by decide) n ds
    cases links with
    | nil =>
      refine ⟨e, ?_, by simpa [above] using he⟩
      rw [← hsettle, hst]
      rfl
    | cons link links =>
      have htokens := congrArg State.tokens (hsettle.symm.trans hst)
      rw [settle_links, hempty] at htokens
      cases htokens
  | succ limit ih =>
    cases links with
    | nil =>
      have hstops : Precedence.ofKind? st.settle.current.kind = none := by
        rw [hst]
        exact hrest
      refine ⟨e, ?_, by simpa [above] using he⟩
      rw [operations, run_bind_ok (run_continuation?_none hstops), hst]
      rfl
    | cons link links =>
      rw [settle_links] at hst
      have hsettled : run (continuation? level e) st = run (continuation? level e) st.settle := by
        rw [continuation?, run_bind, run_bind, run_currentKind, run_currentKind, st.settle_settle]
      rw [operations, run_bind, hsettled, hst, List.flatMap_cons, Link.tokens, List.cons_append,
        List.cons_append, run_continuation?_infix link.sign_kind]
      by_cases hlevel : level.level < link.op.level
      · have hlength := Chain.length_behind_le link.op.level links
        -- links that bind more strongly than the operator go into its right operand
        have hright := hg link.op.strength ⟨link.operand, links⟩ (by
          simp only [Chain.tokens, List.flatMap_cons, Link.tokens, List.length_append,
            List.length_cons]
          omega)
        have hinner (level : Precedence) (c : Chain)
            (hc : c.tokens.length < ((behind link.op.level links).flatMap Link.tokens).length) :
            ReadsChain g level c rest n ds := by
          refine hg level c ?_
          rw [List.flatMap_cons, List.length_append]
          omega
        obtain ⟨left, hop, hleft⟩ := run_operation_chain hright he (hnext link rfl hlevel)
        -- the operator that follows binds no more strongly than those in the tree
        have hweaker : ∀ next ∈ (behind link.op.level links).head?, level.level < next.op.level →
            ∀ other ∈ c.links ++ link :: above link.op.level links,
              next.op.level ≤ other.op.level := fun next hmem _ =>
          Chain.le_of_taken (hnext link rfl hlevel) (Chain.le_of_head?_behind hmem)
        have hround := (length_settle_le st).trans hlimit
        rw [hst, List.flatMap_cons, Link.tokens, List.cons_append, List.cons_append,
          List.length_cons, List.length_append, List.length_append] at hround
        have hsettle := length_settle_le
          ⟨(behind link.op.level links).flatMap Link.tokens ++ rest, n, ds⟩
        rw [List.length_append] at hsettle
        obtain ⟨e', hrun, he'⟩ := ih hinner hleft hweaker (State.settle_settle _) (by omega)
        rw [if_pos hlevel]
        dsimp only
        rw [run_bind_ok hop, hrun, Chain.behind_behind hlevel.le, Chain.behind_cons hlevel,
          Chain.above_cons hlevel, ← List.cons_append, ← List.append_assoc]
        exact ⟨e', rfl, he'⟩
      · rw [if_neg hlevel, Chain.behind_of_le (Nat.not_lt.1 hlevel),
          Chain.above_of_le (Nat.not_lt.1 hlevel), settle_links, List.append_nil]
        exact ⟨e, rfl, he⟩

/-- A chain is read with as many levels as it has tokens. -/
theorem readsChain_ofDepth {depth : Nat} {c : Chain}
    (hrest : Precedence.ofKind? (State.settle ⟨rest, n, ds⟩).current.kind = none)
    (hdepth : c.tokens.length ≤ depth) : ReadsChain (.ofDepth depth) level c rest n ds := by
  induction depth generalizing level c with
  | zero =>
    have hpos := c.length_pos
    omega
  | succ depth ih =>
    have hlength : c.tokens.length = c.first.tokens.length + (c.links.flatMap Link.tokens).length := by
      rw [Chain.tokens, List.length_append]
    have hfirst := c.first.length_pos
    have hshorter (level : Precedence) (c' : Chain) (h : c'.tokens.length < c.tokens.length) :
        ReadsChain (.ofDepth depth) level c' rest n ds := ih (by omega)
    have hbehind (c' : Chain)
        (h : c'.tokens.length < c.first.tokens.length + (c.links.flatMap Link.tokens).length) :
        ReadsChain (.ofDepth depth) .prefixOp c' rest n ds := hshorter .prefixOp c' (by omega)
    have hlinks (level : Precedence) (c' : Chain)
        (h : c'.tokens.length < (c.links.flatMap Link.tokens).length) :
        ReadsChain (.ofDepth depth) level c' rest n ds := hshorter level c' (by omega)
    obtain ⟨e, st, hrun, hst, he⟩ := run_operand_chain hbehind
    obtain ⟨e', hrun', he'⟩ := run_operations_chain hrest hlinks he (by simp) hst le_rfl
    refine ⟨e', ?_, by simpa [Chain.upTo] using he'⟩
    rw [Chain.tokens, List.append_assoc]
    refine (run_bind_ok hrun _).trans ?_
    rw [run_bind, run_get]
    exact hrun'

/-- A chain is read up to its first operator that binds no more strongly than the level, and the
    parser stops there. The tree that it gives is the only one that has the names and operators read
    in their order and climbs. What stands behind the chain must not continue an expression. -/
theorem parseExpression_chain (c : Chain) (level : Precedence) (rest : List Token) (n : Nat)
    (ds : List Diagnostic)
    (hrest : Precedence.ofKind? (State.settle ⟨rest, n, ds⟩).current.kind = none) :
    ∃ e, run (parseExpression level) ⟨c.tokens ++ rest, n, ds⟩
        = (.ok e, State.settle ⟨c.tokensBehind level.level ++ rest, n, ds⟩)
      ∧ e.pieces = (c.upTo level.level).tokens.map Piece.ofToken ∧ e.Climbs
      ∧ ∀ e' : Expr, e'.Climbs → e'.pieces = e.pieces → e' = e := by
  -- there are levels enough for the chain
  have hdepth : c.tokens.length ≤ State.weight ⟨c.tokens ++ rest, n, ds⟩ := by
    have hlength := length_le_weightOf (c.tokens ++ rest)
    rw [List.length_append] at hlength
    exact (Nat.le_add_right _ _).trans hlength
  obtain ⟨e, hrun, htree⟩ : ReadsChain (.ofDepth (State.weight ⟨c.tokens ++ rest, n, ds⟩)) level c
      rest n ds := readsChain_ofDepth hrest hdepth
  refine ⟨e, ?_, htree.pieces, htree.climbs, fun e' h' hpieces => h'.eq_of_pieces htree.climbs hpieces⟩
  rw [parseExpression, run_bind_ok (run_get _)]
  exact hrun

/-- `a + -b * c ?? d`, read at the level of `??`. -/
theorem parseExpression_chain_mixed :
    run (parseExpression .nullish)
        ⟨[⟨.ident, "a", none, ⟨1, 1⟩⟩, ⟨.plus, "+", none, ⟨1, 3⟩⟩, ⟨.minus, "-", none, ⟨1, 5⟩⟩,
          ⟨.ident, "b", none, ⟨1, 6⟩⟩, ⟨.star, "*", none, ⟨1, 8⟩⟩, ⟨.ident, "c", none, ⟨1, 10⟩⟩,
          ⟨.nullish, "??", none, ⟨1, 12⟩⟩, ⟨.ident, "d", none, ⟨1, 15⟩⟩, .endOfText ⟨1, 16⟩], 0, []⟩
      = (.ok (.binary ⟨1, 3⟩ .add (.ident ⟨"a", ⟨1, 1⟩⟩) (.binary ⟨1, 8⟩ .mul
          (.unary ⟨1, 5⟩ .neg (.ident ⟨"b", ⟨1, 6⟩⟩)) (.ident ⟨"c", ⟨1, 10⟩⟩))),
        ⟨[⟨.nullish, "??", none, ⟨1, 12⟩⟩, ⟨.ident, "d", none, ⟨1, 15⟩⟩, .endOfText ⟨1, 16⟩], 0,
          []⟩) := by
  obtain ⟨e, hrun, hpieces, -, hunique⟩ := parseExpression_chain
    ⟨⟨[], ⟨.ident, "a", none, ⟨1, 1⟩⟩, by simp, rfl⟩,
      [⟨⟨.plus, "+", none, ⟨1, 3⟩⟩, .add, ⟨[⟨.minus, "-", none, ⟨1, 5⟩⟩],
          ⟨.ident, "b", none, ⟨1, 6⟩⟩, by simpa using ⟨.neg, rfl⟩, rfl⟩, rfl⟩,
        ⟨⟨.star, "*", none, ⟨1, 8⟩⟩, .mul, ⟨[], ⟨.ident, "c", none, ⟨1, 10⟩⟩, by simp, rfl⟩, rfl⟩,
        ⟨⟨.nullish, "??", none, ⟨1, 12⟩⟩, .nullish,
          ⟨[], ⟨.ident, "d", none, ⟨1, 15⟩⟩, by simp, rfl⟩, rfl⟩]⟩
    .nullish [.endOfText ⟨1, 16⟩] 0 [] rfl
  have hclimbs : (Expr.binary ⟨1, 3⟩ .add (.ident ⟨"a", ⟨1, 1⟩⟩) (.binary ⟨1, 8⟩ .mul
      (.unary ⟨1, 5⟩ .neg (.ident ⟨"b", ⟨1, 6⟩⟩)) (.ident ⟨"c", ⟨1, 10⟩⟩))).Climbs :=
    .binary .ident (.binary (.unary .ident rfl) .ident (by simp) (by simp)) (by simp)
      (by simpa using by decide)
  rw [hunique _ hclimbs (by rw [hpieces]; rfl)]
  exact hrun

end Parser

end Welle
