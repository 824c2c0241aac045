import Mathlib.Logic.Relation
import Welle.Analysis
import Welle.Proofs.Events
import Welle.Proofs.Located

set_option autoImplicit false

/-! # What a walk does

Every step of a walk is a chain of small changes: a scope is entered or left, a name that the
current scope does not have is declared, more becomes known about a binding, or a use is recorded.
What holds of all changes holds of all walks. The main results are that tables, bindings and
references fit together (`Walk.Valid`), and that a walk only adds to what it found before
(`Walk.Grows`). -/

namespace Welle

namespace Binding

/-- What a walk never changes about a binding, and that it may only become a function. -/
structure Keeps (b b' : Binding) : Prop where
  name : b'.name = b.name
  decl : b'.decl = b.decl
  scope : b'.scope = b.scope
  kind : b'.kind = b.kind ∨ b'.kind = .func

theorem Keeps.refl (b : Binding) : b.Keeps b := ⟨rfl, rfl, rfl, .inl rfl⟩

theorem Keeps.trans {a b c : Binding} (h₁ : a.Keeps b) (h₂ : b.Keeps c) : a.Keeps c where
  name := h₂.name.trans h₁.name
  decl := h₂.decl.trans h₁.decl
  scope := h₂.scope.trans h₁.scope
  kind := h₂.kind.elim (fun h => h ▸ h₁.kind) .inr

theorem keeps_params (params : List String) (b : Binding) : b.Keeps { b with params } :=
  ⟨rfl, rfl, rfl, .inl rfl⟩

theorem keeps_func (params : List String) (b : Binding) :
    b.Keeps { b with kind := .func, params } :=
  ⟨rfl, rfl, rfl, .inr rfl⟩

theorem keeps_modulePath (path : String) (b : Binding) :
    b.Keeps { b with modulePath := some path } :=
  ⟨rfl, rfl, rfl, .inl rfl⟩

theorem keeps_member (path text : String) (b : Binding) :
    b.Keeps { b with modulePath := some path, member := some text } :=
  ⟨rfl, rfl, rfl, .inl rfl⟩

end Binding

namespace Walk

/-! ## Changes -/

/-- Whether an identifier may be recorded with a resolution: a binding has the name of what refers
    to it, and so has a member. -/
def Means (w : Walk) (id : Ident) : Resolution → Prop
  | .binding i => ∃ b, w.bindings[i]? = some b ∧ b.name = id.name
  | .moduleMember _ _ text => text = id.name
  | .builtin | .unresolved => True

/-- One change of a walk that names only the given identifiers. -/
inductive Change (ids : List Ident) (w : Walk) : Walk → Prop
  | enter (span : Span) : Change ids w (w.enter span)
  | leave : Change ids w w.leave
  | report (diagnostics : List Diagnostic) : Change ids w { w with diagnostics }
  | declare {id : Ident} (kind : BindingKind) (hid : id ∈ ids) (hnew : w.own? id.name = none) :
    Change ids w (w.declare id kind).1
  | update (i : Nat) {f : Binding → Binding} (hf : ∀ b : Binding, b.Keeps (f b)) :
    Change ids w (w.update i f)
  | refer {id : Ident} {resolution : Resolution} (hid : id ∈ ids) (hmeans : w.Means id resolution) :
    Change ids w (w.refer id resolution)

/-- Some changes, one after the other. -/
abbrev Changes (ids : List Ident) : Walk → Walk → Prop := Relation.ReflTransGen (Change ids)

/-- Tables list bindings by their names and scopes, and the walk is in a scope that exists. -/
structure Valid (w : Walk) : Prop where
  current : w.current < w.scopes.size
  parent : ∀ (k : Nat) (s : Scope), w.scopes[k]? = some s → ∀ p, s.parent = some p →
    p < w.scopes.size
  entry : ∀ (k : Nat) (s : Scope), w.scopes[k]? = some s → ∀ e ∈ s.names,
    ∃ b, w.bindings[e.2]? = some b ∧ b.name = e.1 ∧ b.scope = k
  declared : ∀ (i : Nat) (b : Binding), w.bindings[i]? = some b → b.decl.name = b.name
  means : ∀ r ∈ w.references, w.Means r.ident r.resolution

/-! ## Parts of a step -/

theorem mem_of_lookup {α β : Type} [BEq α] [LawfulBEq α] {entries : List (α × β)} {key : α} {i : β}
    (h : entries.lookup key = some i) : (key, i) ∈ entries := by
  obtain ⟨front, back, rfl, -⟩ := List.lookup_eq_some_iff.1 h
  simp

theorem named_of_own? {w : Walk} {k i : Nat} {name : String} (hw : w.Valid)
    (h : w.scopes.own? k name = some i) : ∃ b, w.bindings[i]? = some b ∧ b.name = name := by
  obtain ⟨s, hs, hlookup⟩ := Option.bind_eq_some_iff.1 h
  obtain ⟨b, hb, hname, -⟩ := hw.entry k s hs (name, i) (mem_of_lookup hlookup)
  exact ⟨b, hb, hname⟩

theorem named_of_lookup {w : Walk} {name : String} {i : Nat} (hw : w.Valid)
    (h : w.lookup name = some i) : ∃ b, w.bindings[i]? = some b ∧ b.name = name := by
  obtain ⟨k, -, hk⟩ := List.exists_of_findSome?_eq_some h
  exact named_of_own? hw hk

theorem own?_of_lookup_eq_none {w : Walk} {name : String} (h : w.lookup name = none) :
    w.own? name = none := by
  have hmem : w.current ∈ w.scopes.chain w.current := by
    rw [Scopes.chain]
    exact List.mem_cons_self
  exact List.findSome?_eq_none_iff.1 h w.current hmem

theorem declare_of_some {w : Walk} {id : Ident} {i : Nat} (kind : BindingKind)
    (h : w.own? id.name = some i) : w.declare id kind = (w, i) := by
  simp [declare, h]

theorem declare_of_none {w : Walk} {id : Ident} (kind : BindingKind)
    (h : w.own? id.name = none) :
    w.declare id kind =
      ({ w with
          scopes := w.scopes.modify w.current fun s =>
            { s with names := s.names ++ [(id.name, w.bindings.size)] }
          bindings := w.bindings.push ⟨id.name, kind, id, w.current, [], none, none⟩ },
        w.bindings.size) := by
  simp [declare, h]

/-- A declared name has a binding of that name. -/
theorem named_declare {w : Walk} (hw : w.Valid) (id : Ident) (kind : BindingKind) :
    ∃ b, (w.declare id kind).1.bindings[(w.declare id kind).2]? = some b ∧ b.name = id.name := by
  cases h : w.own? id.name with
  | none => simp [declare_of_none kind h]
  | some i =>
    rw [declare_of_some kind h]
    exact named_of_own? hw h

theorem changes_declare {w : Walk} {ids : List Ident} {id : Ident} (kind : BindingKind)
    (hid : id ∈ ids) : Changes ids w (w.declare id kind).1 := by
  cases h : w.own? id.name with
  | none => exact .single (.declare kind hid h)
  | some i =>
    rw [declare_of_some kind h]

theorem declareAndRefer_eq (w : Walk) (id : Ident) (kind : BindingKind) (f : Binding → Binding) :
    w.declareAndRefer id kind f =
      ((w.declare id kind).1.update (w.declare id kind).2 f).refer id
        (.binding (w.declare id kind).2) := rfl

theorem step_func (w : Walk) (pairs : Bracket.Pairs) (id : Ident) (params : List String) :
    w.step pairs (.func id params) =
      (w.declare id .func).1.update (w.declare id .func).2 fun b =>
        { b with kind := .func, params } := rfl

theorem changes_declareAndRefer {w : Walk} {ids : List Ident} {id : Ident} (hw : w.Valid)
    (kind : BindingKind) {f : Binding → Binding} (hf : ∀ b : Binding, b.Keeps (f b))
    (hid : id ∈ ids) : Changes ids w (w.declareAndRefer id kind f) := by
  obtain ⟨b, hb, hname⟩ := named_declare hw id kind
  rw [declareAndRefer_eq]
  refine ((changes_declare kind hid).tail (.update _ hf)).tail (.refer hid ⟨f b, ?_, ?_⟩)
  · simp [update, Array.getElem?_modify, hb]
  · rw [(hf b).name, hname]

theorem changes_use {w : Walk} {ids : List Ident} {id : Ident} (hw : w.Valid) (hid : id ∈ ids) :
    Changes ids w (w.use id) := by
  unfold use
  split
  next i h => exact .single (.refer hid (named_of_lookup hw h))
  next => exact .single (.refer hid (by split <;> trivial))

theorem changes_assign {w : Walk} {ids : List Ident} {id : Ident} (hw : w.Valid) (op : AssignOp)
    (params : Option (List String)) (hid : id ∈ ids) : Changes ids w (w.assign id op params) := by
  unfold assign
  dsimp only
  split
  next i h =>
    have hnamed : ∃ b, w.bindings[i]? = some b ∧ b.name = id.name := by
      split at h
      · exact named_of_own? hw h
      · exact named_of_lookup hw h
    have hrefer : Changes ids w (w.refer id (.binding i)) := .single (.refer hid hnamed)
    split
    · exact hrefer.tail (.report _)
    · exact hrefer
  next =>
    split
    next params => exact changes_declareAndRefer hw .func (Binding.keeps_params params) hid
    next => exact changes_declareAndRefer hw .var Binding.Keeps.refl hid

theorem useMember_of_alias {w : Walk} {base : Ident} {i : Nat} {x : Binding} (name : Ident)
    (hbase : w.lookup base.name = some i) (hx : w.bindings[i]? = some x)
    (hkind : x.kind = .moduleAlias) :
    w.useMember base name = (w.refer base (.binding i)).refer name
      (.moduleMember base.name (x.modulePath.getD "") name.name) := by
  obtain ⟨xname, kind, decl, scope, params, path, text⟩ := x
  obtain rfl : kind = .moduleAlias := hkind
  simp [useMember, hbase, hx]

theorem useMember_of_other {w : Walk} {base : Ident} (name : Ident)
    (h : ∀ i x, w.lookup base.name = some i → w.bindings[i]? = some x → x.kind ≠ .moduleAlias) :
    w.useMember base name = w.use base := by
  unfold useMember
  split
  next => rfl
  next i hbase =>
    split
    next hx => exact absurd rfl (h i _ hbase hx)
    next => rfl

/-- The name in front of a member is an alias of a module, or its use is all that is recorded. -/
theorem alias_or_other (w : Walk) (base : Ident) :
    (∃ i x, w.lookup base.name = some i ∧ w.bindings[i]? = some x ∧ x.kind = .moduleAlias)
      ∨ ∀ i x, w.lookup base.name = some i → w.bindings[i]? = some x → x.kind ≠ .moduleAlias := by
  by_cases h : ∃ i x, w.lookup base.name = some i ∧ w.bindings[i]? = some x ∧ x.kind = .moduleAlias
  · exact .inl h
  · exact .inr fun i x hi hx hkind => h ⟨i, x, hi, hx, hkind⟩

theorem changes_useMember {w : Walk} {ids : List Ident} {base name : Ident} (hw : w.Valid)
    (hbase : base ∈ ids) (hname : name ∈ ids) : Changes ids w (w.useMember base name) := by
  obtain ⟨i, x, hlookup, hx, hkind⟩ | hother := w.alias_or_other base
  · rw [useMember_of_alias name hlookup hx hkind]
    exact (Relation.ReflTransGen.single (.refer hbase (named_of_lookup hw hlookup))).tail
      (.refer hname rfl)
  · rw [useMember_of_other name hother]
    exact changes_use hw hbase

/-- A step makes changes that name its identifiers. -/
theorem changes_step {w : Walk} (hw : w.Valid) (pairs : Bracket.Pairs) (e : Event) :
    Changes e.idents w (w.step pairs e) := by
  cases e with
  | enter start opening => exact .single (.enter _)
  | leave => exact .single .leave
  | use id => exact changes_use hw (by simp [Event.idents])
  | assign id op params => exact changes_assign hw op params (by simp [Event.idents])
  | param id =>
    exact changes_declareAndRefer hw .param Binding.Keeps.refl (by simp [Event.idents])
  | bind id =>
    rw [step]
    split
    · exact .refl
    · exact changes_declareAndRefer hw .var Binding.Keeps.refl (by simp [Event.idents])
  | func id params =>
    exact (changes_declare .func (by simp [Event.idents])).tail
      (.update _ (Binding.keeps_func params))
  | importModule id path =>
    exact changes_declareAndRefer hw .moduleAlias (Binding.keeps_modulePath path)
      (by simp [Event.idents])
  | importMember id path text =>
    exact changes_declareAndRefer hw .imported (Binding.keeps_member path text)
      (by simp [Event.idents])
  | member base name =>
    exact changes_useMember hw (by simp [Event.idents]) (by simp [Event.idents])

/-! ## Tables, bindings and references fit together -/

theorem Means.mono {w w' : Walk} {id : Ident} {resolution : Resolution}
    (h : w.Means id resolution)
    (hkeep : ∀ (i : Nat) (b : Binding), w.bindings[i]? = some b →
      ∃ b', w'.bindings[i]? = some b' ∧ b'.name = b.name) :
    w'.Means id resolution := by
  cases resolution with
  | binding i =>
    obtain ⟨b, hb, hname⟩ := h
    obtain ⟨b', hb', hname'⟩ := hkeep i b hb
    exact ⟨b', hb', hname'.trans hname⟩
  | moduleMember _ _ text => exact h
  | builtin => trivial
  | unresolved => trivial

theorem Valid.enter {w : Walk} (hw : w.Valid) (span : Span) : (w.enter span).Valid where
  current := by simp [Walk.enter]
  parent := by
    intro k s hs p hp
    have := hw.parent
    have := hw.current
    grind [Walk.enter]
  entry := by
    intro k s hs e he
    have := hw.entry
    grind [Walk.enter]
  declared := hw.declared
  means := hw.means

theorem Valid.leave {w : Walk} (hw : w.Valid) : w.leave.Valid where
  current := by
    have hparent := hw.parent w.current
    have hcurrent := hw.current
    simp only [Walk.leave, rootScope]
    cases h : w.scopes[w.current]?.bind (·.parent) with
    | none => exact Nat.zero_lt_of_lt hcurrent
    | some p =>
      obtain ⟨s, hs, hp⟩ := Option.bind_eq_some_iff.1 h
      exact hparent s hs p hp
  parent := hw.parent
  entry := hw.entry
  declared := hw.declared
  means := hw.means

theorem Valid.declare {w : Walk} (hw : w.Valid) (id : Ident) (kind : BindingKind) :
    (w.declare id kind).1.Valid := by
  cases hown : w.own? id.name with
  | some i =>
    rw [declare_of_some kind hown]
    exact hw
  | none =>
    rw [declare_of_none kind hown]
    -- earlier bindings stay where they are
    have hold (i : Nat) (b : Binding) (hb : w.bindings[i]? = some b) :
        (w.bindings.push ⟨id.name, kind, id, w.current, [], none, none⟩)[i]? = some b := by
      grind
    refine ⟨?_, ?_, ?_, ?_, ?_⟩
    · simpa using hw.current
    · intro k s hs p hp
      have := hw.parent
      grind
    · intro k s hs e he
      simp only [Array.getElem?_modify] at hs
      split at hs
      next hk =>
        subst hk
        obtain ⟨s', hs', rfl⟩ := Option.map_eq_some_iff.1 hs
        obtain he | he := List.mem_append.1 he
        · obtain ⟨b, hb, hname, hscope⟩ := hw.entry _ s' hs' e he
          exact ⟨b, hold _ b hb, hname, hscope⟩
        · rw [List.mem_singleton.1 he]
          exact ⟨_, Array.getElem?_push_size, rfl, rfl⟩
      next =>
        obtain ⟨b, hb, hname, hscope⟩ := hw.entry k s hs e he
        exact ⟨b, hold _ b hb, hname, hscope⟩
    · intro i b hb
      have := hw.declared
      grind
    · intro r hr
      exact (hw.means r hr).mono fun i b hb => ⟨b, hold i b hb, rfl⟩

theorem Valid.update {w : Walk} (hw : w.Valid) (i : Nat) {f : Binding → Binding}
    (hf : ∀ b : Binding, b.Keeps (f b)) : (w.update i f).Valid := by
  have hkeep (j : Nat) (b : Binding) (hb : w.bindings[j]? = some b) :
      ∃ b', (w.update i f).bindings[j]? = some b' ∧ b.Keeps b' := by
    simp only [Walk.update, Array.getElem?_modify, hb]
    split
    · exact ⟨f b, rfl, hf b⟩
    · exact ⟨b, rfl, .refl b⟩
  refine ⟨hw.current, hw.parent, ?_, ?_, ?_⟩
  · intro k s hs e he
    obtain ⟨b, hb, hname, hscope⟩ := hw.entry k s hs e he
    obtain ⟨b', hb', hkeeps⟩ := hkeep e.2 b hb
    exact ⟨b', hb', hkeeps.name.trans hname, hkeeps.scope.trans hscope⟩
  · intro j b' hb'
    simp only [Walk.update, Array.getElem?_modify] at hb'
    split at hb'
    · obtain ⟨b, hb, rfl⟩ := Option.map_eq_some_iff.1 hb'
      rw [(hf b).decl, (hf b).name, hw.declared _ b hb]
    · exact hw.declared j b' hb'
  · intro r hr
    refine (hw.means r hr).mono fun j b hb => ?_
    obtain ⟨b', hb', hkeeps⟩ := hkeep j b hb
    exact ⟨b', hb', hkeeps.name⟩

theorem Valid.change {ids : List Ident} {w w' : Walk} (hw : w.Valid) (h : Change ids w w') :
    w'.Valid := by
  cases h with
  | enter span => exact hw.enter span
  | leave => exact hw.leave
  | report diagnostics => exact ⟨hw.current, hw.parent, hw.entry, hw.declared, hw.means⟩
  | declare kind hid hnew => exact hw.declare _ kind
  | update i hf => exact hw.update i hf
  | @refer id resolution hid hmeans =>
    refine ⟨hw.current, hw.parent, hw.entry, hw.declared, ?_⟩
    intro r hr
    obtain hr | rfl := Array.mem_push.1 hr
    · exact hw.means r hr
    · exact hmeans

theorem Valid.changes {ids : List Ident} {w w' : Walk} (hw : w.Valid) (h : Changes ids w w') :
    w'.Valid := by
  induction h with
  | refl => exact hw
  | tail _ hlast ih => exact ih.change hlast

theorem valid_start (stop : Position) : (start stop).Valid where
  current := by simp [start, rootScope]
  parent := by
    intro k s hs p hp
    grind [start]
  entry := by
    intro k s hs e he
    grind [start]
  declared := by simp [start]
  means := by simp [start]

/-- A step keeps what fits together. -/
theorem Valid.step {w : Walk} (hw : w.Valid) (pairs : Bracket.Pairs) (e : Event) :
    (w.step pairs e).Valid :=
  hw.changes (changes_step hw pairs e)

/-- A whole walk keeps what fits together. -/
theorem Valid.run {w : Walk} (hw : w.Valid) (pairs : Bracket.Pairs) (events : List Event) :
    (w.run pairs events).Valid := by
  induction events generalizing w with
  | nil => exact hw
  | cons e events ih => exact ih (hw.step pairs e)

/-! ## What was found stays -/

/-- From `w` to `w'` references and bindings are added, all of them for the given identifiers, and
    those that were there are kept. -/
structure Grows (ids : List Ident) (w w' : Walk) : Prop where
  references : ∃ more, w'.references = w.references ++ more ∧ ∀ r ∈ more, r.ident ∈ ids
  bindings : ∀ (i : Nat) (b' : Binding), w'.bindings[i]? = some b' →
    (∃ b, w.bindings[i]? = some b ∧ b.Keeps b') ∨ (w.bindings.size ≤ i ∧ b'.decl ∈ ids)
  size : w.bindings.size ≤ w'.bindings.size

theorem Grows.refl (ids : List Ident) (w : Walk) : Grows ids w w where
  references := ⟨#[], by simp⟩
  bindings := fun _ b hb => .inl ⟨b, hb, .refl b⟩
  size := Nat.le_refl _

theorem Grows.trans {ids ids' : List Ident} {w w' w'' : Walk} (h : Grows ids w w')
    (h' : Grows ids' w' w'') : Grows (ids ++ ids') w w'' where
  references := by
    obtain ⟨more, hmore, hids⟩ := h.references
    obtain ⟨more', hmore', hids'⟩ := h'.references
    refine ⟨more ++ more', by rw [hmore', hmore, Array.append_assoc], fun r hr => ?_⟩
    rw [List.mem_append]
    exact (Array.mem_append.1 hr).imp (hids r) (hids' r)
  bindings := by
    intro i b'' hb''
    obtain ⟨b', hb', hkeeps'⟩ | ⟨hsize, hdecl⟩ := h'.bindings i b'' hb''
    · obtain ⟨b, hb, hkeeps⟩ | ⟨hsize, hdecl⟩ := h.bindings i b' hb'
      · exact .inl ⟨b, hb, hkeeps.trans hkeeps'⟩
      · exact .inr ⟨hsize, List.mem_append_left _ (hkeeps'.decl ▸ hdecl)⟩
    · exact .inr ⟨Nat.le_trans h.size hsize, List.mem_append_right _ hdecl⟩
  size := Nat.le_trans h.size h'.size

theorem Grows.mono {ids ids' : List Ident} {w w' : Walk} (h : Grows ids w w')
    (hids : ids ⊆ ids') : Grows ids' w w' where
  references := by
    obtain ⟨more, hmore, hmem⟩ := h.references
    exact ⟨more, hmore, fun r hr => hids (hmem r hr)⟩
  bindings := fun i b' hb' => (h.bindings i b' hb').imp_right fun h => ⟨h.1, hids h.2⟩
  size := h.size

theorem Grows.keeps {ids : List Ident} {w w' : Walk} (h : Grows ids w w') {i : Nat} {b : Binding}
    (hb : w.bindings[i]? = some b) : ∃ b', w'.bindings[i]? = some b' ∧ b.Keeps b' := by
  have hlt := (Array.getElem?_eq_some_iff.1 hb).1
  have hb' := Array.getElem?_eq_getElem (Nat.lt_of_lt_of_le hlt h.size)
  obtain ⟨a, ha, hkeeps⟩ | ⟨hsize, -⟩ := h.bindings i _ hb'
  · obtain rfl := Option.some.inj (ha.symm.trans hb)
    exact ⟨_, hb', hkeeps⟩
  · exact absurd hlt (Nat.not_lt.2 hsize)

theorem Change.grows {ids : List Ident} {w w' : Walk} (h : Change ids w w') : Grows ids w w' := by
  have hrefl := Grows.refl ids w
  cases h with
  | enter span => exact ⟨hrefl.references, hrefl.bindings, hrefl.size⟩
  | leave => exact ⟨hrefl.references, hrefl.bindings, hrefl.size⟩
  | report diagnostics => exact ⟨hrefl.references, hrefl.bindings, hrefl.size⟩
  | @declare id kind hid hnew =>
    rw [declare_of_none kind hnew]
    refine ⟨hrefl.references, fun i b hb => ?_, by simp⟩
    rw [Array.getElem?_push] at hb
    split at hb
    next hi =>
      obtain rfl := Option.some.inj hb
      exact .inr ⟨Nat.le_of_eq hi.symm, hid⟩
    next => exact .inl ⟨b, hb, .refl b⟩
  | @update i f hf =>
    refine ⟨hrefl.references, fun j b hb => ?_, by simp [Walk.update]⟩
    simp only [Walk.update, Array.getElem?_modify] at hb
    split at hb
    · obtain ⟨a, ha, rfl⟩ := Option.map_eq_some_iff.1 hb
      exact .inl ⟨a, ha, hf a⟩
    · exact .inl ⟨b, hb, .refl b⟩
  | @refer id resolution hid hmeans =>
    refine ⟨⟨#[⟨id, resolution⟩], by simp [Walk.refer], ?_⟩, hrefl.bindings, hrefl.size⟩
    intro r hr
    obtain rfl := Array.mem_singleton.1 hr
    exact hid

theorem Changes.grows {ids : List Ident} {w w' : Walk} (h : Changes ids w w') :
    Grows ids w w' := by
  induction h with
  | refl => exact .refl ids w
  | tail _ hlast ih => exact (ih.trans hlast.grows).mono (by simp)

/-- A step only adds, and only for its identifiers. -/
theorem grows_step {w : Walk} (hw : w.Valid) (pairs : Bracket.Pairs) (e : Event) :
    Grows e.idents w (w.step pairs e) :=
  Changes.grows (changes_step hw pairs e)

/-- A whole walk only adds, and only for the identifiers that it meets. -/
theorem grows_run {w : Walk} (hw : w.Valid) (pairs : Bracket.Pairs) (events : List Event) :
    Grows (events.flatMap Event.idents) w (w.run pairs events) := by
  induction events generalizing w with
  | nil => exact .refl _ w
  | cons e events ih => exact (grows_step hw pairs e).trans (ih (hw.step pairs e))

/-! ## Where a binding is named -/

/-- Whether a walk records the binding `b` at a position, as its declaration or as a use. -/
def NamedAt (w : Walk) (b : Nat) (pos : Position) : Prop :=
  (∃ x, w.bindings[b]? = some x ∧ x.decl.pos = pos)
    ∨ ∃ r ∈ w.references, r.binding? = some b ∧ r.ident.pos = pos

theorem namedAt_refer (w : Walk) (id : Ident) (resolution : Resolution) (b : Nat)
    (pos : Position) : (w.refer id resolution).NamedAt b pos ↔
      w.NamedAt b pos ∨ (resolution = .binding b ∧ id.pos = pos) := by
  have hbinding : (Reference.mk id resolution).binding? = some b ↔ resolution = .binding b := by
    cases resolution <;> simp [Reference.binding?]
  simp only [NamedAt, refer, Array.mem_push]
  constructor
  · rintro (h | ⟨r, hr | rfl, h⟩)
    · exact .inl (.inl h)
    · exact .inl (.inr ⟨r, hr, h⟩)
    · exact .inr ⟨hbinding.1 h.1, h.2⟩
  · rintro ((h | ⟨r, hr, h⟩) | h)
    · exact .inl h
    · exact .inr ⟨r, .inl hr, h⟩
    · exact .inr ⟨_, .inr rfl, hbinding.2 h.1, h.2⟩

theorem namedAt_update (w : Walk) (i : Nat) {f : Binding → Binding}
    (hf : ∀ b : Binding, b.Keeps (f b)) (b : Nat) (pos : Position) :
    (w.update i f).NamedAt b pos ↔ w.NamedAt b pos := by
  refine or_congr ?_ Iff.rfl
  simp only [update, Array.getElem?_modify]
  split
  · simp [(hf _).decl]
  · rfl

theorem namedAt_declare (w : Walk) (id : Ident) (kind : BindingKind) (b : Nat) (pos : Position) :
    (w.declare id kind).1.NamedAt b pos ↔ w.NamedAt b pos
      ∨ (w.own? id.name = none ∧ (w.declare id kind).2 = b ∧ id.pos = pos) := by
  cases hown : w.own? id.name with
  | some i => simp [declare_of_some kind hown]
  | none =>
    rw [declare_of_none kind hown]
    simp only [NamedAt, Array.getElem?_push, true_and]
    by_cases hb : b = w.bindings.size
    · subst hb
      simp [or_comm]
    · simp [hb, Ne.symm hb]

theorem namedAt_declareAndRefer (w : Walk) (id : Ident) (kind : BindingKind)
    {f : Binding → Binding} (hf : ∀ b : Binding, b.Keeps (f b)) (b : Nat) (pos : Position) :
    (w.declareAndRefer id kind f).NamedAt b pos ↔ w.NamedAt b pos
      ∨ ((w.declare id kind).2 = b ∧ id.pos = pos) := by
  rw [declareAndRefer_eq, namedAt_refer, namedAt_update _ _ hf, namedAt_declare,
    Resolution.binding.injEq]
  tauto

/-- What is named stays named. -/
theorem Grows.namedAt {ids : List Ident} {w w' : Walk} (h : Grows ids w w') {b : Nat}
    {pos : Position} (hb : w.NamedAt b pos) : w'.NamedAt b pos := by
  obtain ⟨x, hx, hpos⟩ | ⟨r, hr, hbinding, hpos⟩ := hb
  · obtain ⟨x', hx', hkeeps⟩ := h.keeps hx
    exact .inl ⟨x', hx', by rw [hkeeps.decl, hpos]⟩
  · obtain ⟨more, hmore, -⟩ := h.references
    exact .inr ⟨r, hmore ▸ Array.mem_append_left _ hr, hbinding, hpos⟩

/-- What is named was named before, or stands at an identifier that was met since. -/
theorem Grows.namedAt_or {ids : List Ident} {w w' : Walk} (h : Grows ids w w') {b : Nat}
    {pos : Position} (hb : w'.NamedAt b pos) : w.NamedAt b pos ∨ pos ∈ ids.map (·.pos) := by
  obtain ⟨x, hx, rfl⟩ | ⟨r, hr, hbinding, rfl⟩ := hb
  · obtain ⟨y, hy, hkeeps⟩ | ⟨-, hdecl⟩ := h.bindings b x hx
    · exact .inl (.inl ⟨y, hy, by rw [hkeeps.decl]⟩)
    · exact .inr (List.mem_map_of_mem hdecl)
  · obtain ⟨more, hmore, hids⟩ := h.references
    rw [hmore, Array.mem_append] at hr
    obtain hr | hr := hr
    · exact .inl (.inr ⟨r, hr, hbinding, rfl⟩)
    · exact .inr (List.mem_map_of_mem (hids r hr))

end Walk

/-! ## Programs -/

namespace Program

/-- The identifiers that the steps of a program name, in their order. -/
def eventIdents (program : Program) : List Ident := program.events.flatMap Event.idents

theorem eventIdents_subperm (program : Program) :
    program.eventIdents.Subperm program.idents := by
  rw [List.subperm_ext_iff]
  intro a _
  exact Nat.le_trans (Nat.le_add_right _ _) (Stmt.count_listEvents a program.stmts)

/-- No two of the identifiers that steps name stand at the same place. -/
theorem nodup_eventPositions (text : String) :
    ((Program.parse text).program.eventIdents.map (·.pos)).Nodup := by
  obtain ⟨ids, hperm, hsub⟩ := (Program.parse text).program.eventIdents_subperm
  have hids := (nodup_positions text).sublist (hsub.map (·.pos))
  exact (hperm.map (·.pos)).nodup_iff.1 hids

end Program

theorem Walk.valid_ofProgram (pairs : Bracket.Pairs) (program : Program) :
    (Walk.ofProgram pairs program).Valid :=
  (Walk.valid_start pairs.stop).run pairs program.events

theorem Walk.grows_ofProgram (pairs : Bracket.Pairs) (program : Program) :
    Walk.Grows program.eventIdents (Walk.start pairs.stop) (Walk.ofProgram pairs program) :=
  Walk.grows_run (Walk.valid_start pairs.stop) pairs program.events

end Welle
