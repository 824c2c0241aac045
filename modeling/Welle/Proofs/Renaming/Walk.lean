import Welle.Feature.Target
import Welle.Proofs.Renaming.Tree
import Welle.Proofs.Walk

set_option autoImplicit false

/-! # Walking a renamed program

A variable or a parameter gets a name that the program does not have, at the places where the walk
records it. The walk of the new program then runs beside the walk of the old one: its tables differ
in the one entry, and every name is still found where it was found (`Walk.Renamed`). -/

namespace Welle

/-! ## Tables -/

/-- A scope in which the binding `b` is called `n`. -/
def Scope.rename (b : Nat) (n : String) (s : Scope) : Scope :=
  { s with names := s.names.map fun e => if e.2 = b then (n, b) else e }

/-- A binding that is called `n`. -/
def Binding.rename (n : String) (x : Binding) : Binding :=
  { x with name := n, decl := ⟨n, x.decl.pos⟩ }

/-- A binding without the texts that it copies from names. -/
def Binding.bare (x : Binding) : Binding := { x with params := [], member := none }

/-- A use with another identifier. -/
def Reference.mapIdent (f : Ident → Ident) (r : Reference) : Reference := ⟨f r.ident, r.resolution⟩

section Tables

variable {b : Nat} {n : String}

theorem lookup_cons_of_ne {e : String × Nat} {names : List (String × Nat)} {y : String}
    (h : y ≠ e.1) : (e :: names).lookup y = names.lookup y := by
  rw [List.lookup_cons, beq_false_of_ne h]

theorem lookup_rename_other {names : List (String × Nat)} {y : String} (hy : y ≠ n)
    (h : names.lookup y ≠ some b) :
    (names.map fun e => if e.2 = b then (n, b) else e).lookup y = names.lookup y := by
  induction names with
  | nil => rfl
  | cons e names ih =>
    by_cases hkey : y = e.1
    · obtain ⟨x, i⟩ := e
      obtain rfl : y = x := hkey
      have hi : i ≠ b := by simpa using h
      simp [hi]
    · rw [lookup_cons_of_ne hkey] at h ⊢
      have hkey' : y ≠ (if e.2 = b then (n, b) else e).1 := by
        split
        · exact hy
        · exact hkey
      rw [List.map_cons, lookup_cons_of_ne hkey', ih h]

theorem lookup_rename_new {names : List (String × Nat)} (hn : ∀ e ∈ names, e.1 ≠ n) :
    (names.map fun e => if e.2 = b then (n, b) else e).lookup n =
      if names.any (·.2 = b) then some b else none := by
  induction names with
  | nil => rfl
  | cons e names ih =>
    have hrest := ih fun e he => hn e (List.mem_cons_of_mem _ he)
    by_cases hb : e.2 = b
    · simp [hb]
    · have hkey : n ≠ e.1 := Ne.symm (hn e List.mem_cons_self)
      rw [List.map_cons, if_neg hb, lookup_cons_of_ne hkey, hrest]
      simp only [List.any_cons, hb, decide_false, Bool.false_or]

namespace Scopes

/-- No table has the name `n`. -/
def Avoids (scopes : Scopes) (n : String) : Prop :=
  ∀ (k : Nat) (s : Scope), scopes[k]? = some s → ∀ e ∈ s.names, e.1 ≠ n

theorem own?_rename_other {scopes : Scopes} {k : Nat} {y : String} (hy : y ≠ n)
    (h : scopes.own? k y ≠ some b) :
    own? (scopes.map (Scope.rename b n)) k y = scopes.own? k y := by
  unfold own? at h ⊢
  rw [Array.getElem?_map]
  cases hs : scopes[k]? with
  | none => rfl
  | some s =>
    rw [hs] at h
    exact Welle.lookup_rename_other hy h

theorem own?_rename_new {scopes : Scopes} (hn : scopes.Avoids n) (k : Nat) :
    own? (scopes.map (Scope.rename b n)) k n =
      scopes[k]?.bind fun s => if s.names.any (·.2 = b) then some b else none := by
  unfold own?
  rw [Array.getElem?_map]
  cases hs : scopes[k]? with
  | none => rfl
  | some s => exact Welle.lookup_rename_new (hn k s hs)

theorem chain_map {g : Scope → Scope} (hg : ∀ s, (g s).parent = s.parent) (scopes : Scopes)
    (k : Nat) : chain (scopes.map g) k = scopes.chain k := by
  induction k using Nat.strongRecOn with
  | ind k ih =>
    rw [chain, chain]
    have hparent : (scopes.map g)[k]?.bind (·.parent) = scopes[k]?.bind (·.parent) := by
      rw [Array.getElem?_map]
      cases scopes[k]? with
      | none => rfl
      | some s => exact hg s
    rw [hparent]
    cases scopes[k]?.bind (·.parent) with
    | none => rfl
    | some p =>
      by_cases hp : p < k
      · simp only [hp, if_true, ih p hp]
      · simp only [hp, if_false]

theorem findSome?_rename_other {own own' : Nat → Option Nat} {ks : List Nat}
    (hown : ∀ k, own k ≠ some b → own' k = own k) (h : ks.findSome? own ≠ some b) :
    ks.findSome? own' = ks.findSome? own := by
  induction ks with
  | nil => rfl
  | cons k ks ih =>
    rw [List.findSome?_cons] at h ⊢
    rw [List.findSome?_cons]
    cases hk : own k with
    | none => simp_all
    | some i => simp_all

/-- A name that does not stand for `b` is still found where it was found. -/
theorem lookup_rename_other {scopes : Scopes} {k : Nat} {y : String} (hy : y ≠ n)
    (h : scopes.lookup k y ≠ some b) :
    lookup (scopes.map (Scope.rename b n)) k y = scopes.lookup k y := by
  unfold lookup at h ⊢
  rw [chain_map (g := Scope.rename b n) (fun _ => rfl)]
  exact findSome?_rename_other (fun k hk => own?_rename_other hy hk) h

/-- Where `b` was found, it is found under its new name. -/
theorem lookup_rename_new {scopes : Scopes} {k : Nat} {y : String}
    (hn : scopes.Avoids n) (h : scopes.lookup k y = some b) :
    lookup (scopes.map (Scope.rename b n)) k n = some b := by
  unfold lookup at h ⊢
  rw [chain_map (g := Scope.rename b n) (fun _ => rfl)]
  generalize scopes.chain k = ks at h ⊢
  induction ks with
  | nil => simp at h
  | cons k ks ih =>
    rw [List.findSome?_cons] at h ⊢
    rw [own?_rename_new hn k]
    have hown : scopes.own? k y = scopes[k]?.bind (·.names.lookup y) := rfl
    rw [hown] at h
    cases hs : scopes[k]? with
    | none => exact ih (by simpa [hs] using h)
    | some s =>
      simp only [hs, Option.bind_some] at h ⊢
      split at h
      next i hi =>
        obtain rfl := Option.some.inj h
        have hmem : s.names.any (·.2 = i) = true :=
          List.any_eq_true.2 ⟨_, Walk.mem_of_lookup hi, by simp⟩
        simp [hmem]
      next =>
        by_cases hb : s.names.any (·.2 = b) = true
        · simp [hb]
        · simp only [hb]
          exact ih h

end Scopes

end Tables

/-! ## Two walks side by side -/

namespace Walk

/-- The walk `w'` is the walk `w` with `n` for the name of the binding `b`. -/
structure Renamed (f : Ident → Ident) (b : Nat) (n : String) (w w' : Walk) : Prop where
  scopes : w'.scopes = w.scopes.map (Scope.rename b n)
  bindings : w'.bindings.map Binding.bare =
    w.bindings.mapIdx fun i x => (if i = b then x.rename n else x).bare
  references : w'.references = w.references.map (Reference.mapIdent f)
  current : w'.current = w.current

section Renaming

variable {f : Ident → Ident} {b : Nat} {n : String} {w w' : Walk}

theorem Renamed.size (h : Renamed f b n w w') : w'.bindings.size = w.bindings.size := by
  simpa using congrArg Array.size h.bindings

theorem Renamed.binding (h : Renamed f b n w w') (i : Nat) : w'.bindings[i]?.map Binding.bare =
    w.bindings[i]?.map fun x => (if i = b then x.rename n else x).bare := by
  simpa using congrArg (·[i]?) h.bindings

theorem Renamed.own?_other (h : Renamed f b n w w') {y : String} (hy : y ≠ n)
    (hb : w.own? y ≠ some b) : w'.own? y = w.own? y := by
  unfold own?
  rw [h.scopes, h.current]
  exact Scopes.own?_rename_other hy hb

theorem Renamed.own?_new (h : Renamed f b n w w') (hn : w.scopes.Avoids n) {y : String}
    (hb : w.own? y = some b) : w'.own? n = some b := by
  unfold own?
  rw [h.scopes, h.current, Scopes.own?_rename_new hn]
  obtain ⟨s, hs, hlookup⟩ := Option.bind_eq_some_iff.1 hb
  have hmem : s.names.any (·.2 = b) = true :=
    List.any_eq_true.2 ⟨_, mem_of_lookup hlookup, by simp⟩
  rw [hs, Option.bind_some, if_pos hmem]

/-- Before `b` is declared no scope has its new name. -/
theorem Renamed.absent (h : Renamed f b n w w') (hw : w.Valid) (hn : w.scopes.Avoids n)
    (hb : w.bindings.size = b) (k : Nat) : w'.scopes.own? k n = none := by
  rw [h.scopes, Scopes.own?_rename_new hn]
  cases hs : w.scopes[k]? with
  | none => rfl
  | some s =>
    have hnone : s.names.any (·.2 = b) = false := by
      rw [List.any_eq_false]
      intro e he
      obtain ⟨x, hx, -⟩ := hw.entry _ s hs e he
      have hlt := (Array.getElem?_eq_some_iff.1 hx).1
      simp
      omega
    rw [Option.bind_some, hnone]
    rfl

theorem Renamed.lookup_other (h : Renamed f b n w w') {y : String} (hy : y ≠ n)
    (hb : w.lookup y ≠ some b) : w'.lookup y = w.lookup y := by
  unfold lookup
  rw [h.scopes, h.current]
  exact Scopes.lookup_rename_other hy hb

theorem Renamed.lookup_new (h : Renamed f b n w w') (hn : w.scopes.Avoids n) {y : String}
    (hb : w.lookup y = some b) : w'.lookup n = some b := by
  unfold lookup
  rw [h.scopes, h.current]
  exact Scopes.lookup_rename_new hn hb

/-! ### Parts of a step -/

theorem Renamed.enter (h : Renamed f b n w w') (span : Span) :
    Renamed f b n (w.enter span) (w'.enter span) where
  scopes := by
    have hsize : w'.scopes.size = w.scopes.size := by rw [h.scopes, Array.size_map]
    simp only [Walk.enter, h.current, hsize, Array.map_push]
    congr 1
    rw [h.scopes]
    apply Array.ext_getElem?
    intro k
    simp only [Array.getElem?_modify, Array.getElem?_map]
    split
    · cases w.scopes[k]? <;> rfl
    · rfl
  bindings := h.bindings
  references := h.references
  current := by simp [Walk.enter, h.scopes]

theorem Renamed.leave (h : Renamed f b n w w') : Renamed f b n w.leave w'.leave where
  scopes := h.scopes
  bindings := h.bindings
  references := h.references
  current := by
    simp only [Walk.leave, h.scopes, h.current, Array.getElem?_map]
    cases w.scopes[w.current]? <;> rfl

theorem Renamed.refer (h : Renamed f b n w w') (id : Ident) (resolution : Resolution) :
    Renamed f b n (w.refer id resolution) (w'.refer (f id) resolution) where
  scopes := h.scopes
  bindings := h.bindings
  references := by simp [Walk.refer, h.references, Reference.mapIdent]
  current := h.current

/-- Changes of a binding that do the same on both sides. -/
structure Parallel (n : String) (g g' : Binding → Binding) : Prop where
  bare : ∀ x x' : Binding, x'.bare = x.bare → (g' x').bare = (g x).bare
  rename : ∀ x : Binding, g (x.rename n) = (g x).rename n

theorem Parallel.same : Parallel n same same := ⟨fun _ _ hx => hx, fun _ => rfl⟩

theorem Parallel.params (params params' : List String) :
    Parallel n (fun x => { x with params := params }) (fun x => { x with params := params' }) where
  bare := by
    intro x x' hx
    simpa [Binding.bare] using hx
  rename := fun _ => rfl

theorem Parallel.func (params params' : List String) :
    Parallel n (fun x => { x with kind := .func, params := params })
      (fun x => { x with kind := .func, params := params' }) where
  bare := by
    intro x x' hx
    simp only [Binding.bare, Binding.mk.injEq] at hx ⊢
    simp [hx]
  rename := fun _ => rfl

theorem Parallel.modulePath (path : String) :
    Parallel n (fun x => { x with modulePath := some path })
      (fun x => { x with modulePath := some path }) where
  bare := by
    intro x x' hx
    simp only [Binding.bare, Binding.mk.injEq] at hx ⊢
    simp [hx]
  rename := fun _ => rfl

theorem Parallel.member (path text text' : String) :
    Parallel n (fun x => { x with modulePath := some path, member := some text })
      (fun x => { x with modulePath := some path, member := some text' }) where
  bare := by
    intro x x' hx
    simp only [Binding.bare, Binding.mk.injEq] at hx ⊢
    simp [hx]
  rename := fun _ => rfl

theorem Renamed.update (h : Renamed f b n w w') (i : Nat) {g g' : Binding → Binding}
    (hg : Parallel n g g') : Renamed f b n (w.update i g) (w'.update i g') where
  scopes := h.scopes
  bindings := by
    apply Array.ext_getElem?
    intro j
    have hj := h.binding j
    simp only [Walk.update, Array.getElem?_map, Array.getElem?_mapIdx, Array.getElem?_modify]
    split
    next =>
      cases hx : w.bindings[j]? with
      | none => simpa [hx] using hj
      | some x =>
        rw [hx, Option.map_some] at hj
        obtain ⟨x', hx', hbare⟩ := Option.map_eq_some_iff.1 hj
        have hsame := hg.bare _ _ hbare
        rw [hx']
        simp only [Option.map_some, hsame]
        split
        · rw [hg.rename]
        · rfl
    next => exact hj
  references := h.references
  current := h.current

/-- Whether `f` gives an identifier the name `n` if it stands for `b`, and leaves it otherwise. -/
structure Fits (f : Ident → Ident) (n : String) (standsForB : Prop) (id : Ident) : Prop where
  new : standsForB → f id = ⟨n, id.pos⟩
  other : ¬standsForB → f id = id

theorem Fits.congr {P Q : Prop} {id : Ident} (h : Fits f n P id) (hPQ : P ↔ Q) : Fits f n Q id :=
  ⟨fun hQ => h.new (hPQ.2 hQ), fun hQ => h.other fun hP => hQ (hPQ.1 hP)⟩

/-- A declaration finds the same binding on both sides, or makes one. -/
theorem Renamed.declare (h : Renamed f b n w w') (hw : w.Valid) (hn : w.scopes.Avoids n)
    {id : Ident} (hid : id.name ≠ n) (kind : BindingKind)
    (hf : Fits f n ((w.declare id kind).2 = b) id) :
    Renamed f b n (w.declare id kind).1 (w'.declare (f id) kind).1
      ∧ (w'.declare (f id) kind).2 = (w.declare id kind).2 := by
  cases hown : w.own? id.name with
  | some i =>
    rw [declare_of_some kind hown] at hf ⊢
    -- the binding itself is found by its new name, any other by the old one
    have hown' : w'.own? (f id).name = some i := by
      by_cases hi : i = b
      · rw [hf.new hi, hi]
        exact h.own?_new hn (hi ▸ hown)
      · rw [hf.other hi, h.own?_other hid (by simpa [hown] using hi), hown]
    rw [declare_of_some kind hown']
    exact ⟨h, rfl⟩
  | none =>
    rw [declare_of_none kind hown] at hf ⊢
    -- a name that has no binding yet has none on the other side either
    have hown' : w'.own? (f id).name = none := by
      by_cases hb : w.bindings.size = b
      · rw [hf.new hb]
        exact h.absent hw hn hb _
      · rw [hf.other hb, h.own?_other hid (by simp [hown]), hown]
    rw [declare_of_none kind hown', h.size]
    refine ⟨⟨?_, ?_, h.references, h.current⟩, rfl⟩
    · rw [h.scopes, h.current]
      apply Array.ext_getElem?
      intro k
      simp only [Array.getElem?_modify, Array.getElem?_map]
      split
      · cases w.scopes[k]? with
        | none => rfl
        | some s =>
          by_cases hb : w.bindings.size = b
          · simp [Scope.rename, hb, hf.new hb]
          · simp [Scope.rename, hb, hf.other hb]
      · rfl
    · rw [Array.map_push, h.bindings, Array.mapIdx_push, h.current]
      congr 1
      by_cases hb : w.bindings.size = b
      · simp [Binding.bare, Binding.rename, hb, hf.new hb]
      · simp [Binding.bare, hb, hf.other hb]

theorem Renamed.declareAndRefer (h : Renamed f b n w w') (hw : w.Valid)
    (hn : w.scopes.Avoids n) {id : Ident} (hid : id.name ≠ n) (kind : BindingKind)
    {g g' : Binding → Binding} (hg : Parallel n g g')
    (hf : Fits f n ((w.declare id kind).2 = b) id) :
    Renamed f b n (w.declareAndRefer id kind g) (w'.declareAndRefer (f id) kind g') := by
  obtain ⟨hdeclare, hsame⟩ := h.declare hw hn hid kind hf
  rw [declareAndRefer_eq, declareAndRefer_eq, hsame]
  exact (hdeclare.update _ hg).refer id _

theorem Renamed.lookup (h : Renamed f b n w w') (hn : w.scopes.Avoids n) {id : Ident}
    (hid : id.name ≠ n) (hf : Fits f n (w.lookup id.name = some b) id) :
    w'.lookup (f id).name = w.lookup id.name := by
  by_cases hb : w.lookup id.name = some b
  · rw [hf.new hb, hb]
    exact h.lookup_new hn hb
  · rw [hf.other hb]
    exact h.lookup_other hid hb

theorem Renamed.use (h : Renamed f b n w w') (hn : w.scopes.Avoids n) {id : Ident}
    (hid : id.name ≠ n) (hf : Fits f n (w.lookup id.name = some b) id) :
    Renamed f b n (w.use id) (w'.use (f id)) := by
  unfold Walk.use
  rw [h.lookup hn hid hf]
  cases hx : w.lookup id.name with
  | some i => exact h.refer id _
  | none =>
    have hsame : f id = id := hf.other (by simp [hx])
    have hrefer := h.refer id (if Builtin.isFunction id.name then .builtin else .unresolved)
    rw [hsame] at hrefer ⊢
    exact hrefer

theorem Fits.of_declareAndRefer {id : Ident} {kind : BindingKind} {g : Binding → Binding}
    (hg : ∀ x : Binding, x.Keeps (g x)) (hnew : ¬w.NamedAt b id.pos)
    (hf : Fits f n ((w.declareAndRefer id kind g).NamedAt b id.pos) id) :
    Fits f n ((w.declare id kind).2 = b) id :=
  hf.congr (by simp [namedAt_declareAndRefer w id kind hg, hnew])

theorem Fits.of_refer {id : Ident} {i : Nat} (hnew : ¬w.NamedAt b id.pos)
    (hf : Fits f n ((w.refer id (.binding i)).NamedAt b id.pos) id) : Fits f n (i = b) id :=
  hf.congr (by simp [namedAt_refer, hnew])

theorem Fits.of_use {id : Ident} (hnew : ¬w.NamedAt b id.pos)
    (hf : Fits f n ((w.use id).NamedAt b id.pos) id) :
    Fits f n (w.lookup id.name = some b) id := by
  refine hf.congr ?_
  unfold Walk.use
  cases h : w.lookup id.name with
  | some i => simp [namedAt_refer, hnew]
  | none =>
    have hres : (if Builtin.isFunction id.name then Resolution.builtin else .unresolved)
        ≠ .binding b := by
      split <;> simp
    simp [namedAt_refer, hnew, hres]

theorem Renamed.assign (h : Renamed f b n w w') (hw : w.Valid) (hn : w.scopes.Avoids n)
    {id : Ident} (hid : id.name ≠ n) (hnew : ¬w.NamedAt b id.pos) (op : AssignOp)
    {params params' : Option (List String)} (hparams : params'.isSome = params.isSome)
    (hf : Fits f n ((w.assign id op params).NamedAt b id.pos) id) :
    Renamed f b n (w.assign id op params) (w'.assign (f id) op params') := by
  unfold Walk.assign at hf ⊢
  dsimp only at hf ⊢
  cases hfound : (if op = .walrus then w.own? id.name else w.lookup id.name) with
  | some i =>
    have hfits : Fits f n (i = b) id := by
      refine Fits.of_refer hnew ?_
      rw [hfound] at hf
      dsimp only at hf
      split at hf <;> exact hf
    have hfound' :
        (if op = .walrus then w'.own? (f id).name else w'.lookup (f id).name) = some i := by
      by_cases hi : i = b
      · subst hi
        rw [hfits.new rfl]
        split at hfound
        next hop => rw [if_pos hop, h.own?_new hn hfound]
        next hop => rw [if_neg hop, h.lookup_new hn hfound]
      · rw [hfits.other hi]
        split at hfound
        next hop => rw [if_pos hop, h.own?_other hid (by simpa [hfound] using hi), hfound]
        next hop => rw [if_neg hop, h.lookup_other hid (by simpa [hfound] using hi), hfound]
    rw [hfound']
    have hrefer := h.refer id (.binding i)
    dsimp only
    split
    · exact ⟨hrefer.scopes, hrefer.bindings, hrefer.references, hrefer.current⟩
    · exact hrefer
  | none =>
    rw [hfound] at hf
    have hfound' (hfits : Fits f n (w.bindings.size = b) id) :
        (if op = .walrus then w'.own? (f id).name else w'.lookup (f id).name) = none := by
      by_cases hb : w.bindings.size = b
      · rw [hfits.new hb]
        split
        · exact h.absent hw hn hb _
        · exact List.findSome?_eq_none_iff.2 fun k _ => h.absent hw hn hb k
      · rw [hfits.other hb]
        split at hfound
        next hop => rw [if_pos hop, h.own?_other hid (by simp [hfound]), hfound]
        next hop => rw [if_neg hop, h.lookup_other hid (by simp [hfound]), hfound]
    have hown : w.own? id.name = none := by
      split at hfound
      · exact hfound
      · exact own?_of_lookup_eq_none hfound
    -- Both sides declare, with the kind that the value asks for.
    have hdeclare (kind : BindingKind) {g g' : Binding → Binding} (hg : Parallel n g g')
        (hkeeps : ∀ x : Binding, x.Keeps (g x))
        (hf : Fits f n ((w.declareAndRefer id kind g).NamedAt b id.pos) id) :
        (if op = .walrus then w'.own? (f id).name else w'.lookup (f id).name) = none
          ∧ Renamed f b n (w.declareAndRefer id kind g) (w'.declareAndRefer (f id) kind g') := by
      have hfits := Fits.of_declareAndRefer hkeeps hnew hf
      refine ⟨hfound' ?_, h.declareAndRefer hw hn hid kind hg hfits⟩
      rwa [declare_of_none kind hown] at hfits
    match params, params', hparams with
    | some params, some params', _ =>
      obtain ⟨hnone, hrun⟩ := hdeclare .func (.params params params')
        (Binding.keeps_params params) hf
      rw [hnone]
      exact hrun
    | none, none, _ =>
      obtain ⟨hnone, hrun⟩ := hdeclare .var .same Binding.Keeps.refl hf
      rw [hnone]
      exact hrun

/-- A member of a module is found through a binding other than `b`. -/
theorem Renamed.useMember (h : Renamed f b n w w') (hn : w.scopes.Avoids n) {base name : Ident}
    (hid : base.name ≠ n) (hnew : ¬w.NamedAt b base.pos) (hnew' : ¬w.NamedAt b name.pos)
    (hkind : ∀ x, w.bindings[b]? = some x → x.kind ≠ .moduleAlias)
    (hf : Fits f n ((w.useMember base name).NamedAt b base.pos) base)
    (hf' : Fits f n ((w.useMember base name).NamedAt b name.pos) name) :
    Renamed f b n (w.useMember base name) (w'.useMember (f base) (f name)) := by
  obtain ⟨i, x, hbase, hx, hkind'⟩ | hother := w.alias_or_other base
  · rw [useMember_of_alias name hbase hx hkind'] at hf hf' ⊢
    have hi : i ≠ b := by
      rintro rfl
      exact hkind x hx hkind'
    -- an alias of a module is not `b`, so base and member keep their names
    have hsame : f base = base :=
      hf.other (by simp [namedAt_refer, hnew, hi])
    have hsame' : f name = name :=
      hf'.other (by simp [namedAt_refer, hnew', hi])
    have hbinding := h.binding i
    rw [hx, Option.map_some, if_neg hi] at hbinding
    obtain ⟨x', hx', hbare⟩ := Option.map_eq_some_iff.1 hbinding
    have hbase' : w'.lookup base.name = some i :=
      hbase ▸ h.lookup_other hid (by simpa [hbase] using hi)
    have hkind'' : x'.kind = .moduleAlias := (congrArg Binding.kind hbare).trans hkind'
    have hpath : x'.modulePath = x.modulePath := by
      have := congrArg Binding.modulePath hbare
      exact this
    have hrefer := (h.refer base (.binding i)).refer name
      (.moduleMember base.name (x.modulePath.getD "") name.name)
    rw [hsame, hsame'] at hrefer ⊢
    rw [useMember_of_alias name hbase' hx' hkind'', hpath]
    exact hrefer
  · rw [useMember_of_other name hother] at hf ⊢
    have hfits := Fits.of_use hnew hf
    rw [useMember_of_other]
    · exact h.use hn hid hfits
    · intro i x' hi hx'
      rw [h.lookup hn hid hfits] at hi
      have hbinding := h.binding i
      rw [hx', Option.map_some] at hbinding
      obtain ⟨x, hx, hbare⟩ := Option.map_eq_some_iff.1 hbinding.symm
      have hkind' : x'.kind = x.kind := by
        have := (congrArg Binding.kind hbare).symm
        split at this
        · exact this
        · exact this
      rw [hkind']
      exact hother i x hi hx

/-! ### Steps -/

theorem Renamed.func (h : Renamed f b n w w') (hw : w.Valid) (hn : w.scopes.Avoids n) {id : Ident}
    (hid : id.name ≠ n) (hnew : ¬w.NamedAt b id.pos) (pairs : Bracket.Pairs)
    (params params' : List String)
    (hkind : ∀ x, (w.step pairs (.func id params)).bindings[b]? = some x → x.kind ≠ .func)
    (hf : Fits f n ((w.step pairs (.func id params)).NamedAt b id.pos) id) :
    Renamed f b n (w.step pairs (.func id params)) (w'.step pairs (.func (f id) params')) := by
  rw [step_func] at hkind hf ⊢
  have hne : (w.declare id .func).2 ≠ b := by
    intro hb
    obtain ⟨x, hx, -⟩ := named_declare hw id .func
    refine hkind { x with kind := .func, params } ?_ rfl
    rw [hb] at hx
    simp [Walk.update, Array.getElem?_modify, hb, hx]
  have hfits : Fits f n ((w.declare id .func).2 = b) id := by
    refine hf.congr ((namedAt_update _ _ (Binding.keeps_func params) b id.pos).trans ?_)
    simp [namedAt_declare, hnew, hne]
  obtain ⟨hdeclare, hsame⟩ := h.declare hw hn hid .func hfits
  rw [step_func, hsame]
  exact hdeclare.update _ (.func params params')

/-- Steps that differ only by the renaming keep the walks side by side. -/
theorem Renamed.step (h : Renamed f b n w w') (hw : w.Valid) (hn : w.scopes.Avoids n)
    (hdiscard : n ≠ "_") (pairs : Bracket.Pairs) {e e' : Event} (he : e'.bare = e.renamed f)
    (hnames : ∀ id ∈ e.idents, id.name ≠ n) (hnew : ∀ id ∈ e.idents, ¬w.NamedAt b id.pos)
    (hkind : ∀ x, (w.step pairs e).bindings[b]? = some x → x.kind = .var ∨ x.kind = .param)
    (hf : ∀ id ∈ e.idents, Fits f n ((w.step pairs e).NamedAt b id.pos) id) :
    Renamed f b n (w.step pairs e) (w'.step pairs e') := by
  have hgrows := grows_step hw pairs e
  simp only [Event.renamed] at he
  -- the other step is of the same kind, with the new identifiers
  cases e <;> simp only [Event.mapIdents, Event.bare] at he <;>
    simp only [Event.idents, List.mem_cons, List.not_mem_nil, or_false, forall_eq,
      forall_eq_or_imp] at hnames hnew hf
  case enter start opening =>
    obtain rfl : e' = .enter start opening := by cases e' <;> simp_all
    exact h.enter _
  case leave =>
    obtain rfl : e' = .leave := by cases e' <;> simp_all
    exact h.leave
  case use id =>
    obtain rfl : e' = .use (f id) := by cases e' <;> simp_all
    exact h.use hn hnames (.of_use hnew hf)
  case assign id op params =>
    obtain ⟨params', rfl, hparams⟩ :
        ∃ params', e' = .assign (f id) op params' ∧ params'.isSome = params.isSome := by
      cases e' <;> simp only [reduceCtorEq, Event.assign.injEq] at he
      case assign id' op' params' =>
        obtain ⟨rfl, rfl, hparams⟩ := he
        exact ⟨params', rfl, by simpa using congrArg Option.isSome hparams⟩
    exact h.assign hw hn hnames hnew op hparams hf
  case param id =>
    obtain rfl : e' = .param (f id) := by cases e' <;> simp_all
    exact h.declareAndRefer hw hn hnames .param .same
      (.of_declareAndRefer Binding.Keeps.refl hnew hf)
  case bind id =>
    obtain rfl : e' = .bind (f id) := by cases e' <;> simp_all
    rw [Walk.step] at hf ⊢
    by_cases hid : id.isDiscard = true
    · have hsame : f id = id := hf.other (by rwa [if_pos hid])
      rw [hsame, Walk.step, if_pos hid, if_pos hid]
      exact h
    · rw [if_neg hid] at hf ⊢
      have hfits := Fits.of_declareAndRefer Binding.Keeps.refl hnew hf
      have hid' : ¬(f id).isDiscard = true := by
        by_cases hb : (w.declare id .var).2 = b
        · simpa [hfits.new hb, Ident.isDiscard] using hdiscard
        · rwa [hfits.other hb]
      rw [Walk.step, if_neg hid']
      exact h.declareAndRefer hw hn hnames .var .same hfits
  case func id params =>
    obtain ⟨params', rfl⟩ : ∃ params', e' = .func (f id) params' := by
      cases e' <;> simp_all
    refine h.func hw hn hnames hnew pairs params params' (fun x hx => ?_) hf
    obtain hk | hk := hkind x hx <;> simp [hk]
  case importModule id path =>
    obtain rfl : e' = .importModule (f id) path := by cases e' <;> simp_all
    exact h.declareAndRefer hw hn hnames .moduleAlias (.modulePath path)
      (.of_declareAndRefer (Binding.keeps_modulePath path) hnew hf)
  case importMember id path text =>
    obtain ⟨text', rfl⟩ : ∃ text', e' = .importMember (f id) path text' := by
      cases e' <;> simp_all
    exact h.declareAndRefer hw hn hnames .imported (.member path text text')
      (.of_declareAndRefer (Binding.keeps_member path text) hnew hf)
  case member base name =>
    obtain rfl : e' = .member (f base) (f name) := by cases e' <;> simp_all
    refine h.useMember hn hnames.1 hnew.1 hnew.2 (fun x hx => ?_) hf.1 hf.2
    obtain ⟨x', hx', hkeeps⟩ := hgrows.keeps hx
    have hvar := hkind x' hx'
    have hsame := hkeeps.kind
    grind

/-! ### Runs -/

theorem Valid.avoids (hw : w.Valid)
    (hn : ∀ (i : Nat) (x : Binding), w.bindings[i]? = some x → x.name ≠ n) :
    w.scopes.Avoids n := by
  intro k s hs e he
  obtain ⟨x, hx, hname, -⟩ := hw.entry k s hs e he
  exact hname ▸ hn _ x hx

theorem names_step (hw : w.Valid)
    (hn : ∀ (i : Nat) (x : Binding), w.bindings[i]? = some x → x.name ≠ n)
    (pairs : Bracket.Pairs) (e : Event) (hnames : ∀ id ∈ e.idents, id.name ≠ n) (i : Nat)
    (x : Binding) (hx : (w.step pairs e).bindings[i]? = some x) : x.name ≠ n := by
  obtain ⟨y, hy, hkeeps⟩ | ⟨-, hdecl⟩ := (grows_step hw pairs e).bindings i x hx
  · exact hkeeps.name ▸ hn i y hy
  · exact (hw.step pairs e).declared i x hx ▸ hnames _ hdecl

/-- Two runs over steps that differ only by the renaming end side by side. The renaming changes
    exactly the identifiers at which the first run has recorded `b` when it ends. -/
theorem Renamed.run (hdiscard : n ≠ "_") (pairs : Bracket.Pairs) {events events' : List Event}
    (h : Renamed f b n w w') (hw : w.Valid)
    (hn : ∀ (i : Nat) (x : Binding), w.bindings[i]? = some x → x.name ≠ n)
    (hevents : events'.map Event.bare = events.map (Event.renamed f))
    (hnames : ∀ id ∈ events.flatMap Event.idents, id.name ≠ n)
    (hnodup : ((events.flatMap Event.idents).map (·.pos)).Nodup)
    (hnew : ∀ id ∈ events.flatMap Event.idents, ¬w.NamedAt b id.pos)
    (hkind : ∀ x, (w.run pairs events).bindings[b]? = some x → x.kind = .var ∨ x.kind = .param)
    (hf : ∀ id ∈ events.flatMap Event.idents,
      Fits f n ((w.run pairs events).NamedAt b id.pos) id) :
    Renamed f b n (w.run pairs events) (w'.run pairs events') := by
  induction events generalizing events' w w' with
  | nil =>
    obtain rfl := List.map_eq_nil_iff.1 hevents
    exact h
  | cons e events ih =>
    obtain ⟨e', events', rfl, he, hevents⟩ := List.map_eq_cons_iff.1 hevents
    rw [List.flatMap_cons] at hnames hnodup hnew hf
    rw [List.map_append, List.nodup_append] at hnodup
    obtain ⟨-, hrest, hapart⟩ := hnodup
    have hw' := hw.step pairs e
    have hgrows := grows_step hw pairs e
    have hgrows' := grows_run hw' pairs events
    -- What is recorded at an identifier of this step is recorded now or never.
    have hnow (id : Ident) (hid : id ∈ e.idents) :
        (w.run pairs (e :: events)).NamedAt b id.pos ↔ (w.step pairs e).NamedAt b id.pos := by
      refine ⟨fun hb => (hgrows'.namedAt_or hb).resolve_right fun hpos => ?_, hgrows'.namedAt⟩
      exact hapart _ (List.mem_map_of_mem hid) _ hpos rfl
    have hlater (id : Ident) (hid : id ∈ events.flatMap Event.idents) :
        ¬(w.step pairs e).NamedAt b id.pos := by
      intro hb
      obtain hb | hpos := hgrows.namedAt_or hb
      · exact hnew id (List.mem_append_right _ hid) hb
      · exact hapart _ hpos _ (List.mem_map_of_mem hid) rfl
    have hkind' (x : Binding) (hx : (w.step pairs e).bindings[b]? = some x) :
        x.kind = .var ∨ x.kind = .param := by
      obtain ⟨x', hx', hkeeps⟩ := hgrows'.keeps hx
      have hvar := hkind x' hx'
      have hsame := hkeeps.kind
      grind
    have hstep := h.step hw (hw.avoids hn) hdiscard pairs he
      (fun id hid => hnames id (List.mem_append_left _ hid))
      (fun id hid => hnew id (List.mem_append_left _ hid)) hkind'
      (fun id hid => (hf id (List.mem_append_left _ hid)).congr (hnow id hid))
    have hrun := ih hstep hw'
      (names_step hw hn pairs e fun id hid => hnames id (List.mem_append_left _ hid)) hevents
      (fun id hid => hnames id (List.mem_append_right _ hid)) hrest hlater hkind
      (fun id hid => hf id (List.mem_append_right _ hid))
    exact hrun

end Renaming

end Walk

end Welle
