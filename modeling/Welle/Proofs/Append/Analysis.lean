import Welle.Proofs.Append.Parse
import Welle.Proofs.Sight

set_option autoImplicit false

/-! # What earlier code means

The walk over a longer text starts with the steps of the text in front. Where that text is read
without a report, all its brackets are closed inside of it, so that its scopes end where they end in
the text alone. Only the scope of the file reaches further, and no step looks at how far it reaches.
From there on a walk only adds to what it has found. -/

namespace Welle

/-! ## The table of pairs -/

namespace Bracket

open Template (holeTokens runsWithin)

/-- A scan keeps the pairs that it has found. -/
theorem Scan.pairs_suffix (tokens : List Token) (scan : Scan) :
    scan.pairs <:+ (tokens.foldl Scan.step scan).pairs := by
  induction tokens generalizing scan with
  | nil => exact List.suffix_rfl
  | cons t ts ih =>
    have hstep : scan.pairs <:+ (scan.step t).pairs := by
      unfold Scan.step
      split
      · exact List.suffix_rfl
      split
      · split
        · exact List.suffix_rfl
        · exact List.suffix_cons _ _
      · exact List.suffix_rfl
    exact hstep.trans (ih (scan.step t))

theorem pairsOf_subset_append (ts us : List Token) : pairsOf ts ⊆ pairsOf (ts ++ us) := by
  rw [pairsOf, pairsOf, List.foldl_append]
  exact (Scan.pairs_suffix us _).subset

/-- The end of a text pairs nothing. -/
theorem pairsOf_beforeEnd (text : String) :
    pairsOf (Token.beforeEnd (Token.tokenize text)) = pairsOf (Token.tokenize text) := by
  nth_rewrite 2 [Token.tokenize_eq_concat]
  rw [pairsOf, pairsOf, List.foldl_append, List.foldl_cons, List.foldl_nil, step_of_plain rfl]

theorem runsWithin_subset {depth depth' : Nat} (h : depth ≤ depth') (ts : List Token) :
    runsWithin depth ts ⊆ runsWithin depth' ts := by
  induction depth generalizing depth' ts with
  | zero =>
    cases depth' <;> simp [runsWithin]
  | succ depth ih =>
    obtain ⟨depth', rfl⟩ : ∃ d, depth' = d + 1 := ⟨depth' - 1, by omega⟩
    refine List.cons_subset_cons _ ?_
    intro run hrun
    obtain ⟨ts', hts', hrun⟩ := List.mem_flatMap.1 hrun
    exact List.mem_flatMap.2 ⟨ts', hts', ih (by omega) ts' hrun⟩

/-- The runs of some tokens are these tokens and runs of all tokens that have the same templates. -/
theorem mem_runsWithin {depth depth' : Nat} (h : depth ≤ depth') {ts us run : List Token}
    (hrun : run ∈ runsWithin depth ts) (hsub : ∀ t ∈ ts, t.kind = .template → t ∈ us) :
    run = ts ∨ run ∈ runsWithin depth' us := by
  obtain _ | depth := depth
  · exact .inl (List.mem_singleton.1 hrun)
  · obtain ⟨depth', rfl⟩ : ∃ d, depth' = d + 1 := ⟨depth' - 1, by omega⟩
    rcases List.mem_cons.1 hrun with rfl | hrun
    · exact .inl rfl
    -- a run inside of a template, which the other tokens have as well
    obtain ⟨hole, hhole, hrun⟩ := List.mem_flatMap.1 hrun
    obtain ⟨t, ht, hmem⟩ := List.mem_flatMap.1 hhole
    have htemplate : t.kind = .template := by
      by_contra hkind
      rw [holeTokens, if_neg hkind] at hmem
      cases hmem
    refine .inr (List.mem_cons_of_mem _ (List.mem_flatMap.2 ⟨hole, ?_, ?_⟩))
    · exact List.mem_flatMap.2 ⟨t, hsub t ht htemplate, hmem⟩
    · exact runsWithin_subset (by omega) hole hrun

/-- The longer text has all pairs of the one in front. -/
theorem Pairs.closes_append {a : String} (h : ∀ t ∈ Token.tokenize a, t.kind ≠ .illegal)
    (b : String) :
    (Pairs.ofText a).closes ⊆ (Pairs.ofText (a ++ "\n" ++ b)).closes := by
  intro q hq
  obtain ⟨run, hrun, hq⟩ := List.mem_flatMap.1 hq
  have htokens := Token.tokenize_append h b
  have hlength : a.length ≤ (a ++ "\n" ++ b).length := by
    simp only [String.length_append]
    omega
  have hsub : ∀ t ∈ Token.tokenize a, t.kind = .template → t ∈ Token.tokenize (a ++ "\n" ++ b) := by
    intro t ht hkind
    rw [htokens]
    exact List.mem_append_left _ (Token.mem_beforeEnd ht (by simp [hkind]))
  rcases mem_runsWithin hlength hrun hsub with rfl | hrun
  · refine List.mem_flatMap.2 ⟨Token.tokenize (a ++ "\n" ++ b), ?_, ?_⟩
    · rw [Template.runs]
      cases (a ++ "\n" ++ b).length <;> exact List.mem_cons_self
    · rw [htokens]
      rw [← pairsOf_beforeEnd] at hq
      exact pairsOf_subset_append _ _ hq
  · exact List.mem_flatMap.2 ⟨run, hrun, hq⟩

end Bracket

/-! ## Closed scopes -/

/-- Where nothing is reported, every bracket that opens a scope is closed. -/
theorem Program.closed_of_enter {text : String} (h : (Program.parse text).diagnostics = [])
    {start opening : Position} (henter : .enter start opening ∈ (Program.parse text).program.events) :
    ∃ close, (Bracket.Pairs.ofText text).closes.lookup opening = some close := by
  cases hlookup : (Bracket.Pairs.ofText text).closes.lookup opening with
  | some close => exact ⟨close, rfl⟩
  | none =>
    -- a scope that is left open would reach beyond the text, wherever that ends
    let stop : Position := ⟨start.line + (endPosition text).line + 1, 1⟩
    have hspan : Bracket.Pairs.span ⟨(Bracket.Pairs.ofText text).closes, stop⟩ start opening
        = ⟨start, stop⟩ := by
      rw [Bracket.Pairs.span, Bracket.Pairs.closeOf, hlookup]
      rfl
    have hcontains : (Span.mk start stop).contains stop = true := by
      have hstart : start ≤ stop := .inl (by simp only [stop]; omega)
      simpa [Span.contains, hstart] using Position.le_refl stop
    rw [← hspan] at hcontains
    have hspan : Bracket.Pairs.span ⟨(Bracket.Pairs.ofText text).closes, stop⟩ start opening
        ∈ Event.spans ⟨(Bracket.Pairs.ofText text).closes, stop⟩ (Program.parse text).program.events :=
      List.mem_filterMap.2 ⟨_, henter, rfl⟩
    obtain ⟨-, t, ht, hle⟩ := ((laid_until h stop).spans _ hspan).2 hcontains
    have hmem : t ∈ (Token.tokenize text).flatMap Token.deep :=
      ((Grammar.content_sublist _).flatMap Token.deep).subset ht
    have hlast := (Token.spread_deep .start text.toList).last t hmem
    rw [after_start_eq_endPosition, String.ofList_toList] at hlast
    have hle' := Position.le_trans hle hlast
    rw [Position.le_iff] at hle'
    simp only [stop] at hle'
    omega

/-- The scopes of a text without reports end where they end in the text alone. -/
theorem Program.span_append {a : String} (h : (Program.parse a).diagnostics = []) (b : String)
    {start opening : Position} (henter : .enter start opening ∈ (Program.parse a).program.events) :
    (Bracket.Pairs.ofText (a ++ "\n" ++ b)).span start opening
      = (Bracket.Pairs.ofText a).span start opening := by
  -- the bracket has a pair in the table of `a`, and no other one in the longer table
  obtain ⟨close, hclose⟩ := closed_of_enter h henter
  have hmem : (opening, close) ∈ (Bracket.Pairs.ofText a).closes := Walk.mem_of_lookup hclose
  have hclose' := Bracket.lookup_of_mem (Bracket.Pairs.nodup_closes _)
    (Bracket.Pairs.closes_append (legal_tokens h) b hmem)
  rw [Bracket.Pairs.span, Bracket.Pairs.span, Bracket.Pairs.closeOf, Bracket.Pairs.closeOf, hclose,
    hclose']
  rfl

/-! ## The end of the file -/

/-- The scope when it reaches to `stop`. -/
def Scope.until (stop : Position) (s : Scope) : Scope := { s with span := ⟨.start, stop⟩ }

namespace Scopes

/-- The scopes when the file ends elsewhere. -/
def ending (scopes : Scopes) (stop : Position) : Scopes := scopes.modify rootScope (Scope.until stop)

variable (scopes : Scopes) (stop : Position)

theorem getElem?_ending (k : Nat) : (scopes.ending stop)[k]?
    = if rootScope = k then scopes[k]?.map (Scope.until stop) else scopes[k]? := by
  rw [ending, Array.getElem?_modify]

theorem size_ending : (scopes.ending stop).size = scopes.size := Array.size_modify

theorem own?_ending (k : Nat) (name : String) :
    (scopes.ending stop).own? k name = scopes.own? k name := by
  rw [own?, own?, getElem?_ending]
  split
  · cases scopes[k]? <;> rfl
  · rfl

theorem parent_ending (k : Nat) :
    (scopes.ending stop)[k]?.bind (·.parent) = scopes[k]?.bind (·.parent) := by
  rw [getElem?_ending]
  split
  · cases scopes[k]? <;> rfl
  · rfl

theorem chain_ending (k : Nat) : (scopes.ending stop).chain k = scopes.chain k := by
  induction k using Nat.strongRecOn with
  | ind k ih =>
    rw [chain, chain, parent_ending]
    cases scopes[k]?.bind (·.parent) with
    | none => rfl
    | some parent =>
      dsimp only
      split
      next hlt => rw [ih parent hlt]
      next => rfl

theorem lookup_ending (k : Nat) (name : String) :
    (scopes.ending stop).lookup k name = scopes.lookup k name := by
  simp only [lookup, chain_ending, own?_ending]

/-- What is put into a scope does not change how far it reaches. -/
theorem modify_ending (k : Nat) {f : Scope → Scope} (hf : ∀ s, f (s.until stop) = (f s).until stop) :
    (scopes.ending stop).modify k f = Scopes.ending (scopes.modify k f) stop := by
  apply Array.ext_getElem?
  intro i
  simp only [ending, Array.getElem?_modify]
  split
  · split
    · simp only [Option.map_map]
      exact congrArg (Option.map · scopes[i]?) (funext hf)
    · rfl
  · rfl

theorem push_ending (h : 0 < scopes.size) (s : Scope) :
    (scopes.ending stop).push s = Scopes.ending (scopes.push s) stop := by
  apply Array.ext_getElem?
  intro i
  simp only [ending, Array.getElem?_modify, Array.getElem?_push, Array.size_modify, rootScope]
  by_cases hi : i = scopes.size
  · rw [if_pos hi, if_neg (by omega), if_pos hi]
  · rw [if_neg hi, if_neg hi]

end Scopes

namespace Walk

/-- The walk when the file ends elsewhere. -/
def ending (w : Walk) (stop : Position) : Walk := { w with scopes := w.scopes.ending stop }

section Ending

variable (w : Walk) (stop : Position)

theorem start_ending (stop' : Position) : (start stop').ending stop = start stop := by
  simp [ending, Scopes.ending, Scope.until, start, rootScope, Array.modify, Array.modifyM]

theorem own?_ending (name : String) : (w.ending stop).own? name = w.own? name :=
  w.scopes.own?_ending stop w.current name

theorem lookup_ending (name : String) : (w.ending stop).lookup name = w.lookup name :=
  w.scopes.lookup_ending stop w.current name

theorem declare_ending (id : Ident) (kind : BindingKind) :
    (w.ending stop).declare id kind = ((w.declare id kind).1.ending stop, (w.declare id kind).2) := by
  cases h : w.own? id.name with
  | some i => rw [declare_of_some kind ((w.own?_ending stop _).trans h), declare_of_some kind h]
  | none =>
    rw [declare_of_none kind ((w.own?_ending stop _).trans h), declare_of_none kind h]
    simp only [ending]
    rw [Scopes.modify_ending]
    intro s
    rfl

theorem declareAndRefer_ending (id : Ident) (kind : BindingKind) (f : Binding → Binding) :
    (w.ending stop).declareAndRefer id kind f = (w.declareAndRefer id kind f).ending stop := by
  rw [declareAndRefer_eq, declareAndRefer_eq, declare_ending]
  rfl

theorem use_ending (id : Ident) : (w.ending stop).use id = (w.use id).ending stop := by
  rw [use, use, lookup_ending]
  split <;> rfl

theorem assign_ending (id : Ident) (op : AssignOp) (params : Option (List String)) :
    (w.ending stop).assign id op params = (w.assign id op params).ending stop := by
  simp only [assign, own?_ending, lookup_ending]
  split
  · split <;> rfl
  · split <;> exact declareAndRefer_ending w stop id _ _

theorem useMember_ending (base name : Ident) :
    (w.ending stop).useMember base name = (w.useMember base name).ending stop := by
  obtain ⟨i, x, hlookup, hx, hkind⟩ | hother := w.alias_or_other base
  · rw [useMember_of_alias name hlookup hx hkind,
      useMember_of_alias name ((w.lookup_ending stop _).trans hlookup) hx hkind]
    rfl
  · rw [useMember_of_other name hother, useMember_of_other name, use_ending]
    rwa [lookup_ending]

theorem enter_ending (hw : w.Valid) (span : Span) :
    (w.ending stop).enter span = (w.enter span).ending stop := by
  have hsize : 0 < w.scopes.size := Nat.zero_lt_of_lt hw.current
  simp only [enter, ending, Scopes.size_ending]
  rw [Scopes.modify_ending, Scopes.push_ending]
  · simpa using hsize
  · intro s
    rfl

theorem leave_ending : (w.ending stop).leave = w.leave.ending stop := by
  simp only [leave, ending, Scopes.parent_ending]

/-- How far the file reaches matters to no step. -/
theorem step_ending (hw : w.Valid) (pairs : Bracket.Pairs) (e : Event) :
    (w.ending stop).step pairs e = (w.step pairs e).ending stop := by
  cases e with
  | enter start opening => exact w.enter_ending stop hw _
  | leave => exact w.leave_ending stop
  | use id => exact w.use_ending stop id
  | assign id op params => exact w.assign_ending stop id op params
  | param id => exact w.declareAndRefer_ending stop id _ _
  | bind id =>
    rw [step, step]
    split
    · rfl
    · exact w.declareAndRefer_ending stop id _ _
  | func id params =>
    rw [step_func, step_func, declare_ending]
    rfl
  | importModule id path => exact w.declareAndRefer_ending stop id _ _
  | importMember id path text => exact w.declareAndRefer_ending stop id _ _
  | member base name => exact w.useMember_ending stop base name

theorem run_ending {w : Walk} (hw : w.Valid) (pairs : Bracket.Pairs) (es : List Event) :
    (w.ending stop).run pairs es = (w.run pairs es).ending stop := by
  induction es generalizing w with
  | nil => rfl
  | cons e es ih =>
    show ((w.ending stop).step pairs e).run pairs es = _
    rw [step_ending w stop hw]
    exact ih (hw.step pairs e)

end Ending

/-! ## Walks that start alike -/

/-- A walk does the same with another table that gives its scopes the same places. -/
theorem run_congr {pairs pairs' : Bracket.Pairs} {es : List Event}
    (h : ∀ start opening, .enter start opening ∈ es →
      pairs.span start opening = pairs'.span start opening) (w : Walk) :
    w.run pairs es = w.run pairs' es := by
  induction es generalizing w with
  | nil => rfl
  | cons e es ih =>
    have hstep : w.step pairs e = w.step pairs' e := by
      cases e with
      | enter start opening =>
        exact congrArg w.enter (h start opening List.mem_cons_self)
      | _ => rfl
    show (w.step pairs e).run pairs es = (w.step pairs' e).run pairs' es
    rw [hstep]
    exact ih (fun start opening henter => h start opening (List.mem_cons_of_mem _ henter)) _

end Walk

/-! ## Texts -/

theorem Stmt.listEvents_append (ss ss' : List Stmt) :
    Stmt.listEvents (ss ++ ss') = Stmt.listEvents ss ++ Stmt.listEvents ss' := by
  induction ss with
  | nil => rfl
  | cons s ss ih => simp only [List.cons_append, Stmt.listEvents, ih, List.append_assoc]

theorem Walk.ofProgram_ending (pairs : Bracket.Pairs) (program : Program) (stop : Position) :
    (Walk.ofProgram pairs program).ending stop = (Walk.start stop).run pairs program.events := by
  rw [Walk.ofProgram, ← Walk.run_ending stop (Walk.valid_start pairs.stop), Walk.start_ending]

/-- The walk over the longer text goes on where the walk over the text in front ends. -/
theorem Walk.ofProgram_append {a b : String} (ha : (Program.parse a).diagnostics = [])
    (hb : Token.startsAfresh (Token.tokenize b) = true) :
    ∃ es, Walk.ofProgram (.ofText (a ++ "\n" ++ b)) (Program.parse (a ++ "\n" ++ b)).program
      = ((Walk.ofProgram (.ofText a) (Program.parse a).program).ending
          (endPosition (a ++ "\n" ++ b))).run (.ofText (a ++ "\n" ++ b)) es := by
  obtain ⟨hstmts, -⟩ := Program.parse_append ha hb
  refine ⟨Stmt.listEvents
    ((Program.parse b).program.stmts.map (Stmt.lowered (endPosition a).line)), ?_⟩
  rw [Walk.ofProgram, Program.events, hstmts, Stmt.listEvents_append, Walk.run_append,
    Walk.ofProgram_ending]
  congr 1
  exact Walk.run_congr (fun _ _ => Program.span_append ha b) _

namespace Analysis

/-- Text that is added behind a line feed never changes what the code in front of it means, however
    broken it is: its statements and reports are added as many lines further down as the code in front
    has, and every use, every binding and every scope of that code stays. -/
theorem append_keeps_meaning {a b : String} (ha : (Program.parse a).diagnostics = [])
    (hb : Token.startsAfresh (Token.tokenize b) = true) :
    let lines := a.toList.count '\n' + 1
    let whole := a ++ "\n" ++ b
    (Program.parse whole).program.stmts = (Program.parse a).program.stmts
        ++ (Program.parse b).program.stmts.map (Stmt.lowered lines)
      ∧ (Program.parse whole).diagnostics
        = (Program.parse b).diagnostics.map (Diagnostic.lowered lines)
      ∧ (∃ more, (ofText whole).references = (ofText a).references ++ more)
      ∧ (∀ (i : Nat) (x : Binding), (ofText a).bindings[i]? = some x →
        ∃ y, (ofText whole).bindings[i]? = some y ∧ y.name = x.name ∧ y.decl = x.decl
          ∧ y.scope = x.scope)
      ∧ ∀ (k : Nat) (s : Scope), (ofText a).scopes[k]? = some s →
        ∃ s', (ofText whole).scopes[k]? = some s' ∧ s'.parent = s.parent
          ∧ (k ≠ rootScope → s'.span = s.span) := by
  intro lines whole
  obtain ⟨hstmts, hdiagnostics⟩ := Program.parse_append ha hb
  obtain ⟨es, hwalk⟩ := Walk.ofProgram_append ha hb
  have hvalid : ((Walk.ofProgram (.ofText a) (Program.parse a).program).ending
      (endPosition whole)).Valid := by
    rw [Walk.ofProgram_ending]
    exact (Walk.valid_start _).run _ _
  have hgrows := Walk.grows_run hvalid (.ofText whole) es
  have hextends := Walk.extends_run hvalid (.ofText whole) es
  rw [← hwalk] at hgrows hextends
  refine ⟨hstmts, hdiagnostics, ?_, ?_, ?_⟩
  · obtain ⟨more, hmore, -⟩ := hgrows.references
    exact ⟨more, hmore⟩
  · intro i x hx
    obtain ⟨y, hy, hkeeps⟩ := hgrows.keeps hx
    exact ⟨y, hy, hkeeps.name, hkeeps.decl, hkeeps.scope⟩
  · intro k s hs
    -- the scope of the file reaches further, the others end where they did
    by_cases hk : rootScope = k
    · have hroot := Scopes.getElem?_ending (ofText a).scopes (endPosition whole) k
      rw [if_pos hk, hs] at hroot
      obtain ⟨s', hs', hparent, -⟩ := hextends k _ hroot
      exact ⟨s', hs', hparent, fun hne => absurd hk.symm hne⟩
    · have hother := Scopes.getElem?_ending (ofText a).scopes (endPosition whole) k
      rw [if_neg hk, hs] at hother
      obtain ⟨s', hs', hparent, hspan, -⟩ := hextends k s hother
      exact ⟨s', hs', hparent, fun _ => hspan⟩

/-- A text that ends in a conditional, in front of one that cannot be read. -/
theorem append_keeps_meaning_broken :
    let a := "x = 1\nif (x) \x7b\n  y = [z for z in x]\n\x7d"
    let b := "\n// note\n) \x7b x := \"y"
    (Program.parse b).diagnostics.length = 3
      ∧ (Program.parse (a ++ "\n" ++ b)).diagnostics
        = (Program.parse b).diagnostics.map (Diagnostic.lowered 4)
      ∧ (∃ more, (ofText (a ++ "\n" ++ b)).references = (ofText a).references ++ more)
      ∧ ∃ s : Scope, (ofText (a ++ "\n" ++ b)).scopes[1]? = some s
        ∧ s.span = ⟨⟨2, 8⟩, ⟨4, 1⟩⟩ := by
  intro a b
  have hclean : (Program.parse a).diagnostics = [] := List.isEmpty_iff.1 (by decide +kernel)
  have hafresh : Token.startsAfresh (Token.tokenize b) = true := by decide +kernel
  have hscope : (ofText a).scopes[1]? = some ⟨some 0, [2], ⟨⟨2, 8⟩, ⟨4, 1⟩⟩, [("y", 1)]⟩ := by
    decide +kernel
  obtain ⟨-, hdiagnostics, hreferences, -, hscopes⟩ := append_keeps_meaning hclean hafresh
  rw [show a.toList.count '\n' + 1 = 4 by decide +kernel] at hdiagnostics
  obtain ⟨s, hs, -, hspan⟩ := hscopes 1 _ hscope
  exact ⟨by decide +kernel, hdiagnostics, hreferences, s, hs, hspan (by decide)⟩

end Analysis

end Welle
