import Welle.Proofs.Openings
import Welle.Proofs.Tables
import Welle.Workspace.Index

set_option autoImplicit false

/-! # What identifies a binding

A symbol of a scope is known by its file, the span of the scope and its name. Where nothing is
reported this is enough to tell bindings apart: no two scopes end at the same place, and no scope has
two bindings of one name. -/

namespace Welle

namespace Analysis

variable {text : String}

/-- The scopes of a text behind the scope of the file are those that its steps enter. -/
theorem span_eq (text : String) (k : Nat) : ((ofText text).scopes[k + 1]?).map (·.span)
    = (Event.spans (.ofText text) (Program.parse text).program.events)[k]? := by
  rw [Nat.add_comm]
  exact Walk.spans_run (Walk.valid_start (endPosition text)) (.ofText text)
    (Program.parse text).program.events k

/-- Where nothing is reported, scopes that end at the same place are the same. -/
theorem scope_eq_of_last_eq (h : (Program.parse text).diagnostics = []) {k l : Nat} {s t : Scope}
    (hs : (ofText text).scopes[k]? = some s) (ht : (ofText text).scopes[l]? = some t)
    (hlast : s.span.last = t.span.last) : k = l := by
  obtain ⟨root, hroot, hspan⟩ := root_ofText text
  -- the file ends behind all scopes in it
  have hbefore {k : Nat} {s : Scope} (hs : (ofText text).scopes[k + 1]? = some s) :
      s.span.last ≠ root.span.last := by
    have hmem := span_eq text k
    rw [hs] at hmem
    have hlt := Program.ends_before h (List.mem_of_getElem? hmem.symm)
    rw [hspan]
    exact fun heq => Position.lt_irrefl _ (heq ▸ hlt)
  rcases k with _ | k <;> rcases l with _ | l
  · rfl
  · cases hroot.symm.trans hs
    exact absurd hlast.symm (hbefore ht)
  · cases hroot.symm.trans ht
    exact absurd hlast (hbefore hs)
  · have hk := span_eq text k
    have hl := span_eq text l
    rw [hs] at hk
    rw [ht] at hl
    have hends {k : Nat} {span : Span}
        (hk : some span = (Event.spans (.ofText text) (Program.parse text).program.events)[k]?) :
        ((Event.spans (.ofText text) (Program.parse text).program.events).map (·.last))[k]?
          = some span.last := by
      rw [List.getElem?_map, ← hk, Option.map_some]
    have hlt := (List.getElem?_eq_some_iff.1 (hends hk)).1
    exact congrArg (· + 1) ((List.getElem?_inj hlt (Program.nodup_ends h)).1
      ((hends hk).trans ((congrArg some hlast).trans (hends hl).symm)))

/-- A scope has one binding of a name. -/
theorem binding_eq {i j : Nat} {b c : Binding} (hb : (ofText text).bindings[i]? = some b)
    (hc : (ofText text).bindings[j]? = some c) (hscope : b.scope = c.scope)
    (hname : b.name = c.name) : i = j := by
  have hi := (tabled_ofText text).listed i b hb
  have hj := (tabled_ofText text).listed j c hc
  rw [hscope, hname] at hi
  exact Option.some.inj (hi.symm.trans hj)

end Analysis

namespace SourceFile

/-- Where nothing is reported, bindings of a file with the same symbol are the same. -/
theorem ownKey_injective (uri : Uri) (p : Path) {text : String}
    (h : (Program.parse text).diagnostics = []) {i j : Nat} {b c : Binding}
    (hb : (Analysis.ofText text).bindings[i]? = some b)
    (hc : (Analysis.ofText text).bindings[j]? = some c)
    (hkey : ((SourceFile.ofText uri p text).ownKey b).tidy
      = ((SourceFile.ofText uri p text).ownKey c).tidy) : i = j := by
  have hscope {i : Nat} {b : Binding} (hb : (Analysis.ofText text).bindings[i]? = some b) :
      ∃ s, (SourceFile.ofText uri p text).analysis.scopes[b.scope]? = some s := by
    obtain ⟨s, hs, -⟩ := Option.bind_eq_some_iff.1 ((Analysis.tabled_ofText text).listed i b hb)
    exact ⟨s, hs⟩
  obtain ⟨s, hs⟩ := hscope hb
  obtain ⟨t, ht⟩ := hscope hc
  unfold ownKey at hkey
  split at hkey
  next hexported =>
    split at hkey
    next hexported' =>
      -- exports stand in the scope of the file
      simp only [Bool.and_eq_true, decide_eq_true_eq] at hexported hexported'
      exact Analysis.binding_eq hb hc (hexported.1.1.trans hexported'.1.1.symm)
        (SymbolKey.exported.inj hkey).2
    next => cases hkey
  next =>
    split at hkey
    next => cases hkey
    next =>
      simp only [scopeKey, hs, ht, Option.map_some, Option.getD_some, SymbolKey.tidy,
        SymbolKey.inScope.injEq] at hkey
      -- scopes that end at one place are the same, and a scope has a name once
      obtain ⟨-, hspan, hname⟩ := hkey
      exact Analysis.binding_eq hb hc
        (Analysis.scope_eq_of_last_eq h hs ht (congrArg Span.last hspan)) hname

/-- Parameters of one name that belong to two functions. -/
theorem ownKey_injective_params :
    let text := "func f(x) \x7b\x7d\nfunc g(x) \x7b\x7d\n"
    let file := SourceFile.ofText ⟨"file", some .empty, "/main.wll", ""⟩ ⟨"/main.wll"⟩ text
    (Program.parse text).diagnostics = [] ∧ ∃ b c, file.analysis.bindings[1]? = some b
      ∧ file.analysis.bindings[3]? = some c ∧ b.name = c.name
      ∧ (file.ownKey b).tidy ≠ (file.ownKey c).tidy := by
  intro text file
  have hclean : (Program.parse text).diagnostics = [] := List.isEmpty_iff.1 (by decide +kernel)
  have hb : file.analysis.bindings[1]? = some ⟨"x", .param, ⟨"x", ⟨1, 8⟩⟩, 1, [], none, none⟩ := by
    decide +kernel
  have hc : file.analysis.bindings[3]? = some ⟨"x", .param, ⟨"x", ⟨2, 8⟩⟩, 2, [], none, none⟩ := by
    decide +kernel
  exact ⟨hclean, _, _, hb, hc, rfl, fun hkey =>
    absurd (ownKey_injective file.uri file.path hclean hb hc hkey) (by decide)⟩

end SourceFile

end Welle
