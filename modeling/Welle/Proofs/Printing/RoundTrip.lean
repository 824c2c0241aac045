import Welle.Proofs.Append.Parse
import Welle.Proofs.Printing.Losses
import Welle.Proofs.Printing.Parsed
import Welle.Proofs.Printing.Restored

set_option autoImplicit false

/-! # Printing and reading expressions

A printable expression is read back from its own text, as what that text stands for. An expression
without templates and functions that is read from a text is printable and stands for itself. -/

namespace Welle

open Filter (eventually_atTop)
open Token (Shape mark lex shape)
open Welle.Parser (run parseExpression)

/-! ## Expressions without code -/

/-- Whether an expression is a template or a function, which hold source text of their own. -/
def Expr.holdsCode : Expr → Bool
  | .template .. | .func .. => true
  | _ => false

/-- None of some expressions holds code of its own. -/
abbrev Expr.NoCode (es : List Expr) : Prop := ∀ e ∈ es, e.holdsCode = false

open Welle.Expr (NoCode)

mutual

/-- Where there is no code, all nodes are expressions. -/
theorem Expr.nodes_of_noCode : ∀ e : Expr, NoCode e.subexprs → e.nodes = e.subexprs.map .expr
  | .ident _, _ | .int .., _ | .float .., _ | .str .., _ | .bool .., _ | .nil _, _ => rfl
  | .func .., h | .template .., h => by cases h _ List.mem_cons_self
  | .tuple _ items, h | .list _ items, h => by
    simp only [Expr.subexprs, List.forall_mem_cons] at h
    simp only [Expr.nodes, Expr.subexprs, List.map_cons, Expr.listNodes_of_noCode items h.2]
  | .dict _ entries, h => by
    simp only [Expr.subexprs, List.forall_mem_cons] at h
    simp only [Expr.nodes, Expr.subexprs, List.map_cons, DictEntry.listNodes_of_noCode entries h.2]
  | .unary _ _ e, h | .spread _ e, h | .member _ e _, h => by
    simp only [Expr.subexprs, List.forall_mem_cons] at h
    simp only [Expr.nodes, Expr.subexprs, List.map_cons, Expr.nodes_of_noCode e h.2]
  | .binary _ _ a b, h | .assign _ a _ b, h | .index _ a b, h => by
    simp only [Expr.subexprs, List.forall_mem_cons, List.forall_mem_append] at h
    simp only [Expr.nodes, Expr.subexprs, List.map_cons, List.map_append,
      Expr.nodes_of_noCode a h.2.1, Expr.nodes_of_noCode b h.2.2]
  | .ternary _ a b c, h | .conditional _ a b c, h => by
    simp only [Expr.subexprs, List.forall_mem_cons, List.forall_mem_append] at h
    simp only [Expr.nodes, Expr.subexprs, List.map_cons, List.map_append,
      Expr.nodes_of_noCode a h.2.1.1, Expr.nodes_of_noCode b h.2.1.2, Expr.nodes_of_noCode c h.2.2]
  | .call _ callee args, h => by
    simp only [Expr.subexprs, List.forall_mem_cons, List.forall_mem_append] at h
    simp only [Expr.nodes, Expr.subexprs, List.map_cons, List.map_append,
      Expr.nodes_of_noCode callee h.2.1, Expr.listNodes_of_noCode args h.2.2]
  | .slice _ object low high step, h => by
    simp only [Expr.subexprs, List.forall_mem_cons, List.forall_mem_append] at h
    simp only [Expr.nodes, Expr.subexprs, List.map_cons, List.map_append,
      Expr.nodes_of_noCode object h.2.1.1.1, Expr.optionNodes_of_noCode low h.2.1.1.2,
      Expr.optionNodes_of_noCode high h.2.1.2, Expr.optionNodes_of_noCode step h.2.2]
  | .comprehension _ elem _ seq filter, h => by
    simp only [Expr.subexprs, List.forall_mem_cons, List.forall_mem_append] at h
    simp only [Expr.nodes, Expr.subexprs, List.map_cons, List.map_append,
      Expr.nodes_of_noCode elem h.2.1.1, Expr.nodes_of_noCode seq h.2.1.2,
      Expr.optionNodes_of_noCode filter h.2.2]
  | .select _ value arms fallback, h => by
    simp only [Expr.subexprs, List.forall_mem_cons, List.forall_mem_append] at h
    simp only [Expr.nodes, Expr.subexprs, List.map_cons, List.map_append,
      Expr.nodes_of_noCode value h.2.1.1, MatchArm.listNodes_of_noCode arms h.2.1.2,
      Expr.optionNodes_of_noCode fallback h.2.2]

theorem Expr.listNodes_of_noCode : ∀ es : List Expr, NoCode (Expr.listSubexprs es) →
    Expr.listNodes es = (Expr.listSubexprs es).map .expr
  | [], _ => rfl
  | e :: es, h => by
    simp only [Expr.listSubexprs, List.forall_mem_append] at h
    simp only [Expr.listNodes, Expr.listSubexprs, List.map_append, Expr.nodes_of_noCode e h.1,
      Expr.listNodes_of_noCode es h.2]

theorem Expr.optionNodes_of_noCode : ∀ e : Option Expr, NoCode (Expr.optionSubexprs e) →
    Expr.optionNodes e = (Expr.optionSubexprs e).map .expr
  | none, _ => rfl
  | some e, h => Expr.nodes_of_noCode e h

theorem DictEntry.listNodes_of_noCode : ∀ entries : List DictEntry,
    NoCode (DictEntry.listSubexprs entries) →
    DictEntry.listNodes entries = (DictEntry.listSubexprs entries).map .expr
  | [], _ => rfl
  | .pair key value :: entries, h => by
    simp only [DictEntry.listSubexprs, DictEntry.subexprs, List.forall_mem_append] at h
    simp only [DictEntry.listNodes, DictEntry.nodes, DictEntry.listSubexprs, DictEntry.subexprs,
      List.map_append, Expr.nodes_of_noCode key h.1.1, Expr.nodes_of_noCode value h.1.2,
      DictEntry.listNodes_of_noCode entries h.2]
  | .shorthand _ :: entries, h => DictEntry.listNodes_of_noCode entries h

theorem MatchArm.listNodes_of_noCode : ∀ arms : List MatchArm, NoCode (MatchArm.listSubexprs arms) →
    MatchArm.listNodes arms = (MatchArm.listSubexprs arms).map .expr
  | [], _ => rfl
  | .mk _ values result :: arms, h => by
    simp only [MatchArm.listSubexprs, MatchArm.subexprs, List.forall_mem_append] at h
    simp only [MatchArm.listNodes, MatchArm.nodes, MatchArm.listSubexprs, MatchArm.subexprs,
      List.map_append, Expr.listNodes_of_noCode values h.1.1, Expr.nodes_of_noCode result h.1.2,
      MatchArm.listNodes_of_noCode arms h.2]

end

section NoCode

variable {e : Expr}

theorem Expr.exact_of_noCode (hcode : NoCode e.subexprs)
    (hfloats : ∀ pos value, .float pos value ∈ e.subexprs → Numeral.PrintsExactly value) :
    Node.Exact e.nodes := by
  rw [e.nodes_of_noCode hcode, Node.Exact, List.forall_mem_map]
  intro s hs
  cases s with
  | float pos value => exact hfloats pos value hs
  | template => cases hcode _ hs
  | _ => trivial

/-- Where there is no code, an expression stands for itself. -/
theorem Expr.Printable.reread_of_noCode (h : e.Printable) (hcode : NoCode e.subexprs) :
    e.reread = e := by
  refine Node.Printable.kept h ?_
  rw [e.nodes_of_noCode hcode, Node.losses, List.countP_eq_zero, List.forall_mem_map]
  exact fun s _ => Bool.false_ne_true

end NoCode

/-! ## Reading a printed expression back -/

/-- What an expression at the start of a text is read from. -/
theorem Parser.derives_of_parseExpression {text : String} {level : Precedence} {e : Expr} {st : State}
    (h : run (parseExpression level) (.ofTokens (Token.tokenize text)) = (.ok e, st)) :
    ∃ used, Token.tokenize text = used ++ st.tokens
      ∧ Grammar.Derives (st.diagnostics = []) (significant used) (.item (.expr e)) := by
  rw [ofTokens_tokenize, parseExpression, run_bind_ok (run_get _)] at h
  obtain ⟨used, hmoves, hread⟩ := ((Grammar.sound_ofDepth _).expression level _).read h
  exact ⟨used, hmoves.tokens, hread _ id⟩

/-- What is read from a text is printable where it is exact. -/
theorem Expr.printable_of_exact {text : String} {level : Precedence} {e : Expr} {st : Parser.State}
    (h : run (parseExpression level) (.ofTokens (Token.tokenize text)) = (.ok e, st))
    (hexact : Node.Exact e.nodes) : e.Printable := by
  obtain ⟨used, htokens, hderives⟩ := Parser.derives_of_parseExpression h
  refine hderives.printable (fun t ht => ?_) hexact
  have hmem : t ∈ Token.tokenize text := htokens ▸ List.mem_append_left _ (List.mem_of_mem_filter ht)
  exact Token.spellsWord_of_mem hmem

/-- A printable expression is read back from its text, which is read to its end. -/
theorem Expr.Printable.reads {e : Expr} (h : e.Printable) : ∃ e' last,
    run (parseExpression .lowest) (.ofTokens (Token.tokenize e.render)) = (.ok e', ⟨[last], 0, []⟩)
      ∧ e'.unplaced = e.reread.unplaced ∧ last.kind = .eof := by
  obtain ⟨ts, last, htokens, hts, hlast⟩ := h.lexes.tokensFrom .start
  have hstop : Parser.stops .lowest last.kind = true := by
    rw [hlast]
    rfl
  obtain ⟨enough, hread⟩ := eventually_atTop.1 (Parser.Restores.isRead (Node.Printable.restored h))
  let st : Parser.State := ⟨ts ++ [last], 0, []⟩
  obtain ⟨e', he', hrun⟩ := (hread (st.weight + enough) (Nat.le_add_left _ _)).takes hts (by decide)
    hstop 0 []
  -- as many levels as the tokens weigh are enough
  have hends : st.Ends := ⟨last, List.mem_append_right _ (List.mem_singleton_self _), hlast⟩
  have hsame := ((Parser.Grammar.agrees_ofDepth st.weight enough).expression .lowest st
    ⟨hends, le_rfl⟩).1
  refine ⟨e', last, ?_, he', hlast⟩
  rw [Parser.ofTokens_tokenize, Token.tokenize, Token.tokenizeAt, htokens, parseExpression,
    Parser.run_bind_ok (Parser.run_get _)]
  exact hsame.trans hrun

/-- An expression without templates and functions that is read from a text is printed as a text that
    is read to its end, without a report and without an illegal token, as the same expression up to
    positions. -/
theorem Expr.reads_render {text : String} {e : Expr} {st : Parser.State}
    (h : run (parseExpression .lowest) (.ofTokens (Token.tokenize text)) = (.ok e, st))
    (hcode : ∀ s ∈ e.subexprs, s.holdsCode = false)
    (hfloats : ∀ pos value, .float pos value ∈ e.subexprs → Numeral.PrintsExactly value) :
    (∀ t ∈ Token.tokenize e.render, t.kind ≠ .illegal)
      ∧ ∃ e' st', run (parseExpression .lowest) (.ofTokens (Token.tokenize e.render)) = (.ok e', st')
        ∧ e'.unplaced = e.unplaced ∧ st'.current.kind = .eof ∧ st'.diagnostics = [] := by
  have hprintable := printable_of_exact h (exact_of_noCode hcode hfloats)
  obtain ⟨e', last, hrun, he', hlast⟩ := hprintable.reads
  rw [hprintable.reread_of_noCode hcode] at he'
  refine ⟨fun t ht hillegal => ?_, e', _, hrun, he', hlast, rfl⟩
  -- nothing is reported, so every token in front of the end is part of the expression
  obtain ⟨used, htokens, hderives⟩ := Parser.derives_of_parseExpression hrun
  rw [htokens, List.mem_append, List.mem_singleton] at ht
  rcases ht with ht | rfl
  · have hlegal : Grammar.Derives True (Parser.significant used) (.item (.expr e')) := by
      simpa using hderives
    exact hlegal.legal t (List.mem_filter.2 ⟨ht, by simp [hillegal]⟩) hillegal
  · cases hillegal.symm.trans hlast

/-- A list of a `match` expression with a slice and a list comprehension over a dictionary. -/
theorem Expr.reads_render_match :
    ∃ e st e' st', run (parseExpression .lowest) (.ofTokens (Token.tokenize
          "[match (n) \x7b case 2.50 \x7b f(...b)[1:] \x7d \x7d, [y.z for y in #\x7bk: -1, w\x7d]]"))
        = (.ok e, st)
      ∧ e.render
        = "[match (n) \x7b case 2.5 \x7b (f(...b)[1:]) \x7d \x7d, [y.z for y in #\x7bk: (-1), w\x7d]]"
      ∧ run (parseExpression .lowest) (.ofTokens (Token.tokenize e.render)) = (.ok e', st')
      ∧ e'.unplaced = e.unplaced ∧ st'.current.kind = .eof := by
  generalize hread : run (parseExpression .lowest) (.ofTokens (Token.tokenize _)) = read
  have hshown : read.1.toOption.map (fun e => (e.render, e.subexprs.any holdsCode,
      e.subexprs.filterMap fun | .float _ value => some value | _ => none))
      = some (
        "[match (n) \x7b case 2.5 \x7b (f(...b)[1:]) \x7d \x7d, [y.z for y in #\x7bk: (-1), w\x7d]]",
        false, [⟨5629499534213120, -51⟩]) := by
    rw [← hread]
    decide +kernel
  obtain ⟨e | e, st⟩ := read
  · cases hshown
  simp only [Except.toOption, Option.map_some, Option.some.injEq, Prod.mk.injEq,
    List.any_eq_false] at hshown
  obtain ⟨hrender, hcode, hfloats⟩ := hshown
  have hexact : Numeral.PrintsExactly ⟨5629499534213120, -51⟩ := by
    rw [Numeral.PrintsExactly]
    decide +kernel
  have hfloat : ∀ pos value, .float pos value ∈ e.subexprs → Numeral.PrintsExactly value := by
    intro pos value hmem
    have hvalue : value ∈ [⟨5629499534213120, -51⟩] :=
      hfloats ▸ List.mem_filterMap.2 ⟨_, hmem, rfl⟩
    rwa [List.mem_singleton.1 hvalue]
  obtain ⟨-, e', st', hrun, he', heof, -⟩ := Expr.reads_render hread
    (fun s hs => by simpa using hcode s hs) hfloat
  exact ⟨e, st, e', st', rfl, hrender, hrun, he', heof⟩

end Welle
