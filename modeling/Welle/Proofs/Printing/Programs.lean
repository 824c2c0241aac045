import Welle.Proofs.Printing.RoundTrip

set_option autoImplicit false

/-! # Printing and reading programs

A printed program has one statement on each line, and no statement starts with a word that would
continue the one in front of it. So the statements are read one after the other, each as it is read
alone, and the program that is read is the one that the text stands for. That one is printed as the
same text exactly if no destructuring loses the comma behind its only target. -/

namespace Welle

open Filter (eventually_atTop)
open Token (shape lex)
open Welle.Parser (run parseProgram Rounds Takes listedStatement)

/-! ## A statement on a line of its own -/

namespace Stmt.Printable

variable {s : Stmt}

theorem exists_tokens (h : s.Printable) :
    ∃ head tail, s.tokens = head :: tail ∧ head.1.isStatementStart = true := by
  obtain ⟨depth, hs⟩ := (Parser.RestoresNode.isStated (Node.Printable.restored h)).exists
  exact hs.starts

/-- What starts with a printed statement does not continue a statement in front of it. -/
theorem startsAfresh (h : s.Printable) (rest : String) :
    Token.startsAfresh (Token.tokenize (s.render ++ "\n" ++ rest)) = true := by
  obtain ⟨head, tail, htokens, hstart⟩ := h.exists_tokens
  have hlex : (Token.tokenize (s.render ++ "\n" ++ rest)).map shape
      = s.tokens ++ lex ('\n' :: rest.toList) := by
    have hlexes : Token.Lexes s.render.toList s.tokens := Node.Printable.lexes h
    rw [← hlexes _ (Token.apart_cons rfl rest.toList)]
    exact congrArg lex (by simp)
  rw [htokens] at hlex
  obtain ⟨t, ts, hsplit, ht, -⟩ := List.map_eq_cons_iff.1 hlex
  rw [show head.1 = t.kind from (congrArg Prod.fst ht).symm] at hstart
  have hkinds : t.kind ≠ .newline ∧ t.kind ≠ .kwElse ∧ t.kind ≠ .kwFinally := by
    refine ⟨?_, ?_, ?_⟩ <;>
    · intro hkind
      rw [hkind] at hstart
      cases hstart
  simp [hsplit, Token.startsAfresh, hkinds]

/-- A printable statement is read back from its own text. -/
theorem parse_render (h : s.Printable) : (Program.parse s.render).diagnostics = []
    ∧ ∃ s', (Program.parse s.render).program.stmts = [s'] ∧ s'.unplaced = s.reread.unplaced := by
  obtain ⟨ts, last, htokens, hts, hlast⟩ := Token.Lexes.tokensFrom (Node.Printable.lexes h) .start
  obtain ⟨enough, hread⟩ :=
    eventually_atTop.1 (Parser.RestoresNode.isStated (Node.Printable.restored h))
  let st : Parser.State := ⟨ts ++ [last], 0, []⟩
  let g : Parser.Grammar := .ofDepth (st.weight + enough)
  have hs : Parser.IsStated g.statement s := hread _ (Nat.le_add_left _ _)
  have hne : ts ≠ [] := by
    obtain ⟨head, tail, hhead, -⟩ := h.exists_tokens
    rintro rfl
    cases hts.trans hhead
  -- one round reads the statement, and the next one finds the end of the text
  have hround : Takes (Option.map (Option.map Stmt.unplaced)) (listedStatement g .eof) ([] ++ ts)
      ([] ++ [last]) (some (some s.reread)) :=
    Parser.takes_listedStatement (List.forall_mem_nil _) rfl hs hts (by rw [hlast]; rfl)
  have hrounds : Rounds (Option.map Stmt.unplaced) (listedStatement g .eof) [last] (ts ++ [])
      [some s.reread] :=
    .go hne hround (.stop (List.cons_ne_nil _ _) (Parser.takes_listedStatement_none hlast rfl))
  rw [List.append_nil] at hrounds
  obtain ⟨found, hfound, hcollect⟩ := hrounds.collect le_rfl 0 []
  obtain ⟨o, rfl, ho⟩ := List.map_eq_singleton_iff.1 hfound
  obtain ⟨s', rfl, hs'⟩ := Option.map_eq_some_iff.1 ho
  -- as many levels as the tokens weigh are enough
  have hends : st.Ends := ⟨last, List.mem_append_right _ (List.mem_singleton_self _), hlast⟩
  have hwithin : run parseProgram st = (.ok ⟨[s']⟩, ⟨[last], 0, []⟩) := by
    rw [← Parser.run_parseWithin hends (Nat.le_add_right _ enough) le_rfl]
    exact Parser.run_bind_ok hcollect _
  obtain ⟨st', hrun, hdiagnostics⟩ := Program.run_parse s.render
  rw [Token.tokenize, Token.tokenizeAt, htokens] at hrun
  obtain ⟨hprogram, rfl⟩ := Prod.mk.inj (hrun.symm.trans hwithin)
  exact ⟨hdiagnostics.symm, s', congrArg Program.stmts (Except.ok.inj hprogram), hs'⟩

end Stmt.Printable

/-! ## One statement below the other -/

namespace Program

variable {s : Stmt} {ss : List Stmt}

theorem render_nil : render ⟨[]⟩ = "" := rfl

theorem render_cons (s : Stmt) (ss : List Stmt) :
    render ⟨s :: ss⟩ = s.render ++ "\n" ++ render ⟨ss⟩ := by
  simp [render]

theorem startsAfresh_render (h : ∀ s ∈ ss, s.Printable) :
    Token.startsAfresh (Token.tokenize (render ⟨ss⟩)) = true := by
  cases ss with
  | nil =>
    rw [render_nil]
    decide +kernel
  | cons s ss =>
    rw [render_cons]
    exact (h s List.mem_cons_self).startsAfresh _

/-- A program of printable statements is read back from its text, as what the text stands for. -/
theorem parse_render {program : Program} (h : ∀ s ∈ program.stmts, s.Printable) :
    (parse program.render).diagnostics = []
      ∧ (parse program.render).program.stmts.map Stmt.unplaced
        = program.reread.stmts.map Stmt.unplaced := by
  rw [reread, Stmt.listReread_eq, List.map_map]
  obtain ⟨ss⟩ := program
  induction ss with
  | nil =>
    have hnone : (parse "").program.stmts = [] := List.isEmpty_iff.1 (by decide +kernel)
    rw [render_nil, hnone]
    exact ⟨by decide +kernel, rfl⟩
  | cons s ss ih =>
    obtain ⟨hs, hss⟩ := List.forall_mem_cons.1 h
    obtain ⟨hclean, s', hstmts, hs'⟩ := hs.parse_render
    obtain ⟨hrest, hunplaced⟩ := ih hss
    obtain ⟨hjoined, hdiagnostics⟩ := parse_append hclean (startsAfresh_render hss)
    rw [render_cons, hjoined, hdiagnostics, hrest, hstmts]
    refine ⟨rfl, ?_⟩
    simp [hs', Stmt.mapUnplaced_lowered, hunplaced]

/-! ## The text that is printed again -/

/-- Programs that are the same up to positions are printed alike. -/
theorem render_congr {program other : Program}
    (h : program.stmts.map Stmt.unplaced = other.stmts.map Stmt.unplaced) :
    program.render = other.render := by
  have hrender (ss : List Stmt) : ss.map Stmt.render = (ss.map Stmt.unplaced).map Stmt.render := by
    simp [Stmt.render_unplaced]
  simp only [render, Stmt.renderAll_eq]
  rw [hrender program.stmts, h, ← hrender other.stmts]

/-- The text that is printed again is shorter by two characters for each loss. -/
theorem length_render_reread {program : Program} (h : ∀ s ∈ program.stmts, s.Printable) :
    program.reread.render.length + 2 * Node.losses program.nodes = program.render.length := by
  obtain ⟨ss⟩ := program
  induction ss with
  | nil => rfl
  | cons s ss ih =>
    obtain ⟨hs, hss⟩ := List.forall_mem_cons.1 h
    have hshort : s.reread.render.length + 2 * Node.losses s.nodes = s.render.length :=
      Node.Printable.shortened hs
    have hrest := ih hss
    simp only [reread, nodes, Stmt.listReread, Stmt.listNodes, render_cons, Node.losses_append,
      String.length_append] at hrest ⊢
    omega

/-- A program without a loss stands for itself. -/
theorem reread_eq_self {program : Program} (h : ∀ s ∈ program.stmts, s.Printable)
    (hnone : Node.losses program.nodes = 0) : program.reread = program := by
  have hkept : program.stmts.map Stmt.reread = program.stmts := by
    refine Node.map_kept (fun s hs => Node.Printable.kept (h s hs)) ?_
    rwa [← Stmt.listNodes_eq]
  rw [reread, Stmt.listReread_eq, hkept]

/-- The statements of a text that is read without a report are printable where they are exact. -/
theorem printable_of_exact {text : String} (h : (parse text).diagnostics = [])
    (hexact : Node.Exact (parse text).program.nodes) :
    ∀ s ∈ (parse text).program.stmts, s.Printable := by
  intro s hs
  exact (derives_content h).printable Grammar.spellsWord_of_mem_content s hs
    (hexact.mono (Stmt.mem_listNodes hs))

/-- A text that is read without a report, whose floats are printed as texts that stand for them and
    whose interpolations can be embedded as they are printed, is printed as a text that is read
    without a report. That one is printed as the same text exactly if no destructuring has a single
    target that is not starred. -/
theorem render_stable_iff {text : String} (h : (parse text).diagnostics = [])
    (hfloats : ∀ pos value, .expr (.float pos value) ∈ (parse text).program.nodes →
      Numeral.PrintsExactly value)
    (hholes : ∀ pos tag parts exprs,
      .expr (.template pos tag parts exprs) ∈ (parse text).program.nodes →
        ∀ e ∈ exprs, Template.Embeds e.render) :
    let printed := (parse text).program.render
    (parse printed).diagnostics = []
      ∧ ((parse printed).program.render = printed
        ↔ ∀ pos target op value,
          .stmt (.destructure pos [target] op value) ∈ (parse text).program.nodes →
            target.isStarred = true) := by
  have hexact : Node.Exact (parse text).program.nodes := by
    rintro (e | s) hn
    · cases e with
      | float pos value => exact hfloats pos value hn
      | template pos tag parts exprs => exact hholes pos tag parts exprs hn
      | _ => trivial
    · trivial
  have hprintable := printable_of_exact h hexact
  obtain ⟨hclean, hread⟩ := parse_render hprintable
  refine ⟨hclean, ?_⟩
  rw [render_congr hread, ← Node.losses_eq_zero_iff]
  constructor
  · intro hsame
    have hlength := length_render_reread hprintable
    rw [hsame] at hlength
    omega
  · exact fun hnone => congrArg render (reread_eq_self hprintable hnone)

/-- The single target of the second statement is not starred, so that the text is not printed
    again. -/
theorem render_stable_iff_lone :
    let text := "(*a,) = t\"$\x7bb + 2.50\x7d\"\n(c,) = 1"
    let printed := "(*a) = t\"$\x7b(b + 2.5)\x7d\"\n(c) = 1\n"
    (parse text).diagnostics = [] ∧ (parse text).program.render = printed
      ∧ (parse printed).diagnostics = [] ∧ (parse printed).program.render ≠ printed := by
  intro text printed
  have hclean : (parse text).diagnostics = [] := by decide +kernel
  have hrender : (parse text).program.render = printed := by decide +kernel
  have hvalues : (parse text).program.nodes.filterMap
      (fun | .expr (.float _ value) => some value | _ => none) = [⟨5629499534213120, -51⟩] := by
    decide +kernel
  have hsources : (parse text).program.nodes.filterMap
      (fun | .expr (.template _ _ _ exprs) => some (exprs.map Expr.render) | _ => none)
        = [["(b + 2.5)"]] := by
    decide +kernel
  have hlosses : Node.losses (parse text).program.nodes = 1 := by decide +kernel
  have hfloats : ∀ pos value, .expr (.float pos value) ∈ (parse text).program.nodes →
      Numeral.PrintsExactly value := by
    intro pos value hmem
    have hvalue : value ∈ [⟨5629499534213120, -51⟩] :=
      hvalues ▸ List.mem_filterMap.2 ⟨_, hmem, rfl⟩
    rw [List.mem_singleton.1 hvalue, Numeral.PrintsExactly]
    decide +kernel
  have hholes : ∀ pos tag parts exprs,
      .expr (.template pos tag parts exprs) ∈ (parse text).program.nodes →
        ∀ e ∈ exprs, Template.Embeds e.render := by
    intro pos tag parts exprs hmem e he
    have hexprs : exprs.map Expr.render ∈ [["(b + 2.5)"]] :=
      hsources ▸ List.mem_filterMap.2 ⟨_, hmem, rfl⟩
    have hsource : e.render ∈ ["(b + 2.5)"] :=
      List.mem_singleton.1 hexprs ▸ List.mem_map_of_mem he
    rw [List.mem_singleton.1 hsource, Template.Embeds]
    decide +kernel
  have hstable := render_stable_iff hclean hfloats hholes
  rw [hrender, ← Node.losses_eq_zero_iff, hlosses] at hstable
  exact ⟨hclean, hrender, hstable.1, fun hsame => absurd (hstable.2.1 hsame) one_ne_zero⟩

end Program

end Welle
