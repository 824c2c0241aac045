import Welle.Proofs.Newlines.Statement

set_option autoImplicit false

/-! # Programs with line feeds inside of brackets

A program that is read without a report is read the same in front of the same visible tokens, with as
many levels and rounds as the longer list of tokens needs. So it does not matter how many line feeds
stand where line feeds do not count. -/

namespace Welle

open Newlines (Bracket Context Inserts visible)

namespace Parser

theorem mirrors_parseWithin (depth limit : Nat) (st : State) : Keeps 0 [] st (parseWithin depth limit) := by
  have hn : Heeds 0 ⟨[], false⟩ := fun _ => rfl
  refine .bind (.collect limit fun s => ?_) fun found s => .pure
  exact mirrors_listedStatement (Grammar.mirrored_ofDepth depth) .eof hn

theorem visible_ofTokens (tokens : List Token) :
    visible .start (State.ofTokens tokens).tokens = visible .start tokens := by
  unfold State.ofTokens
  split
  next hlast =>
    rw [List.getLast?_eq_none_iff.1 hlast]
    rfl
  next last hlast =>
    dsimp only
    split
    · rfl
    · exact Newlines.visible_concat rfl tokens

theorem twins_ofTokens {tokens tokens' : List Token}
    (h : visible .start tokens = visible .start tokens') :
    Twins 0 .start (.ofTokens tokens) (.ofTokens tokens') where
  visible_eq := by rw [visible_ofTokens, visible_ofTokens, h]
  nesting := ⟨rfl, rfl⟩
  clean := ⟨rfl, rfl⟩
  ends := ⟨State.ends_ofTokens tokens, State.ends_ofTokens tokens'⟩

/-- A program that is read without a report is read the same, and without a report, in all twins. -/
theorem Twins.run_parseProgram {st st' s : State} {program : Program} (h : Twins 0 .start st st')
    (hrun : run parseProgram st = (.ok program, s)) (hclean : s.diagnostics = []) :
    ∃ s', run parseProgram st' = (.ok program, s') ∧ s'.diagnostics = [] := by
  -- both are read with the same number of levels and of rounds
  rw [← run_parseWithin h.ends.1 (Nat.le_max_left _ st'.weight) (Nat.le_max_left _ st'.tokens.length)]
    at hrun
  obtain ⟨-, hother⟩ := mirrors_parseWithin _ _ st program s hrun hclean
  obtain ⟨s', hrun', hs'⟩ := hother st' h
  refine ⟨s', ?_, hs'.clean.2⟩
  rwa [← run_parseWithin h.ends.2 (Nat.le_max_right st.weight _) (Nat.le_max_right st.tokens.length _)]

end Parser

/-- What is read without a report depends on the visible tokens alone. -/
theorem Program.ofTokens_congr {tokens tokens' : List Token}
    (h : visible .start tokens = visible .start tokens')
    (hclean : (Program.ofTokens tokens).diagnostics = []) :
    Program.ofTokens tokens' = Program.ofTokens tokens := by
  obtain ⟨program, s, hrun⟩ := Parser.total_parseProgram (.ofTokens tokens)
  rw [Program.ofTokens, hrun] at hclean
  obtain ⟨s', hrun', hclean'⟩ := (Parser.twins_ofTokens h).run_parseProgram hrun hclean
  rw [Program.ofTokens, Program.ofTokens, hrun, hrun']
  exact congrArg (Parsed.mk program) (hclean'.trans hclean.symm)

/-- More line feeds between parentheses, square brackets or the braces of a dictionary leave a program
    without a report as it is, and without a report. -/
theorem Program.ofTokens_inserts {tokens tokens' : List Token} (h : Inserts .start tokens tokens')
    (hclean : (Program.ofTokens tokens).diagnostics = []) :
    (Program.ofTokens tokens').diagnostics = []
      ∧ (Program.ofTokens tokens').program = (Program.ofTokens tokens).program := by
  rw [Program.ofTokens_congr h.visible_eq.symm hclean]
  exact ⟨hclean, rfl⟩

/-- The statement `(a, b) = f(#{k})` with line feeds between its brackets. -/
theorem Program.ofTokens_inserts_destructuring :
    Program.ofTokens
      [⟨.lparen, "(", none, ⟨1, 1⟩⟩, ⟨.newline, "", none, ⟨1, 2⟩⟩, ⟨.ident, "a", none, ⟨1, 2⟩⟩,
        ⟨.comma, ",", none, ⟨1, 3⟩⟩, ⟨.newline, "", none, ⟨1, 4⟩⟩, ⟨.ident, "b", none, ⟨1, 5⟩⟩,
        ⟨.rparen, ")", none, ⟨1, 6⟩⟩, ⟨.assign, "=", none, ⟨1, 8⟩⟩, ⟨.ident, "f", none, ⟨1, 10⟩⟩,
        ⟨.lparen, "(", none, ⟨1, 11⟩⟩, ⟨.hash, "#", none, ⟨1, 12⟩⟩, ⟨.newline, "", none, ⟨1, 13⟩⟩,
        ⟨.lbrace, "\x7b", none, ⟨1, 13⟩⟩, ⟨.newline, "", none, ⟨1, 14⟩⟩, ⟨.ident, "k", none, ⟨1, 14⟩⟩,
        ⟨.rbrace, "\x7d", none, ⟨1, 15⟩⟩, ⟨.rparen, ")", none, ⟨1, 16⟩⟩]
      = ⟨⟨[.destructure ⟨1, 1⟩ [.name ⟨"a", ⟨1, 2⟩⟩, .name ⟨"b", ⟨1, 5⟩⟩] .assign
          (.call ⟨1, 11⟩ (.ident ⟨"f", ⟨1, 10⟩⟩) [.dict ⟨1, 12⟩ [.shorthand ⟨"k", ⟨1, 14⟩⟩]])]⟩, []⟩ := by
  have hinserts := Inserts.keep (c := .start) (t := ⟨.lparen, "(", none, ⟨1, 1⟩⟩) <|
    .insert (t := ⟨.newline, "", none, ⟨1, 2⟩⟩) rfl rfl <|
    .keep (t := ⟨.ident, "a", none, ⟨1, 2⟩⟩) <| .keep (t := ⟨.comma, ",", none, ⟨1, 3⟩⟩) <|
    .insert (t := ⟨.newline, "", none, ⟨1, 4⟩⟩) rfl rfl <|
    .keep (t := ⟨.ident, "b", none, ⟨1, 5⟩⟩) <| .keep (t := ⟨.rparen, ")", none, ⟨1, 6⟩⟩) <|
    .keep (t := ⟨.assign, "=", none, ⟨1, 8⟩⟩) <| .keep (t := ⟨.ident, "f", none, ⟨1, 10⟩⟩) <|
    .keep (t := ⟨.lparen, "(", none, ⟨1, 11⟩⟩) <| .keep (t := ⟨.hash, "#", none, ⟨1, 12⟩⟩) <|
    .insert (t := ⟨.newline, "", none, ⟨1, 13⟩⟩) rfl rfl <|
    .keep (t := ⟨.lbrace, "\x7b", none, ⟨1, 13⟩⟩) <|
    .insert (t := ⟨.newline, "", none, ⟨1, 14⟩⟩) rfl rfl <|
    .keep (t := ⟨.ident, "k", none, ⟨1, 14⟩⟩) <| .keep (t := ⟨.rbrace, "\x7d", none, ⟨1, 15⟩⟩) <|
    .keep (t := ⟨.rparen, ")", none, ⟨1, 16⟩⟩) .nil
  obtain ⟨hclean, hprogram⟩ := Program.ofTokens_inserts hinserts rfl
  exact congrArg₂ Parsed.mk hprogram hclean

end Welle
