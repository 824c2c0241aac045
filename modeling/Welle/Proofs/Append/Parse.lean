import Welle.Proofs.Append.Program
import Welle.Proofs.Append.Tokens

set_option autoImplicit false

/-! # Texts in front of other ones

A text that is read without a report has no illegal token, so its tokens are the same in front of a
line feed. What follows the line feed starts on a line of its own: its tokens are those it has alone,
as many lines further down as the first text has. Then the two programs are read one after the
other. -/

namespace Welle

/-! ## Legal tokens -/

namespace Grammar

theorem legal_of_prefixOp {kind : Token.Kind} {op : PrefixOp} (h : PrefixOp.ofKind? kind = some op) :
    kind ≠ .illegal := by
  rintro rfl
  cases h

theorem legal_of_infixOp {kind : Token.Kind} {op : InfixOp} (h : InfixOp.ofKind? kind = some op) :
    kind ≠ .illegal := by
  rintro rfl
  cases h

theorem legal_of_assignOp {kind : Token.Kind} {op : AssignOp} (h : AssignOp.ofKind? kind = some op) :
    kind ≠ .illegal := by
  rintro rfl
  cases h

theorem legal_of_destructuringOp {kind : Token.Kind} {op : AssignOp}
    (h : Parser.destructuringOp? kind = some op) : kind ≠ .illegal := by
  rintro rfl
  cases h

theorem legal_of_isKeyword {kind : Token.Kind} (h : kind.isKeyword = true) : kind ≠ .illegal := by
  rintro rfl
  cases h

/-- Where nothing is reported, every token of a phrase has a part in it, which no illegal one has. -/
theorem Derives.legal {ts : List Token} {phrase : Phrase} (h : Derives True ts phrase) :
    ∀ t ∈ ts, t.kind ≠ .illegal := by
  induction h
  case openBlock hopen _ _ _ => exact absurd trivial hopen
  case stmtsSkip hskip _ _ => exact absurd trivial hskip
  case unary hop _ ih =>
    simpa using ⟨legal_of_prefixOp hop, ih⟩
  case binary hop _ _ ih ih' =>
    simpa [or_imp, forall_and] using ⟨ih, legal_of_infixOp hop, ih'⟩
  case assign hop _ _ _ ih ih' =>
    simpa [or_imp, forall_and] using ⟨ih, legal_of_assignOp hop, ih'⟩
  case destructure hl hr hop _ _ _ _ ih ih' =>
    simpa [or_imp, forall_and, hl, hr] using ⟨ih, legal_of_destructuringOp hop, ih'⟩
  case member hdot ht _ ih =>
    have hname : _ ≠ Token.Kind.illegal := ht.elim (fun ht => by simp [ht]) legal_of_isKeyword
    simpa [or_imp, forall_and, hdot] using ⟨ih, hname⟩
  case int ht _ => rcases ht with ht | ht <;> simp [ht]
  case float ht _ => rcases ht with ht | ht <;> simp [ht]
  case bool value ht => cases value <;> simp_all
  case result l r before ts behind e hl hr hseparators _ ih =>
    have hlegal : ∀ t ∈ before ++ behind, t.kind ≠ .illegal := fun t ht => by simp [hseparators t ht]
    simp only [List.mem_append, or_imp, forall_and] at hlegal
    simpa [or_imp, forall_and, hl, hr] using ⟨hlegal.1, ih, hlegal.2⟩
  all_goals simp_all [or_imp]

end Grammar

/-- A text that is read without a report has no illegal token. -/
theorem Program.legal_tokens {text : String} (h : (Program.parse text).diagnostics = []) :
    ∀ t ∈ Token.tokenize text, t.kind ≠ .illegal := by
  intro t ht hillegal
  refine (Program.derives_content h).legal t ?_ hillegal
  rw [Grammar.content, List.mem_filter]
  exact ⟨Token.mem_beforeEnd ht (by simp [hillegal]), by simp [hillegal]⟩

/-! ## Tokens of both texts -/

/-- Where a text goes on in the line below its last one. -/
theorem next_endPosition (text : String) :
    (endPosition text).next '\n' = Position.start.lowered (endPosition text).line := by
  simp [Position.next, Position.lowered, Position.start, Nat.add_comm]

theorem Token.tokenize_append {a : String} (h : ∀ t ∈ tokenize a, t.kind ≠ .illegal) (b : String) :
    tokenize (a ++ "\n" ++ b) = beforeEnd (tokenize a)
      ++ feed (endPosition a) :: (tokenize b).map (Token.lowered (endPosition a).line) := by
  have hend : Position.start.after a.toList = endPosition a := by
    rw [after_start_eq_endPosition, String.ofList_toList]
  have htext : (a ++ "\n" ++ b).toList = a.toList ++ '\n' :: b.toList := by
    simp
  have hfeed := tokensFrom_feed b.toList h
  rw [hend, next_endPosition, tokensFrom_lowered] at hfeed
  rw [tokenize, tokenizeAt, htext]
  exact hfeed

/-- Whether tokens start with none that continues a statement in front of them. -/
def Token.startsAfresh (tokens : List Token) : Bool :=
  (tokens.find? (·.kind ≠ .newline)).all fun t => t.kind ≠ .kwElse && t.kind ≠ .kwFinally

/-! ## Programs of both texts -/

namespace Parser

/-- The text `b` behind another one, so many lines further down. -/
def Tail.ofText (pos : Position) (b : String) (n : Nat)
    (h : Token.startsAfresh (Token.tokenize b) = true) : Tail where
  newline := Token.feed pos
  rest := (Token.tokenize b).map (Token.lowered n)
  newline_kind := rfl
  apart := by
    intro kind hkind
    have hfind : ((Token.tokenize b).map (Token.lowered n)).find? (·.kind ≠ .newline)
        = ((Token.tokenize b).find? (·.kind ≠ .newline)).map (Token.lowered n) := List.find?_map ..
    rw [hfind, Option.any_map, Option.any_eq_false]
    intro t ht
    obtain ⟨helse, hfinally⟩ : t.kind ≠ .kwElse ∧ t.kind ≠ .kwFinally := by
      rw [Token.startsAfresh, ht] at h
      simpa using h
    rcases hkind with rfl | rfl
    · exact decide_eq_false helse
    · exact decide_eq_false hfinally

/-- The state in which a text is read. -/
theorem ofTokens_tokenize (text : String) :
    State.ofTokens (Token.tokenize text) = ⟨Token.tokenize text, 0, []⟩ := by
  have htokens := ofTokens_tokensFrom .start text.toList
  rw [State.ofTokens] at htokens ⊢
  exact congrArg (State.mk · 0 []) htokens

end Parser

namespace Program

open Welle.Parser (run parseProgram)

/-- How a text is read. -/
theorem run_parse (text : String) : ∃ st : Parser.State,
    run parseProgram ⟨Token.tokenize text, 0, []⟩ = (.ok (parse text).program, st)
      ∧ st.diagnostics = (parse text).diagnostics := by
  obtain ⟨program, st, hrun⟩ := Parser.total_parseProgram (.ofTokens (Token.tokenize text))
  refine ⟨st, ?_⟩
  rw [parse, ofTokens, hrun]
  rw [Parser.ofTokens_tokenize] at hrun
  exact ⟨hrun, rfl⟩

theorem endsOnce_tokenize (text : String) :
    (Parser.State.mk (Token.tokenize text) 0 []).EndsOnce := by
  rw [← Parser.ofTokens_tokenize]
  exact Parser.endsOnce_ofTokens .start text.toList

/-- Behind a text without reports and a line feed, another text is read as it is alone, so many lines
    further down. -/
theorem parse_append {a b : String} (ha : (parse a).diagnostics = [])
    (hb : Token.startsAfresh (Token.tokenize b) = true) :
    (parse (a ++ "\n" ++ b)).program.stmts = (parse a).program.stmts
        ++ (parse b).program.stmts.map (Stmt.lowered (endPosition a).line)
      ∧ (parse (a ++ "\n" ++ b)).diagnostics
        = (parse b).diagnostics.map (Diagnostic.lowered (endPosition a).line) := by
  -- the tokens of the longer text are those of `a`, joined to those of `b` further down
  let n := (endPosition a).line
  let tail := Parser.Tail.ofText (endPosition a) b n hb
  obtain ⟨stA, hrunA, hdiagnosticsA⟩ := run_parse a
  obtain ⟨stB, hrunB, hdiagnosticsB⟩ := run_parse b
  obtain ⟨st, hrun, hdiagnostics⟩ := run_parse (a ++ "\n" ++ b)
  have htail : tail.state = (Parser.Junction.below n).state ⟨Token.tokenize b, 0, []⟩ := rfl
  have hends : tail.state.EndsOnce := by
    have hlowered := Token.tokensFrom_lowered n .start b.toList
    have hends := Parser.endsOnce_ofTokens (Position.start.lowered n) b.toList
    rw [Parser.State.EndsOnce, Parser.ofTokens_tokensFrom, hlowered] at hends
    exact hends
  have hwhole : Parser.Junction.state ⟨0, some tail⟩ ⟨Token.tokenize a, 0, []⟩
      = ⟨Token.tokenize (a ++ "\n" ++ b), 0, []⟩ := by
    rw [Token.tokenize_append (legal_tokens ha)]
    simp only [Parser.Junction.state, Parser.Junction.tokens, List.map_nil]
    congr 1
    exact congrArg (· ++ _) (List.map_id _)
  -- so `a` is read first, and then `b` as it is read alone
  have hall : run parseProgram (Parser.Junction.state ⟨0, some tail⟩ ⟨Token.tokenize a, 0, []⟩) = _ :=
    Parser.run_parseProgram_tail hends (endsOnce_tokenize a) rfl hrunA (hdiagnosticsA.trans ha)
  rw [hwhole, htail, Parser.run_parseProgram_below n (endsOnce_tokenize b) rfl, hrun, hrunB] at hall
  obtain ⟨hprogram, rfl⟩ := Prod.mk.inj hall
  have hstmts := congrArg Program.stmts (Except.ok.inj hprogram)
  rw [← hdiagnostics, ← hdiagnosticsB]
  refine ⟨?_, rfl⟩
  simpa [Stmt.map_lowered_zero, Program.lowered] using hstmts

end Program

end Welle
