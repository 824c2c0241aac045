import Welle.Proofs.Printing.Tokens

set_option autoImplicit false

/-! # What the printed text loses

A printable tree stands for itself unless there is a destructuring in it whose only target is not
starred. Each one of these makes the text of the tree that is read two characters shorter: the
parentheses around the target are not printed again. -/

namespace Welle

/-- How many destructurings lose the comma behind their only target. -/
def Node.losses (nodes : List Node) : Nat := nodes.countP Node.isLone

namespace Node

@[simp] theorem losses_nil : losses [] = 0 := rfl

@[simp] theorem losses_append (ms ns : List Node) : losses (ms ++ ns) = losses ms + losses ns :=
  List.countP_append ..

@[simp] theorem losses_expr (e : Expr) (ns : List Node) : losses (.expr e :: ns) = losses ns := by
  simp [losses, isLone]

theorem losses_stmt (s : Stmt) (ns : List Node) :
    losses (.stmt s :: ns) = (isLone (.stmt s)).toNat + losses ns := by
  cases h : isLone (.stmt s) <;> simp [losses, h, Nat.add_comm]

/-- Nothing is lost exactly if every single target is starred. -/
theorem losses_eq_zero_iff (nodes : List Node) : losses nodes = 0
    ↔ ∀ pos target op value, .stmt (.destructure pos [target] op value) ∈ nodes →
        target.isStarred = true := by
  rw [losses, List.countP_eq_zero]
  constructor
  · intro h pos target op value hmem
    have hlone := h _ hmem
    cases target <;> first
      | rfl
      | exact absurd rfl hlone
  · intro h n hn hlone
    unfold isLone at hlone
    split at hlone
    next pos targets op value =>
      unfold loneTarget? at hlone
      split at hlone
      · exact Bool.noConfusion (h _ _ _ _ hn)
      · exact Bool.noConfusion (h _ _ _ _ hn)
      · cases hlone
    · cases hlone

end Node

/-! ## Texts made of parts -/

/-- The length of a text that is made of `n` parts is theirs and that of what stands between. -/
def IsMadeOf (n : Nat) (build : List String → String) : Prop :=
  ∀ parts parts' : List String, parts.length = n → parts'.length = n →
    (build parts').length + (parts.map String.length).sum
      = (build parts).length + (parts'.map String.length).sum

section Texts

variable {n : Nat} {build : List String → String}

theorem isMadeOf_join (n : Nat) (sep : String) : IsMadeOf n (Text.join sep) := by
  intro parts parts' hparts hparts'
  induction parts generalizing n parts' with
  | nil =>
    obtain rfl := List.length_eq_zero_iff.1 (hparts'.trans hparts.symm)
    rfl
  | cons part parts ih =>
    subst hparts
    obtain ⟨part', parts', rfl⟩ := List.exists_cons_of_length_eq_add_one hparts'
    have hlength : parts'.length = parts.length := Nat.succ.inj hparts'
    have ih := ih _ parts' rfl hlength
    match parts, parts', hlength with
    | [], [], _ => simp [Text.join, Nat.add_comm]
    | _ :: _, _ :: _, _ =>
      simp only [Text.join, String.length_append, List.map_cons, List.sum_cons] at ih ⊢
      omega

theorem IsMadeOf.between (h : IsMadeOf n build) (before behind : String) :
    IsMadeOf n fun parts => before ++ build parts ++ behind := by
  intro parts parts' hparts hparts'
  have h := h parts parts' hparts hparts'
  simp only [String.length_append]
  omega

theorem isMadeOf_stringJoin (n : Nat) : IsMadeOf n String.join := by
  intro parts parts' _ _
  have hlength (parts : List String) :
      (String.join parts).length = (parts.map String.length).sum := by
    induction parts with
    | nil => rfl
    | cons part parts ih =>
      rw [String.join_cons, String.length_append, ih, List.map_cons, List.sum_cons]
  rw [hlength, hlength, Nat.add_comm]

theorem isMadeOf_renderTuple (n : Nat) : IsMadeOf n renderTuple := by
  intro parts parts' hparts hparts'
  match parts, parts', hparts, hparts' with
  | [part], [part'], _, _ =>
    simp [renderTuple]
    omega
  | [], [], _, _ => rfl
  | a :: b :: parts, a' :: b' :: parts', hparts, hparts' =>
    exact (isMadeOf_join n ", ").between "(" ")" _ _ hparts hparts'

theorem isMadeOf_renderBlock (n : Nat) : IsMadeOf n renderBlock := by
  intro parts parts' hparts hparts'
  match parts, parts', hparts, hparts' with
  | [], [], _, _ => rfl
  | a :: parts, a' :: parts', hparts, hparts' =>
    exact ((isMadeOf_join n "; ").between " " " ").between "\x7b" "\x7d" _ _ hparts hparts'

theorem isMadeOf_renderReturn (n : Nat) : IsMadeOf n renderReturn := by
  intro parts parts' hparts hparts'
  match parts, parts', hparts, hparts' with
  | [], [], _, _ => rfl
  | a :: parts, a' :: parts', hparts, hparts' =>
    have h := (isMadeOf_join n ", ").between "return " "" _ _ hparts hparts'
    simp only [String.append_empty] at h
    exact h

theorem isMadeOf_templateBody {texts : List String} (h : texts.length = n + 1) :
    IsMadeOf n (Literal.templateBody texts) := by
  intro sources sources' hsources hsources'
  induction sources generalizing n sources' texts with
  | nil =>
    obtain rfl := List.length_eq_zero_iff.1 (hsources'.trans hsources.symm)
    rfl
  | cons source sources ih =>
    subst hsources
    obtain ⟨source', sources', rfl⟩ := List.exists_cons_of_length_eq_add_one hsources'
    obtain ⟨text, texts, rfl⟩ := List.exists_cons_of_length_eq_add_one h
    have hlength : sources'.length = sources.length := Nat.succ.inj hsources'
    have ih := ih (Nat.succ.inj h) sources' rfl hlength
    simp only [Literal.templateBody, Literal.hole, String.length_append, List.map_cons,
      List.sum_cons] at ih ⊢
    omega

/-- If the parts lose characters, so does the whole text. -/
theorem IsMadeOf.length_eq {α : Type} {items : List α} {render render' : α → String}
    {nodes : α → List Node} (h : IsMadeOf items.length build)
    (hitems : ∀ a ∈ items, (render' a).length + 2 * Node.losses (nodes a) = (render a).length) :
    (build (items.map render')).length + 2 * Node.losses (items.flatMap nodes)
      = (build (items.map render)).length := by
  have hbuild := h (items.map render) (items.map render') (by simp) (by simp)
  have hsum : (items.map fun a => (render' a).length).sum + 2 * Node.losses (items.flatMap nodes)
      = (items.map fun a => (render a).length).sum := by
    clear h hbuild
    induction items with
    | nil => rfl
    | cons a items ih =>
      rw [List.forall_mem_cons] at hitems
      have ih := ih hitems.2
      simp only [List.map_cons, List.sum_cons, List.flatMap_cons, Node.losses_append]
      omega
  simp only [List.map_map, Function.comp_def] at hbuild
  omega

end Texts


/-! ## What a tree loses -/

/-- The text that a tree is read as is shorter than the text it is read from by two characters for
    each loss. -/
def Node.Shortened : Node → Prop
  | .expr e => e.reread.render.length + 2 * Node.losses e.nodes = e.render.length
  | .stmt s => s.reread.render.length + 2 * Node.losses s.nodes = s.render.length

section Parts

theorem Expr.shortened_passed {e : Expr} (h : Node.Shortened (.expr e.passed)) :
    e.reread.render.length + 2 * Node.losses e.nodes = e.render.length := by
  cases e with
  | spread pos value =>
    simp only [Expr.reread, Expr.render, Expr.nodes, String.length_append, Node.losses_expr]
    have h : value.reread.render.length + 2 * Node.losses value.nodes = value.render.length := h
    omega
  | _ => exact h

theorem Expr.shortened_between (before behind : String) {part : Option Expr}
    (h : ∀ e ∈ part, Node.Shortened (.expr e)) :
    (Expr.renderBetween before behind (part.map Expr.reread)).length
        + 2 * Node.losses (Expr.optionNodes part)
      = (Expr.renderBetween before behind part).length := by
  cases part with
  | none => rfl
  | some e =>
    have h : e.reread.render.length + 2 * Node.losses e.nodes = e.render.length := h e rfl
    simp only [Option.map_some, Expr.renderBetween, Expr.optionNodes, String.length_append]
    omega

theorem Expr.shortened_all {build : List String → String} {es : List Expr}
    (hbuild : IsMadeOf es.length build)
    (h : ∀ e ∈ es, e.reread.render.length + 2 * Node.losses e.nodes = e.render.length) :
    (build ((es.map Expr.reread).map Expr.render)).length + 2 * Node.losses (Expr.listNodes es)
      = (build (es.map Expr.render)).length := by
  rw [Expr.listNodes_eq, List.map_map]
  exact hbuild.length_eq h

theorem Block.shortened {body : Block} (h : ∀ s ∈ body.stmts, Node.Shortened (.stmt s)) :
    body.reread.render.length + 2 * Node.losses body.nodes = body.render.length := by
  obtain ⟨pos, stmts⟩ := body
  simp only [Block.reread, Block.render, Block.nodes, Stmt.listReread_eq, Stmt.renderAll_eq,
    Stmt.listNodes_eq, List.map_map]
  exact (isMadeOf_renderBlock _).length_eq h

theorem Block.shortened_behind (before : String) {body : Option Block}
    (h : ∀ b ∈ body, ∀ s ∈ b.stmts, Node.Shortened (.stmt s)) :
    (Block.renderBehind before (body.map Block.reread)).length
        + 2 * Node.losses (Block.optionNodes body)
      = (Block.renderBehind before body).length := by
  cases body with
  | none => rfl
  | some body =>
    have h := Block.shortened (h body rfl)
    simp only [Option.map_some, Block.renderBehind, Block.optionNodes, String.length_append]
    omega

theorem Stmt.shortened_behind (before : String) {s : Option Stmt}
    (h : ∀ s' ∈ s, Node.Shortened (.stmt s')) :
    (Stmt.renderBehind before (s.map Stmt.reread)).length + 2 * Node.losses (Stmt.optionNodes s)
      = (Stmt.renderBehind before s).length := by
  cases s with
  | none => rfl
  | some s =>
    have h : s.reread.render.length + 2 * Node.losses s.nodes = s.render.length := h s rfl
    simp only [Option.map_some, Stmt.renderBehind, Stmt.optionNodes, String.length_append]
    omega

theorem DictEntry.shortened {entry : DictEntry}
    (hkey : ∀ key value, entry = .pair key value → Node.Shortened (.expr key))
    (hvalue : ∀ key value, entry = .pair key value → Node.Shortened (.expr value)) :
    entry.reread.render.length + 2 * Node.losses entry.nodes = entry.render.length := by
  cases entry with
  | shorthand id => rfl
  | pair key value =>
    have hkey : key.reread.render.length + 2 * Node.losses key.nodes = key.render.length :=
      hkey _ _ rfl
    have hvalue : value.reread.render.length + 2 * Node.losses value.nodes = value.render.length :=
      hvalue _ _ rfl
    simp only [DictEntry.reread, DictEntry.render, DictEntry.nodes, String.length_append,
      Node.losses_append]
    omega

theorem DictEntry.shortened_all {entries : List DictEntry}
    (hkey : ∀ key value, .pair key value ∈ entries → Node.Shortened (.expr key))
    (hvalue : ∀ key value, .pair key value ∈ entries → Node.Shortened (.expr value)) :
    (Text.join ", " ((entries.map DictEntry.reread).map DictEntry.render)).length
        + 2 * Node.losses (DictEntry.listNodes entries)
      = (Text.join ", " (entries.map DictEntry.render)).length := by
  rw [DictEntry.listNodes_eq, List.map_map]
  exact (isMadeOf_join _ ", ").length_eq fun entry hentry =>
    DictEntry.shortened (fun key value heq => hkey key value (heq ▸ hentry))
      fun key value heq => hvalue key value (heq ▸ hentry)

theorem MatchArm.shortened {pos : Position} {values : List Expr} {result : Expr}
    (hvalues : ∀ e ∈ values, Node.Shortened (.expr e)) (hresult : Node.Shortened (.expr result)) :
    (MatchArm.mk pos values result).reread.render.length
        + 2 * Node.losses (MatchArm.mk pos values result).nodes
      = (MatchArm.mk pos values result).render.length := by
  have hall := Expr.shortened_all (isMadeOf_join _ ", ") hvalues
  have hresult :
      result.reread.render.length + 2 * Node.losses result.nodes = result.render.length := hresult
  simp only [MatchArm.reread, MatchArm.render, MatchArm.nodes, Expr.listReread_eq,
    Expr.renderAll_eq, Literal.braced, Literal.commas, String.length_append, Node.losses_append]
  omega

theorem MatchArm.shortened_all {arms : List MatchArm}
    (hvalues : ∀ pos values result, .mk pos values result ∈ arms →
      ∀ e ∈ values, Node.Shortened (.expr e))
    (hresult : ∀ pos values result, .mk pos values result ∈ arms → Node.Shortened (.expr result)) :
    (String.join ((arms.map MatchArm.reread).map MatchArm.render)).length
        + 2 * Node.losses (MatchArm.listNodes arms)
      = (String.join (arms.map MatchArm.render)).length := by
  rw [MatchArm.listNodes_eq, List.map_map]
  refine (isMadeOf_stringJoin _).length_eq fun arm harm => ?_
  obtain ⟨pos, values, result⟩ := arm
  exact MatchArm.shortened (hvalues _ _ _ harm) (hresult _ _ _ harm)

theorem SwitchCase.shortened {pos : Position} {values : List Expr} {body : Block}
    (hvalues : ∀ e ∈ values, Node.Shortened (.expr e))
    (hbody : ∀ s ∈ body.stmts, Node.Shortened (.stmt s)) :
    (SwitchCase.mk pos values body).reread.render.length
        + 2 * Node.losses (SwitchCase.mk pos values body).nodes
      = (SwitchCase.mk pos values body).render.length := by
  have hall := Expr.shortened_all (isMadeOf_join _ ", ") hvalues
  have hbody := Block.shortened hbody
  simp only [SwitchCase.reread, SwitchCase.render, SwitchCase.nodes, Expr.listReread_eq,
    Expr.renderAll_eq, Literal.commas, String.length_append, Node.losses_append]
  omega

theorem SwitchCase.shortened_all {cases : List SwitchCase}
    (hvalues : ∀ pos values body, .mk pos values body ∈ cases →
      ∀ e ∈ values, Node.Shortened (.expr e))
    (hbody : ∀ pos values body, .mk pos values body ∈ cases →
      ∀ s ∈ body.stmts, Node.Shortened (.stmt s)) :
    (String.join ((cases.map SwitchCase.reread).map SwitchCase.render)).length
        + 2 * Node.losses (SwitchCase.listNodes cases)
      = (String.join (cases.map SwitchCase.render)).length := by
  rw [SwitchCase.listNodes_eq, List.map_map]
  refine (isMadeOf_stringJoin _).length_eq fun c hc => ?_
  obtain ⟨pos, values, body⟩ := c
  exact SwitchCase.shortened (hvalues _ _ _ hc) (hbody _ _ _ hc)

theorem CatchClause.shortened {handler : Option CatchClause}
    (h : ∀ pos name body, .mk pos name body ∈ handler →
      ∀ s ∈ body.stmts, Node.Shortened (.stmt s)) :
    (CatchClause.renderOption (handler.map CatchClause.reread)).length
        + 2 * Node.losses (CatchClause.optionNodes handler)
      = (CatchClause.renderOption handler).length := by
  cases handler with
  | none => rfl
  | some handler =>
    obtain ⟨pos, name, body⟩ := handler
    have h := Block.shortened (h _ _ _ rfl)
    simp only [Option.map_some, CatchClause.renderOption, CatchClause.optionNodes,
      CatchClause.reread, CatchClause.render, CatchClause.nodes, String.length_append]
    omega

/-- A destructuring whose only target is not starred is read without its parentheses. -/
theorem Stmt.shortened_destructure (pos : Position) (targets : List Target) (op : AssignOp)
    {value : Expr} (h : Node.Shortened (.expr value)) :
    Node.Shortened (.stmt (.destructure pos targets op value)) := by
  have h : value.reread.render.length + 2 * Node.losses value.nodes = value.render.length := h
  cases hlone : loneTarget? targets with
  | none =>
    simp only [Node.Shortened, Stmt.reread, hlone, Stmt.nodes, Node.losses_stmt, Node.isLone,
      Option.isSome_none, Bool.toNat_false, Stmt.render, String.length_append]
    omega
  | some id =>
    have htarget : Literal.commas (targets.map Target.render) = id.name := by
      unfold loneTarget? at hlone
      split at hlone
      · cases hlone
        rfl
      · cases hlone
        rfl
      · cases hlone
    have hopen : "(".length = 1 ∧ ") ".length = " ".length + 1 := ⟨rfl, rfl⟩
    simp only [Node.Shortened, Stmt.reread, hlone, Stmt.nodes, Node.losses_stmt, Node.isLone,
      Option.isSome_some, Bool.toNat_true, Stmt.render, htarget, String.length_append]
    omega

end Parts

theorem Node.Printable.shortened {n : Node} (h : n.Printable) : n.Shortened := by
  -- in each case the lengths of the parts are added up, and their losses with them
  induction h with
  | ident _ | int _ | float _ | str | bool | nil =>
    simp only [Node.Shortened, Expr.reread, Expr.nodes, losses_expr, losses_nil, Nat.add_zero,
      Nat.mul_zero]
  | tuple _ ih =>
    have h := Expr.shortened_all (isMadeOf_renderTuple _) ih
    simpa only [Node.Shortened, Expr.reread, Expr.render, Expr.nodes, Expr.listReread_eq,
      Expr.renderAll_eq, losses_expr] using h
  | list _ ih =>
    have h := Expr.shortened_all (isMadeOf_join _ ", ") ih
    simp only [Node.Shortened, Expr.reread, Expr.render, Expr.nodes, Expr.listReread_eq,
      Expr.renderAll_eq, losses_expr, Literal.commas, String.length_append]
    omega
  | dict _ _ _ ihkey ihvalue =>
    have h := DictEntry.shortened_all ihkey ihvalue
    simp only [Node.Shortened, Expr.reread, Expr.render, Expr.nodes, DictEntry.listReread_eq,
      DictEntry.renderAll_eq, losses_expr, Literal.braced, Literal.commas, String.length_append]
    omega
  | template hlength _ _ _ _ ihtag ihexprs =>
    have htag := Expr.shortened_between "" " " ihtag
    have hexprs := Expr.shortened_all (isMadeOf_templateBody hlength) ihexprs
    simp only [Node.Shortened, Expr.reread, Expr.render, Expr.nodes, Expr.listReread_eq,
      Expr.optionReread_eq, Expr.renderAll_eq, losses_expr, losses_append, String.length_append]
    omega
  | func _ _ ih =>
    have h := Block.shortened ih
    simp only [Node.Shortened, Expr.reread, Expr.render, Expr.nodes, losses_expr,
      String.length_append]
    omega
  | unary _ ih =>
    simp only [Node.Shortened, Expr.reread, Expr.render, Expr.nodes, losses_expr,
      String.length_append] at ih ⊢
    omega
  | binary _ _ ihleft ihright =>
    simp only [Node.Shortened, Expr.reread, Expr.render, Expr.nodes, losses_expr, losses_append,
      String.length_append] at ihleft ihright ⊢
    omega
  | ternary _ _ _ ihcond ihthen ihelse =>
    simp only [Node.Shortened, Expr.reread, Expr.render, Expr.nodes, losses_expr, losses_append,
      String.length_append] at ihcond ihthen ihelse ⊢
    omega
  | conditional _ _ _ ihthen ihcond ihelse =>
    simp only [Node.Shortened, Expr.reread, Expr.render, Expr.nodes, losses_expr, losses_append,
      String.length_append] at ihthen ihcond ihelse ⊢
    omega
  | assign _ _ _ ihtarget ihvalue =>
    simp only [Node.Shortened, Expr.reread, Expr.render, Expr.nodes, losses_expr, losses_append,
      String.length_append] at ihtarget ihvalue ⊢
    omega
  | call _ _ ihcallee ihargs =>
    have hargs := Expr.shortened_all (isMadeOf_join _ ", ")
      fun e he => Expr.shortened_passed (ihargs e he)
    simp only [Node.Shortened, Expr.reread, Expr.render, Expr.nodes, Expr.listReread_eq,
      Expr.renderAll_eq, losses_expr, losses_append, Literal.commas, String.length_append]
      at ihcallee ⊢
    omega
  | index _ _ ihobject ihindex =>
    simp only [Node.Shortened, Expr.reread, Expr.render, Expr.nodes, losses_expr, losses_append,
      String.length_append] at ihobject ihindex ⊢
    omega
  | slice _ _ _ _ ihobject ihlow ihhigh ihstep =>
    have hlow := Expr.shortened_between "" "" ihlow
    have hhigh := Expr.shortened_between "" "" ihhigh
    have hstep := Expr.shortened_between ":" "" ihstep
    simp only [Node.Shortened, Expr.reread, Expr.render, Expr.nodes, Expr.optionReread_eq,
      losses_expr, losses_append, String.length_append] at ihobject ⊢
    omega
  | member _ _ ih =>
    simp only [Node.Shortened, Expr.reread, Expr.render, Expr.nodes, losses_expr,
      String.length_append] at ih ⊢
    omega
  | comprehension _ _ _ _ ihelem ihseq ihfilter =>
    have hfilter := Expr.shortened_between " if " "" ihfilter
    simp only [Node.Shortened, Expr.reread, Expr.render, Expr.nodes, Expr.optionReread_eq,
      losses_expr, losses_append, String.length_append] at ihelem ihseq ⊢
    omega
  | select _ _ _ _ _ ihvalue ihvalues ihresult ihfallback =>
    have harms := MatchArm.shortened_all ihvalues ihresult
    have hfallback := Expr.shortened_between " default \x7b " " \x7d" ihfallback
    simp only [Node.Shortened, Expr.reread, Expr.render, Expr.nodes, Expr.optionReread_eq,
      MatchArm.listReread_eq, MatchArm.renderAll_eq, losses_expr, losses_append, Literal.braced,
      String.length_append] at ihvalue ⊢
    omega
  | simple _ _ ih =>
    simp only [Node.Shortened, Stmt.reread, Stmt.render, Stmt.nodes, losses_stmt, isLone,
      Bool.toNat_false] at ih ⊢
    omega
  | assignStmt _ _ ih | raise _ ih | defer _ _ ih =>
    simp only [Node.Shortened, Stmt.reread, Stmt.render, Stmt.nodes, losses_stmt, isLone,
      Bool.toNat_false, String.length_append] at ih ⊢
    omega
  | indexAssign _ _ _ _ ihobject ihindex ihvalue =>
    simp only [Node.Shortened, Stmt.reread, Stmt.render, Stmt.nodes, losses_stmt, isLone,
      Bool.toNat_false, losses_append, String.length_append] at ihobject ihindex ihvalue ⊢
    omega
  | memberAssign _ _ _ _ ihobject ihvalue =>
    simp only [Node.Shortened, Stmt.reread, Stmt.render, Stmt.nodes, losses_stmt, isLone,
      Bool.toNat_false, losses_append, String.length_append] at ihobject ihvalue ⊢
    omega
  | destructure _ _ _ _ _ ih => exact Stmt.shortened_destructure _ _ _ ih
  | cond _ _ _ _ ihtest ihthen ihelse =>
    have helse := Stmt.shortened_behind " else " ihelse
    simp only [Node.Shortened, Stmt.reread, Stmt.render, Stmt.nodes, Stmt.optionReread_eq,
      losses_stmt, isLone, Bool.toNat_false, losses_append, String.length_append] at ihtest ihthen ⊢
    omega
  | whileLoop _ _ ihtest ihbody =>
    have hbody := Block.shortened ihbody
    simp only [Node.Shortened, Stmt.reread, Stmt.render, Stmt.nodes, losses_stmt, isLone,
      Bool.toNat_false, losses_append, String.length_append] at ihtest ⊢
    omega
  | forLoop _ _ _ _ _ _ ihinit ihtest ihpost ihbody =>
    have hinit := Stmt.shortened_behind "" ihinit
    have htest := Expr.shortened_between "" "" ihtest
    have hpost := Stmt.shortened_behind "" ihpost
    have hbody := Block.shortened ihbody
    simp only [Node.Shortened, Stmt.reread, Stmt.render, Stmt.nodes, Stmt.optionReread_eq,
      Expr.optionReread_eq, losses_stmt, isLone, Bool.toNat_false, losses_append,
      String.length_append]
    omega
  | forIn _ _ _ _ ihseq ihbody =>
    have hbody := Block.shortened ihbody
    simp only [Node.Shortened, Stmt.reread, Stmt.render, Stmt.nodes, losses_stmt, isLone,
      Bool.toNat_false, losses_append, String.length_append] at ihseq ⊢
    omega
  | switch _ _ _ _ _ ihvalue ihvalues ihbody ihfallback =>
    have hcases := SwitchCase.shortened_all ihvalues ihbody
    have hfallback := Block.shortened_behind " default " ihfallback
    simp only [Node.Shortened, Stmt.reread, Stmt.render, Stmt.nodes, Block.optionReread_eq,
      SwitchCase.listReread_eq, SwitchCase.renderAll_eq, losses_stmt, isLone, Bool.toNat_false,
      losses_append, Literal.braced, String.length_append] at ihvalue ⊢
    omega
  | tryCatch _ _ _ _ _ ihbody ihhandler ihfinalizer =>
    have hbody := Block.shortened ihbody
    have hhandler := CatchClause.shortened ihhandler
    have hfinalizer := Block.shortened_behind " finally " ihfinalizer
    simp only [Node.Shortened, Stmt.reread, Stmt.render, Stmt.nodes, Block.optionReread_eq,
      CatchClause.optionReread_eq, losses_stmt, isLone, Bool.toNat_false, losses_append,
      String.length_append]
    omega
  | funcStmt _ _ _ ih =>
    have hbody := Block.shortened ih
    simp only [Node.Shortened, Stmt.reread, Stmt.render, Stmt.nodes, losses_stmt, isLone,
      Bool.toNat_false, String.length_append]
    omega
  | importAs _ | importFrom _ _ | brk | cont | pass =>
    simp only [Node.Shortened, Stmt.reread, Stmt.nodes, losses_stmt, isLone, Bool.toNat_false,
      losses_nil, Nat.add_zero, Nat.mul_zero]
  | exported _ _ ih =>
    simp only [Node.Shortened, Stmt.reread, Stmt.render, Stmt.nodes, losses_stmt, isLone,
      Bool.toNat_false, String.length_append] at ih ⊢
    omega
  | ret _ ih =>
    have h := Expr.shortened_all (isMadeOf_renderReturn _) ih
    simp only [Node.Shortened, Stmt.reread, Stmt.render, Stmt.nodes, Expr.listReread_eq,
      Expr.renderAll_eq, losses_stmt, isLone, Bool.toNat_false]
    omega
  | blockStmt _ ih =>
    have h := Block.shortened ih
    simp only [Node.Shortened, Stmt.reread, Stmt.render, Stmt.nodes, losses_stmt, isLone,
      Bool.toNat_false]
    omega

/-! ## What a tree keeps -/

/-- A node without a loss stands for itself. -/
def Node.Kept : Node → Prop
  | .expr e => Node.losses e.nodes = 0 → e.reread = e
  | .stmt s => Node.losses s.nodes = 0 → s.reread = s

section Kept

theorem Node.losses_flatMap {α : Type} {items : List α} {nodes : α → List Node}
    (h : Node.losses (items.flatMap nodes) = 0) : ∀ a ∈ items, Node.losses (nodes a) = 0 := by
  intro a ha
  obtain ⟨front, behind, rfl⟩ := List.append_of_mem ha
  simp only [List.flatMap_append, List.flatMap_cons, Node.losses_append] at h
  omega

theorem Node.map_kept {α : Type} {items : List α} {nodes : α → List Node} {f : α → α}
    (h : ∀ a ∈ items, Node.losses (nodes a) = 0 → f a = a)
    (hnone : Node.losses (items.flatMap nodes) = 0) : items.map f = items := by
  have hall : ∀ a ∈ items, f a = id a := fun a ha => h a ha (Node.losses_flatMap hnone a ha)
  rw [List.map_congr_left hall, List.map_id]

theorem Expr.passed_kept {e : Expr} (h : Node.Kept (.expr e.passed))
    (hnone : Node.losses e.nodes = 0) : e.reread = e := by
  cases e with
  | spread pos value =>
    simp only [Expr.nodes, Node.losses_expr] at hnone
    rw [Expr.reread]
    exact congrArg (Expr.spread pos) (h hnone)
  | _ => exact h hnone

theorem Expr.list_kept {es : List Expr} (h : ∀ e ∈ es, Node.losses e.nodes = 0 → e.reread = e)
    (hnone : Node.losses (Expr.listNodes es) = 0) : es.map Expr.reread = es := by
  rw [Expr.listNodes_eq] at hnone
  exact Node.map_kept h hnone

theorem Expr.option_kept {e : Option Expr} (h : ∀ e' ∈ e, Node.Kept (.expr e'))
    (hnone : Node.losses (Expr.optionNodes e) = 0) : e.map Expr.reread = e := by
  cases e with
  | none => rfl
  | some e => exact congrArg some (h e rfl hnone)

theorem Block.kept {body : Block} (h : ∀ s ∈ body.stmts, Node.Kept (.stmt s))
    (hnone : Node.losses body.nodes = 0) : body.reread = body := by
  obtain ⟨pos, stmts⟩ := body
  rw [Block.nodes, Stmt.listNodes_eq] at hnone
  rw [Block.reread, Stmt.listReread_eq]
  exact congrArg (Block.mk pos) (Node.map_kept h hnone)

theorem Block.option_kept {body : Option Block} (h : ∀ b ∈ body, ∀ s ∈ b.stmts, Node.Kept (.stmt s))
    (hnone : Node.losses (Block.optionNodes body) = 0) : body.map Block.reread = body := by
  cases body with
  | none => rfl
  | some body => exact congrArg some (Block.kept (h body rfl) hnone)

theorem Stmt.option_kept {s : Option Stmt} (h : ∀ s' ∈ s, Node.Kept (.stmt s'))
    (hnone : Node.losses (Stmt.optionNodes s) = 0) : s.map Stmt.reread = s := by
  cases s with
  | none => rfl
  | some s => exact congrArg some (h s rfl hnone)

theorem DictEntry.list_kept {entries : List DictEntry}
    (hkey : ∀ key value, .pair key value ∈ entries → Node.Kept (.expr key))
    (hvalue : ∀ key value, .pair key value ∈ entries → Node.Kept (.expr value))
    (hnone : Node.losses (DictEntry.listNodes entries) = 0) :
    entries.map DictEntry.reread = entries := by
  rw [DictEntry.listNodes_eq] at hnone
  refine Node.map_kept (fun entry hentry hnone => ?_) hnone
  cases entry with
  | shorthand id => rfl
  | pair key value =>
    simp only [DictEntry.nodes, Node.losses_append, Nat.add_eq_zero_iff] at hnone
    rw [DictEntry.reread, hkey _ _ hentry hnone.1, hvalue _ _ hentry hnone.2]

theorem MatchArm.list_kept {arms : List MatchArm}
    (hvalues : ∀ pos values result, .mk pos values result ∈ arms →
      ∀ e ∈ values, Node.Kept (.expr e))
    (hresult : ∀ pos values result, .mk pos values result ∈ arms → Node.Kept (.expr result))
    (hnone : Node.losses (MatchArm.listNodes arms) = 0) : arms.map MatchArm.reread = arms := by
  rw [MatchArm.listNodes_eq] at hnone
  refine Node.map_kept (fun arm harm hnone => ?_) hnone
  obtain ⟨pos, values, result⟩ := arm
  simp only [MatchArm.nodes, Node.losses_append, Nat.add_eq_zero_iff] at hnone
  rw [MatchArm.reread, Expr.listReread_eq, Expr.list_kept (hvalues _ _ _ harm) hnone.1,
    hresult _ _ _ harm hnone.2]

theorem SwitchCase.list_kept {cases : List SwitchCase}
    (hvalues : ∀ pos values body, .mk pos values body ∈ cases →
      ∀ e ∈ values, Node.Kept (.expr e))
    (hbody : ∀ pos values body, .mk pos values body ∈ cases →
      ∀ s ∈ body.stmts, Node.Kept (.stmt s))
    (hnone : Node.losses (SwitchCase.listNodes cases) = 0) :
    cases.map SwitchCase.reread = cases := by
  rw [SwitchCase.listNodes_eq] at hnone
  refine Node.map_kept (fun c hc hnone => ?_) hnone
  obtain ⟨pos, values, body⟩ := c
  simp only [SwitchCase.nodes, Node.losses_append, Nat.add_eq_zero_iff] at hnone
  rw [SwitchCase.reread, Expr.listReread_eq, Expr.list_kept (hvalues _ _ _ hc) hnone.1,
    Block.kept (hbody _ _ _ hc) hnone.2]

theorem CatchClause.option_kept {handler : Option CatchClause}
    (h : ∀ pos name body, .mk pos name body ∈ handler → ∀ s ∈ body.stmts, Node.Kept (.stmt s))
    (hnone : Node.losses (CatchClause.optionNodes handler) = 0) :
    handler.map CatchClause.reread = handler := by
  cases handler with
  | none => rfl
  | some handler =>
    obtain ⟨pos, name, body⟩ := handler
    rw [Option.map_some, CatchClause.reread, Block.kept (h _ _ _ rfl) hnone]

end Kept

theorem Node.Printable.kept {n : Node} (h : n.Printable) : n.Kept := by
  -- where nothing is lost nothing is lost in the parts, so these stay what they are
  induction h with
  | ident _ | int _ | float _ | str | bool | nil | importAs _ | importFrom _ _ | brk | cont
  | pass => exact fun _ => rfl
  | tuple _ ih | list _ ih =>
    intro hnone
    simp only [Expr.nodes, losses_expr] at hnone
    rw [Expr.reread, Expr.listReread_eq, Expr.list_kept ih hnone]
  | dict _ _ _ ihkey ihvalue =>
    intro hnone
    simp only [Expr.nodes, losses_expr] at hnone
    rw [Expr.reread, DictEntry.listReread_eq, DictEntry.list_kept ihkey ihvalue hnone]
  | template _ _ _ _ _ ihtag ihexprs =>
    intro hnone
    simp only [Expr.nodes, losses_expr, losses_append, Nat.add_eq_zero_iff] at hnone
    rw [Expr.reread, Expr.optionReread_eq, Expr.listReread_eq, Expr.option_kept ihtag hnone.1,
      Expr.list_kept ihexprs hnone.2]
  | func _ _ ih =>
    intro hnone
    simp only [Expr.nodes, losses_expr] at hnone
    rw [Expr.reread, Block.kept ih hnone]
  | unary _ ih | member _ _ ih =>
    intro hnone
    simp only [Expr.nodes, losses_expr] at hnone
    rw [Expr.reread, ih hnone]
  | binary _ _ ihleft ihright | assign _ _ _ ihleft ihright | index _ _ ihleft ihright =>
    intro hnone
    simp only [Expr.nodes, losses_expr, losses_append, Nat.add_eq_zero_iff] at hnone
    rw [Expr.reread, ihleft hnone.1, ihright hnone.2]
  | ternary _ _ _ ihfirst ihsecond ihthird | conditional _ _ _ ihfirst ihsecond ihthird =>
    intro hnone
    simp only [Expr.nodes, losses_expr, losses_append, Nat.add_eq_zero_iff] at hnone
    rw [Expr.reread, ihfirst hnone.1.1, ihsecond hnone.1.2, ihthird hnone.2]
  | call _ _ ihcallee ihargs =>
    intro hnone
    simp only [Expr.nodes, losses_expr, losses_append, Nat.add_eq_zero_iff] at hnone
    rw [Expr.reread, ihcallee hnone.1, Expr.listReread_eq,
      Expr.list_kept (fun e he => Expr.passed_kept (ihargs e he)) hnone.2]
  | slice _ _ _ _ ihobject ihlow ihhigh ihstep =>
    intro hnone
    simp only [Expr.nodes, losses_expr, losses_append, Nat.add_eq_zero_iff] at hnone
    simp only [Expr.reread, Expr.optionReread_eq, ihobject hnone.1.1.1,
      Expr.option_kept ihlow hnone.1.1.2, Expr.option_kept ihhigh hnone.1.2,
      Expr.option_kept ihstep hnone.2]
  | comprehension _ _ _ _ ihelem ihseq ihfilter =>
    intro hnone
    simp only [Expr.nodes, losses_expr, losses_append, Nat.add_eq_zero_iff] at hnone
    rw [Expr.reread, ihelem hnone.1.1, ihseq hnone.1.2, Expr.optionReread_eq,
      Expr.option_kept ihfilter hnone.2]
  | select _ _ _ _ _ ihvalue ihvalues ihresult ihfallback =>
    intro hnone
    simp only [Expr.nodes, losses_expr, losses_append, Nat.add_eq_zero_iff] at hnone
    rw [Expr.reread, ihvalue hnone.1.1, MatchArm.listReread_eq,
      MatchArm.list_kept ihvalues ihresult hnone.1.2, Expr.optionReread_eq,
      Expr.option_kept ihfallback hnone.2]
  | simple _ _ ih | assignStmt _ _ ih | raise _ ih | defer _ _ ih | exported _ _ ih =>
    intro hnone
    simp only [Stmt.nodes, losses_stmt, Nat.add_eq_zero_iff] at hnone
    rw [Stmt.reread, ih hnone.2]
  | indexAssign _ _ _ _ ihobject ihindex ihvalue =>
    intro hnone
    simp only [Stmt.nodes, losses_stmt, losses_append, Nat.add_eq_zero_iff] at hnone
    rw [Stmt.reread, ihobject hnone.2.1.1, ihindex hnone.2.1.2, ihvalue hnone.2.2]
  | memberAssign _ _ _ _ ihobject ihvalue =>
    intro hnone
    simp only [Stmt.nodes, losses_stmt, losses_append, Nat.add_eq_zero_iff] at hnone
    rw [Stmt.reread, ihobject hnone.2.1, ihvalue hnone.2.2]
  | @destructure _ targets _ _ _ _ _ _ _ ih =>
    intro hnone
    simp only [Stmt.nodes, losses_stmt, isLone, Nat.add_eq_zero_iff, Bool.toNat_eq_zero,
      Option.isSome_eq_false_iff, Option.isNone_iff_eq_none] at hnone
    simp only [Stmt.reread, hnone.1, ih hnone.2]
  | cond _ _ _ _ ihtest ihthen ihelse =>
    intro hnone
    simp only [Stmt.nodes, losses_stmt, losses_append, Nat.add_eq_zero_iff] at hnone
    rw [Stmt.reread, ihtest hnone.2.1.1, ihthen hnone.2.1.2, Stmt.optionReread_eq,
      Stmt.option_kept ihelse hnone.2.2]
  | whileLoop _ _ ihtest ihbody | forIn _ _ _ _ ihtest ihbody =>
    intro hnone
    simp only [Stmt.nodes, losses_stmt, losses_append, Nat.add_eq_zero_iff] at hnone
    rw [Stmt.reread, ihtest hnone.2.1, Block.kept ihbody hnone.2.2]
  | forLoop _ _ _ _ _ _ ihinit ihtest ihpost ihbody =>
    intro hnone
    simp only [Stmt.nodes, losses_stmt, losses_append, Nat.add_eq_zero_iff] at hnone
    simp only [Stmt.reread, Stmt.optionReread_eq, Expr.optionReread_eq,
      Stmt.option_kept ihinit hnone.2.1.1.1, Expr.option_kept ihtest hnone.2.1.1.2,
      Stmt.option_kept ihpost hnone.2.1.2, Block.kept ihbody hnone.2.2]
  | switch _ _ _ _ _ ihvalue ihvalues ihbody ihfallback =>
    intro hnone
    simp only [Stmt.nodes, losses_stmt, losses_append, Nat.add_eq_zero_iff] at hnone
    rw [Stmt.reread, ihvalue hnone.2.1.1, SwitchCase.listReread_eq,
      SwitchCase.list_kept ihvalues ihbody hnone.2.1.2, Block.optionReread_eq,
      Block.option_kept ihfallback hnone.2.2]
  | tryCatch _ _ _ _ _ ihbody ihhandler ihfinalizer =>
    intro hnone
    simp only [Stmt.nodes, losses_stmt, losses_append, Nat.add_eq_zero_iff] at hnone
    rw [Stmt.reread, Block.kept ihbody hnone.2.1.1, CatchClause.optionReread_eq,
      CatchClause.option_kept ihhandler hnone.2.1.2, Block.optionReread_eq,
      Block.option_kept ihfinalizer hnone.2.2]
  | funcStmt _ _ _ ih | blockStmt _ ih =>
    intro hnone
    simp only [Stmt.nodes, losses_stmt, Nat.add_eq_zero_iff] at hnone
    rw [Stmt.reread, Block.kept ih hnone.2]
  | ret _ ih =>
    intro hnone
    simp only [Stmt.nodes, losses_stmt, Nat.add_eq_zero_iff] at hnone
    rw [Stmt.reread, Expr.listReread_eq, Expr.list_kept ih hnone.2]

end Welle
