import Welle.Proofs.Printing.Loops
import Welle.Proofs.Printing.Statements
import Welle.Proofs.Printing.Targets

set_option autoImplicit false

/-! # Printed trees are read back

`Node.Printable.restored` goes through the forms of printable expressions and statements. Grammars
with levels enough read each from its tokens, because they read its parts from theirs and what stands
behind a part stops it there. What they read is what the text stands for. -/

namespace Welle

open Filter (atTop)
open Token (Shape mark shape commas)

/-! ## With levels enough -/

section Eventually

variable {α β : Type} {items : List α}

/-- With levels enough for each of some items there are levels enough for all. -/
theorem eventually_forall_mem {P : α → Nat → Prop} (h : ∀ a ∈ items, ∀ᶠ depth in atTop, P a depth) :
    ∀ᶠ depth in atTop, ∀ a ∈ items, P a depth :=
  (Filter.eventually_all_finite items.finite_toSet).2 h

theorem eventually_forall_mem_option {part : Option α} {P : α → Nat → Prop}
    (h : ∀ a ∈ part, ∀ᶠ depth in atTop, P a depth) :
    ∀ᶠ depth in atTop, ∀ a ∈ part, P a depth := by
  have hall : ∀ᶠ depth in atTop, ∀ a ∈ part.toList, P a depth :=
    eventually_forall_mem (by simpa using h)
  simpa using hall

/-- With levels enough for all items of some form that are among others. -/
theorem eventually_forall_form {form : β → α} (hform : form.Injective) {P : β → Nat → Prop}
    (h : ∀ b, form b ∈ items → ∀ᶠ depth in atTop, P b depth) :
    ∀ᶠ depth in atTop, ∀ b, form b ∈ items → P b depth :=
  (Filter.eventually_all_finite (items.finite_toSet.preimage hform.injOn)).2 h

end Eventually

/-! ## Expressions -/

namespace Parser

variable {e left : Expr} {s : Stmt}

theorem Restores.of_operand (hstarts : Token.Starts e.tokens)
    (h : ∀ᶠ depth in atTop, ∀ ts rest, ts.map shape = e.tokens →
      Takes Expr.unplaced (operand (.ofDepth depth)) ts rest e.reread) : Restores e :=
  h.mono fun _ h => ⟨hstarts, fun hts _ => .of_operand (h _ _ hts)⟩

/-- An expression that is a token of its own. -/
theorem Restores.of_token {t : Shape} (htokens : e.tokens = [t]) (hstarts : Token.Starts e.tokens)
    (h : ∀ g u rest, shape u = t → Takes Expr.unplaced (operand g) [u] rest e.reread) :
    Restores e := by
  refine .of_operand hstarts (.of_forall fun depth ts rest hts => ?_)
  rw [htokens] at hts
  obtain ⟨u, rfl, hu⟩ := List.map_eq_singleton_iff.1 hts
  exact h _ u _ hu

/-- An operator in parentheses behind its left operand. -/
theorem Restores.of_enclosed {kind : Token.Kind} {behind : List Shape} {strength : Precedence}
    (hleft : Restores left)
    (htokens : e.tokens = mark .lparen :: (left.tokens ++ (mark kind :: (behind ++ [mark .rparen]))))
    (hstrength : Precedence.ofKind? kind = some strength) (hlevel : ¬strength ≤ .lowest)
    (htemplate : kind ≠ .template)
    (hop : ∀ᶠ depth in atTop, ∀ left' ts r rest, left'.unplaced = left.reread.unplaced →
      ts.map shape = mark kind :: behind → r.kind = .rparen →
      Takes Expr.unplaced (operation (.ofDepth depth) left' strength) ts (r :: rest) e.reread) :
    Restores e := by
  have hstarts : Token.Starts e.tokens := htokens ▸ Token.starts_mark rfl (by decide) _
  refine .of_operand hstarts ?_
  filter_upwards [eventually_succ (hleft.and hop)] with depth hdepth ts rest hts
  obtain ⟨depth, rfl, hleft, hop⟩ := hdepth
  rw [htokens] at hts
  obtain ⟨l, us, rfl, hl, hbody⟩ := List.map_eq_cons_iff.1 hts
  obtain ⟨ts, us, rfl, hleftTokens, hop'⟩ := List.map_eq_append_iff.1 hbody
  obtain ⟨t, us, rfl, ht, hend⟩ := List.map_eq_cons_iff.1 hop'
  obtain ⟨us, rs, rfl, hus, hclose⟩ := List.map_eq_append_iff.1 hend
  obtain ⟨r, rfl, hr⟩ := List.map_eq_singleton_iff.1 hclose
  have hkind : t.kind = kind := congrArg Prod.fst ht
  have hl : l.kind = .lparen := congrArg Prod.fst hl
  have hr : r.kind = .rparen := congrArg Prod.fst hr
  obtain ⟨s, tail, hs, hstart, -⟩ := hleft.starts
  have hinner : (ts ++ t :: us).map shape = s :: (tail ++ (mark kind :: behind)) := by
    rw [List.map_append, hleftTokens, hs, List.map_cons, ht, hus, List.cons_append]
  have hne : s.1 ≠ .newline ∧ s.1 ≠ .rparen := by
    constructor <;>
    · intro heq
      rw [heq] at hstart
      cases hstart
  have hsplit : ts ++ t :: (us ++ [r]) = (ts ++ t :: us) ++ [r] := by simp
  rw [hsplit]
  refine takes_grouped hl hr hinner hne ?_
  -- the grammar one level down reads the operands
  refine Leads.takes (.operation (hleft.leads hleftTokens (by decide)) (hkind ▸ hstrength) hlevel
    (fun h => absurd h (hkind ▸ htemplate)) fun left' hleft' => ?_) (by rw [hr]; rfl)
  refine hop left' _ r rest hleft' ?_ hr
  rw [List.map_cons, ht, hus]

/-- A prefix operator in parentheses. -/
theorem Restores.of_unary {pos : Position} {op : PrefixOp} (he : Restores e) :
    Restores (.unary pos op e) := by
  refine .of_operand (Token.starts_mark rfl (by decide) _) ?_
  filter_upwards [eventually_succ he.isRead] with depth hdepth ts rest hts
  obtain ⟨depth, rfl, he⟩ := hdepth
  obtain ⟨l, us, rfl, hl, hbody⟩ := List.map_eq_cons_iff.1 hts
  rw [← List.cons_append] at hbody
  obtain ⟨us, rs, rfl, hus, hclose⟩ := List.map_eq_append_iff.1 hbody
  obtain ⟨r, rfl, hr⟩ := List.map_eq_singleton_iff.1 hclose
  have hl : l.kind = .lparen := congrArg Prod.fst hl
  have hr : r.kind = .rparen := congrArg Prod.fst hr
  refine takes_grouped hl hr hus (by cases op <;> exact ⟨by decide, by decide⟩) ?_
  exact (Leads.of_operand (takes_unary he hus hr)).takes (by rw [hr]; rfl)

/-- A call, a member or a template behind its object. -/
theorem Restores.of_trailing {t : Shape} {behind : List Shape} (hleft : Restores left)
    (htokens : e.tokens = left.tokens ++ (t :: behind))
    (ht : t.1 = .lparen ∨ t.1 = .dot ∨ t.1 = .template)
    (htag : t.1 = .template → isTag left.reread = true)
    (hop : ∀ᶠ depth in atTop, ∀ left' ts rest, left'.unplaced = left.reread.unplaced →
      ts.map shape = t :: behind →
      Takes Expr.unplaced (operation (.ofDepth depth) left' .postfixOp) ts rest e.reread) :
    Restores e := by
  filter_upwards [hleft, hop] with depth hleft hop
  refine ⟨htokens ▸ hleft.starts.append ht _, fun {level ts rest} hts hlevel => ?_⟩
  rw [htokens] at hts
  obtain ⟨ts, us, rfl, hleftTokens, hop'⟩ := List.map_eq_append_iff.1 hts
  obtain ⟨u, us, rfl, hu, hus⟩ := List.map_eq_cons_iff.1 hop'
  have hkind : u.kind = t.1 := congrArg Prod.fst hu
  have hstrength : Precedence.ofKind? u.kind = some .postfixOp := by
    rw [hkind]
    rcases ht with h | h | h <;> rw [h] <;> rfl
  have hstronger : ¬Precedence.postfixOp ≤ level := by
    cases level <;> first
      | decide
      | exact absurd hlevel (by decide)
  refine .operation (hleft.leads hleftTokens hlevel) hstrength hstronger (hkind ▸ htag)
    fun left' hleft' => ?_
  exact hop left' _ rest hleft' hop'

theorem isTag_reread (e : Expr) : isTag e.reread = isTag e := by
  cases e <;> rfl

theorem isAssignable_reread (op : AssignOp) (e : Expr) :
    isAssignable op e.reread = isAssignable op e := by
  cases e <;> rfl

/-- A template with or without a tag in front of it. -/
theorem Restores.of_template {pos : Position} {tag : Option Expr} {parts : List String}
    {exprs : List Expr} (hlength : parts.length = exprs.length + 1)
    (hisTag : ∀ e ∈ tag, isTag e = true) (hembeds : ∀ e ∈ exprs, Template.Embeds e.render)
    (htag : ∀ e ∈ tag, Restores e)
    (hexprs : ∀ e ∈ exprs, Restores e ∧ Token.Lexes e.render.toList e.tokens) :
    Restores (.template pos tag parts exprs) := by
  have hread : ∀ᶠ depth in atTop, ∀ e ∈ exprs, IsRead (.ofDepth depth) e
      ∧ Token.Lexes e.render.toList e.tokens :=
    eventually_forall_mem fun e he =>
      (hexprs e he).1.isRead.mono fun _ h => ⟨h, (hexprs e he).2⟩
  cases tag with
  | none =>
    refine .of_operand (Token.starts_singleton rfl Token.Kind.noConfusion) ?_
    filter_upwards [hread] with depth hexprs ts rest hts
    obtain ⟨t, rfl, ht⟩ := List.map_eq_singleton_iff.1 hts
    have hkind : t.kind = .template := congrArg Prod.fst ht
    have hliteral : t.literal = Literal.templateBody parts (exprs.map Expr.render) := by
      rw [← Expr.renderAll_eq]
      exact congrArg Prod.snd ht
    unfold operand
    refine .current_bind (by rw [hkind]; decide) ?_
    simp only [hkind]
    refine .advance_bind (by rw [hkind]; rfl) ?_
    simp only [Expr.reread, Expr.optionReread, Expr.listReread_eq]
    exact takes_template hlength hembeds hexprs rfl hliteral
  | some tag =>
    have htokens : (Expr.template pos (some tag) parts exprs).tokens
        = tag.tokens ++ [(Token.Kind.template, Literal.templateBody parts (Expr.renderAll exprs))] := by
      simp only [Expr.tokens, Expr.tokensBetween, List.nil_append, List.append_nil]
    refine .of_trailing (htag tag rfl) htokens (.inr (.inr rfl))
      (fun _ => by rw [isTag_reread, hisTag tag rfl]) ?_
    filter_upwards [hread] with depth hexprs left' ts rest hleft' hts
    obtain ⟨t, rfl, ht⟩ := List.map_eq_singleton_iff.1 hts
    have hkind : t.kind = .template := congrArg Prod.fst ht
    have hliteral : t.literal = Literal.templateBody parts (exprs.map Expr.render) := by
      rw [← Expr.renderAll_eq]
      exact congrArg Prod.snd ht
    unfold operation
    refine .current_bind (by rw [hkind]; decide) ?_
    simp only [hkind, AssignOp.ofKind?]
    refine .advance_bind (by rw [hkind]; rfl) ?_
    simp only [Expr.reread, Expr.optionReread, Expr.listReread_eq]
    exact takes_template hlength hembeds hexprs (congrArg some hleft') hliteral

/-! ## Nodes -/

/-- What it means that a node is read back. A statement that can be a clause is read as one. -/
def RestoresNode : Node → Prop
  | .expr e => Restores e
  | .stmt s => ∀ᶠ depth in atTop, IsStated (statement (.ofDepth depth)) s
      ∧ (s.isSimple = true → IsClause (.ofDepth depth) s)

theorem RestoresNode.isStated (h : RestoresNode (.stmt s)) :
    ∀ᶠ depth in atTop, IsStated (Grammar.ofDepth depth).statement s := by
  filter_upwards [eventually_succ h] with depth hdepth
  obtain ⟨depth, rfl, hs, -⟩ := hdepth
  exact hs

theorem RestoresNode.isClause (h : RestoresNode (.stmt s)) (hs : s.isSimple = true) :
    ∀ᶠ depth in atTop, IsClause (.ofDepth depth) s :=
  h.mono fun _ h => h.2 hs

theorem restoresNode_clause (h : ∀ᶠ depth in atTop, IsClause (.ofDepth depth) s) :
    RestoresNode (.stmt s) :=
  h.mono fun _ h => ⟨h.isStated, fun _ => h⟩

theorem restoresNode_stmt (hs : s.isSimple = false)
    (h : ∀ᶠ depth in atTop, IsStated (statement (.ofDepth depth)) s) : RestoresNode (.stmt s) :=
  h.mono fun _ h => ⟨h, fun hsimple => absurd (hs.symm.trans hsimple) Bool.false_ne_true⟩

theorem isRead_list {es : List Expr} (h : ∀ e ∈ es, Restores e) :
    ∀ᶠ depth in atTop, ∀ e ∈ es, IsRead (.ofDepth depth) e :=
  eventually_forall_mem fun e he => (h e he).isRead

theorem isRead_option {part : Option Expr} (h : ∀ e ∈ part, Restores e) :
    ∀ᶠ depth in atTop, ∀ e ∈ part, IsRead (.ofDepth depth) e :=
  eventually_forall_mem_option fun e he => (h e he).isRead

theorem isStated_list {stmts : List Stmt} (h : ∀ s ∈ stmts, RestoresNode (.stmt s)) :
    ∀ᶠ depth in atTop, ∀ s ∈ stmts, IsStated (Grammar.ofDepth depth).statement s :=
  eventually_forall_mem fun s hs => (h s hs).isStated

theorem isStated_option {body : Option Block}
    (h : ∀ b ∈ body, ∀ s ∈ b.stmts, RestoresNode (.stmt s)) :
    ∀ᶠ depth in atTop, ∀ b ∈ body, ∀ s ∈ b.stmts, IsStated (Grammar.ofDepth depth).statement s :=
  eventually_forall_mem_option fun b hb => isStated_list (h b hb)

/-- Two levels are enough for all names. -/
theorem isRead_ident : ∀ᶠ depth in atTop, ∀ id, IsRead (.ofDepth depth) (.ident id) := by
  have hled : ∀ᶠ depth in atTop, ∀ id, IsLed (.ofDepth depth) (.ident id) :=
    .of_forall fun depth id => isLed_ident _ id
  filter_upwards [eventually_succ hled] with depth hdepth id
  obtain ⟨depth, rfl, hled⟩ := hdepth
  exact (hled id).isRead

end Parser

open Welle.Parser

/-- A printable node is read back from its tokens wherever it stands. -/
theorem Node.Printable.restored {n : Node} (h : n.Printable) : RestoresNode n := by
  have hstarts {e : Expr} (h : Node.Printable (.expr e)) : Token.Starts e.tokens :=
    Expr.Printable.starts h
  induction h with
  | ident h => exact .of_token rfl (hstarts (.ident h)) fun g t rest ht => takes_ident ht
  | int hn =>
    exact .of_token rfl (hstarts (.int hn)) fun g t rest ht => takes_int ht (Numeral.parse_toString hn)
  | float hvalue =>
    exact .of_token rfl (hstarts (.float hvalue)) fun g t rest ht =>
      takes_float ht (Numeral.parse_writeFloat hvalue)
  | str => exact .of_token rfl (hstarts .str) fun g t rest ht => takes_str ht
  | bool => exact .of_token rfl (hstarts .bool) fun g t rest ht => takes_bool ht
  | nil => exact .of_token rfl (hstarts .nil) fun g t rest ht => takes_nil ht
  | tuple hitems ih =>
    refine .of_operand (hstarts (.tuple hitems)) ?_
    filter_upwards [isRead_list ih] with depth hread ts rest hts
    simp only [Expr.tokens, Expr.listTokens_eq] at hts
    simpa only [Expr.reread, Expr.listReread_eq] using takes_tuple hread hts
  | list hitems ih =>
    refine .of_operand (hstarts (.list hitems)) ?_
    filter_upwards [isRead_list ih] with depth hread ts rest hts
    simp only [Expr.tokens, Expr.listTokens_eq] at hts
    simpa only [Expr.reread, Expr.listReread_eq] using takes_list hread hts
  | @dict _ entries hnames hkeys hvalues ihkey ihvalue =>
    refine .of_operand (hstarts (.dict hnames hkeys hvalues)) ?_
    have hinjective : Function.Injective fun kv : Expr × Expr => DictEntry.pair kv.1 kv.2 := by
      rintro ⟨key, value⟩ ⟨key', value'⟩ heq
      cases heq
      rfl
    have hread : ∀ᶠ depth in atTop, ∀ kv : Expr × Expr, .pair kv.1 kv.2 ∈ entries →
        IsRead (.ofDepth depth) kv.1 ∧ IsRead (.ofDepth depth) kv.2 :=
      eventually_forall_form hinjective fun kv hkv =>
        (Restores.isRead (ihkey kv.1 kv.2 hkv)).and (Restores.isRead (ihvalue kv.1 kv.2 hkv))
    filter_upwards [hread] with depth hread ts rest hts
    simp only [Expr.tokens, DictEntry.listTokens_eq] at hts
    simp only [Expr.reread, DictEntry.listReread_eq]
    refine takes_dict (fun entry hentry => isItem_entry ?_) hts
    rintro key value rfl
    exact hread (key, value) hentry
  | template hlength htag hembeds _ hexprs ihtag ihexprs =>
    exact .of_template hlength htag hembeds ihtag fun e he =>
      ⟨ihexprs e he, Expr.Printable.lexes (hexprs e he)⟩
  | func hparams hbody ih =>
    refine .of_operand (hstarts (.func hparams hbody)) ?_
    filter_upwards [isStated_list ih] with depth hstmts ts rest hts
    exact takes_funcLiteral hstmts hts
  | unary hoperand ih => exact .of_unary ih
  | @binary _ op _ _ _ _ ihleft ihright =>
    obtain ⟨strength, hstrength, hlevel, hweak, htemplate⟩ := op.ofKind?_precedence
    refine .of_enclosed ihleft rfl hstrength hlevel htemplate ?_
    filter_upwards [Restores.isRead ihright] with depth hright left' ts r rest hleft' hts hr
    exact takes_binary hright hweak hleft' hts hr
  | @ternary pos cond thenE elseE _ _ _ ihcond ihthen ihelse =>
    have htokens : (Expr.ternary pos cond thenE elseE).tokens = mark .lparen :: (cond.tokens
        ++ (mark .question :: ((thenE.tokens ++ (mark .colon :: elseE.tokens))
          ++ [mark .rparen]))) := by
      simp only [Expr.tokens, List.append_assoc, List.cons_append]
    refine .of_enclosed ihcond htokens rfl (by decide) (by decide) ?_
    filter_upwards [Restores.isRead ihthen, Restores.isRead ihelse]
      with depth hthen helse left' ts r rest hleft' hts hr
    exact takes_ternary hthen helse (by decide) hleft' hts hr
  | @conditional pos thenE cond elseE _ _ _ ihthen ihcond ihelse =>
    have htokens : (Expr.conditional pos thenE cond elseE).tokens = mark .lparen :: (thenE.tokens
        ++ (mark .kwIf :: ((cond.tokens ++ (mark .kwElse :: elseE.tokens))
          ++ [mark .rparen]))) := by
      simp only [Expr.tokens, List.append_assoc, List.cons_append]
    refine .of_enclosed ihthen htokens rfl (by decide) (by decide) ?_
    filter_upwards [Restores.isRead ihcond, Restores.isRead ihelse]
      with depth hcond helse left' ts r rest hleft' hts hr
    exact takes_conditional hcond helse (by decide) hleft' hts hr
  | @assign _ _ op _ hplace _ _ ihtarget ihvalue =>
    obtain ⟨hstrength, htemplate⟩ := op.ofKind?_precedence
    refine .of_enclosed ihtarget rfl hstrength (by decide) htemplate ?_
    filter_upwards [Restores.isRead ihvalue] with depth hvalue left' ts r rest hleft' hts hr
    exact takes_assign hvalue ((isAssignable_reread op _).trans hplace) hleft' (by decide) hts
      (by rw [hr]; rfl)
  | call _ _ ihcallee ihargs =>
    refine .of_trailing ihcallee rfl (.inl rfl) (fun h => (by cases h)) ?_
    have hread := eventually_forall_mem fun e he => Restores.isRead (ihargs e he)
    filter_upwards [hread] with depth hargs left' ts rest hleft' hts
    rw [Expr.listTokens_eq] at hts
    simpa only [Expr.reread, Expr.listReread_eq] using
      takes_call (fun e he => isItem_arg (hargs e he)) hleft' hts
  | @index pos object index _ _ ihobject ihindex =>
    have htokens : (Expr.index pos object index).tokens = mark .lparen :: (object.tokens
        ++ (mark .lbracket :: ((index.tokens ++ [mark .rbracket]) ++ [mark .rparen]))) := by
      simp only [Expr.tokens, List.append_assoc, List.cons_append, List.nil_append]
    refine .of_enclosed ihobject htokens rfl (by decide) (by decide) ?_
    filter_upwards [Restores.isRead ihindex] with depth hindex left' ts r rest hleft' hts _
    exact takes_index hindex hleft' hts
  | @slice pos object low high step _ _ _ _ ihobject ihlow ihhigh ihstep =>
    have htokens : (Expr.slice pos object low high step).tokens = mark .lparen :: (object.tokens
        ++ (mark .lbracket :: ((Expr.tokensBetween [] [] low
          ++ (mark .colon :: (Expr.tokensBetween [] [] high
            ++ (Expr.tokensBetween [mark .colon] [] step ++ [mark .rbracket]))))
          ++ [mark .rparen]))) := by
      simp only [Expr.tokens, List.append_assoc, List.cons_append, List.nil_append]
    refine .of_enclosed ihobject htokens rfl (by decide) (by decide) ?_
    filter_upwards [isRead_option ihlow, isRead_option ihhigh, isRead_option ihstep]
      with depth hlow hhigh hstep left' ts r rest hleft' hts _
    simpa only [Expr.reread, Expr.optionReread_eq] using takes_slice hlow hhigh hstep hleft' hts
  | member _ _ ih =>
    refine .of_trailing ih rfl (.inr (.inl rfl)) (fun h => (by cases h)) ?_
    exact .of_forall fun depth left' ts rest hleft' hts => takes_member hleft' hts
  | comprehension hname helem hseq hfilter ihelem ihseq ihfilter =>
    refine .of_operand (hstarts (.comprehension hname helem hseq hfilter)) ?_
    filter_upwards [Restores.isRead ihelem, Restores.isRead ihseq, isRead_option ihfilter]
      with depth helem hseq hfilter ts rest hts
    simpa only [Expr.reread, Expr.optionReread_eq] using takes_comprehension helem hseq hfilter hts
  | @select _ value arms fallback hvalue hne hvalues hresults hfallback ihvalue ihvalues ihresult
      ihfallback =>
    refine .of_operand (hstarts (.select hvalue hne hvalues hresults hfallback)) ?_
    have hinjective : Function.Injective fun arm : Position × List Expr × Expr =>
        MatchArm.mk arm.1 arm.2.1 arm.2.2 := by
      rintro ⟨pos, values, result⟩ ⟨pos', values', result'⟩ heq
      cases heq
      rfl
    have hread : ∀ᶠ depth in atTop, ∀ arm : Position × List Expr × Expr,
        .mk arm.1 arm.2.1 arm.2.2 ∈ arms →
        (∀ e ∈ arm.2.1, IsRead (.ofDepth depth) e) ∧ IsRead (.ofDepth depth) arm.2.2 :=
      eventually_forall_form hinjective fun arm harm =>
        (isRead_list (ihvalues _ _ _ harm)).and (Restores.isRead (ihresult _ _ _ harm))
    filter_upwards [Restores.isRead ihvalue, hread, isRead_option ihfallback]
      with depth hvalue harms hfallback ts rest hts
    simp only [Expr.tokens, MatchArm.listTokens_eq] at hts
    simpa only [Expr.reread, MatchArm.listReread_eq, Expr.optionReread_eq] using
      takes_select hvalue hne (fun pos values result harm => (harms (pos, values, result) harm).1)
        (fun pos values result harm => (harms (pos, values, result) harm).2) hfallback hts
  | simple hsimple hvalue ih =>
    refine restoresNode_clause ?_
    filter_upwards [ih] with depth hled
    exact isClause_expr hsimple (Node.Printable.fenced hvalue) hled
  | assignStmt _ _ ih =>
    refine restoresNode_clause ?_
    filter_upwards [Restores.isRead ih] with depth hvalue
    exact isClause_assign hvalue
  | indexAssign hop hobject _ _ ihobject ihindex ihvalue =>
    refine restoresNode_clause ?_
    filter_upwards [ihobject, Restores.isRead ihindex, Restores.isRead ihvalue]
      with depth hled hindex hvalue
    exact isClause_indexAssign hop (Node.Printable.fenced hobject) hled hindex hvalue
  | memberAssign hop _ hobject _ ihobject ihvalue =>
    refine restoresNode_clause ?_
    filter_upwards [ihobject, Restores.isRead ihvalue] with depth hled hvalue
    exact isClause_memberAssign hop (Node.Printable.fenced hobject) hled hvalue
  | destructure hne hstars hop htargets _ ih =>
    refine restoresNode_stmt rfl ?_
    filter_upwards [isRead_ident, Restores.isRead ih] with depth hnames hvalue
    exact isStated_destructure hne hstars hop htargets hnames hvalue
  | cond hclosed _ _ _ ihtest ihthen ihelse =>
    refine restoresNode_stmt rfl ?_
    have helse := eventually_forall_mem_option fun s hs => (ihelse s hs).isStated
    filter_upwards [Restores.isRead ihtest, RestoresNode.isStated ihthen, helse]
      with depth htest hthen helse
    exact isStated_cond htest hclosed hthen helse
  | whileLoop _ _ ihtest ihbody =>
    refine restoresNode_stmt rfl ?_
    filter_upwards [Restores.isRead ihtest, isStated_list ihbody] with depth htest hstmts
    exact isStated_whileLoop htest hstmts
  | forLoop hinit hpost _ _ _ _ ihinit ihtest ihpost ihbody =>
    refine restoresNode_stmt rfl ?_
    have hinits := eventually_forall_mem_option fun s hs => (ihinit s hs).isClause (hinit s hs)
    have hposts := eventually_forall_mem_option fun s hs => (ihpost s hs).isClause (hpost s hs)
    filter_upwards [hinits, isRead_option ihtest, hposts, isStated_list ihbody]
      with depth hinit htest hpost hstmts
    exact isStated_forLoop hinit htest hpost hstmts
  | @forIn _ _ value _ _ _ _ _ _ ihseq ihbody =>
    refine restoresNode_stmt rfl ?_
    filter_upwards [Restores.isRead ihseq, isStated_list ihbody] with depth hseq hstmts
    cases value with
    | none => exact isStated_forKey hseq hstmts
    | some value => exact isStated_forPair hseq hstmts
  | @switch _ _ cases _ _ hne _ _ _ ihvalue ihvalues ihbody ihfallback =>
    refine restoresNode_stmt rfl ?_
    have hinjective : Function.Injective fun c : Position × List Expr × Block =>
        SwitchCase.mk c.1 c.2.1 c.2.2 := by
      rintro ⟨pos, values, body⟩ ⟨pos', values', body'⟩ heq
      cases heq
      rfl
    have hread : ∀ᶠ depth in atTop, ∀ c : Position × List Expr × Block,
        .mk c.1 c.2.1 c.2.2 ∈ cases → (∀ e ∈ c.2.1, IsRead (.ofDepth depth) e)
          ∧ ∀ s ∈ c.2.2.stmts, IsStated (Grammar.ofDepth depth).statement s :=
      eventually_forall_form hinjective fun c hc =>
        (isRead_list (ihvalues _ _ _ hc)).and (isStated_list (ihbody _ _ _ hc))
    filter_upwards [Restores.isRead ihvalue, hread, isStated_option ihfallback]
      with depth hvalue hcases hfallback
    exact isStated_switch hvalue hne (fun pos values body hc => (hcases (pos, values, body) hc).1)
      (fun pos values body hc => (hcases (pos, values, body) hc).2) hfallback
  | @tryCatch _ _ handler _ hsome _ _ _ _ ihbody ihhandler ihfinalizer =>
    refine restoresNode_stmt rfl ?_
    have hhandler : ∀ᶠ depth in atTop, ∀ pos name body, .mk pos name body ∈ handler →
        ∀ s ∈ body.stmts, IsStated (Grammar.ofDepth depth).statement s := by
      cases handler with
      | none => exact .of_forall fun depth pos name body h => (by cases h)
      | some clause =>
        obtain ⟨pos, name, body⟩ := clause
        filter_upwards [isStated_list (ihhandler pos name body rfl)] with depth h _ _ _ heq
        cases heq
        exact h
    filter_upwards [isStated_list ihbody, hhandler, isStated_option ihfinalizer]
      with depth hbody hhandler hfinalizer
    exact isStated_tryCatch hsome hbody hhandler hfinalizer
  | funcStmt _ _ _ ih =>
    refine restoresNode_stmt rfl ?_
    filter_upwards [isStated_list ih] with depth hstmts
    exact isStated_func hstmts
  | importAs _ => exact restoresNode_stmt rfl (.of_forall fun depth => isStated_importAs)
  | importFrom hne _ => exact restoresNode_stmt rfl (.of_forall fun depth => isStated_importFrom hne)
  | exported hs _ ih =>
    refine restoresNode_stmt rfl ?_
    filter_upwards [RestoresNode.isStated ih] with depth hstmt
    exact isStated_exported hs hstmt
  | ret _ ih =>
    refine restoresNode_stmt rfl ?_
    filter_upwards [isRead_list ih] with depth hvalues
    exact isStated_ret hvalues
  | brk => exact restoresNode_stmt rfl (.of_forall fun depth => isStated_brk)
  | cont => exact restoresNode_stmt rfl (.of_forall fun depth => isStated_cont)
  | pass => exact restoresNode_stmt rfl (.of_forall fun depth => isStated_pass)
  | raise _ ih =>
    refine restoresNode_stmt rfl ?_
    filter_upwards [Restores.isRead ih] with depth hvalue
    exact isStated_raise hvalue
  | defer hcall _ ih =>
    refine restoresNode_stmt rfl ?_
    filter_upwards [Restores.isRead ih] with depth hcall'
    exact isStated_defer hcall hcall'
  | blockStmt _ ih =>
    refine restoresNode_stmt rfl ?_
    filter_upwards [isStated_list ih] with depth hstmts
    exact isStated_block hstmts

end Welle
