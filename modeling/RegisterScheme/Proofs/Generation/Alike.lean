import RegisterScheme.Proofs.Template.Alike
import RegisterScheme.Proofs.Template.Height

/-! Procedures that differ in their places and in the objects of their quotations have the same
instructions, or else both have no template. -/

namespace RegisterScheme

theorem Exprs.Alike.forall₂ {r : Renumbering} {n : Nat} {es es' : List Expr}
    (hes : Exprs.Alike r n es es') : List.Forall₂ (Expr.Alike r n) es es' := by
  induction es generalizing es' with
  | nil =>
    cases hes
    exact .nil
  | cons e es ih =>
    cases hes with
    | cons h hs => exact .cons h (ih hs)

theorem Expr.Alike.isSimple_eq {r : Renumbering} {n : Nat} {e e' : Expr} (h : e.Alike r n e') :
    e'.isSimple = e.isSimple := by
  cases h <;> rfl

theorem Expr.Alike.all_isSimple {r : Renumbering} {n : Nat} {es es' : List Expr}
    (hes : List.Forall₂ (Expr.Alike r n) es es') : es'.all Expr.isSimple = es.all Expr.isSimple := by
  induction hes with
  | nil => rfl
  | cons h _ ih => rw [List.all_cons, List.all_cons, h.isSimple_eq, ih]

mutual

theorem Expr.Alike.endsInAssignment_eq {r : Renumbering} {n : Nat} {e e' : Expr} :
    e.Alike r n e' → e'.endsInAssignment = e.endsInAssignment
  | .literal _ | .reference _ | .assignment _ _ | .branch _ _ _ | .cond _ _ | .operation _
  | .call _ _ | .lambda _ => rfl
  | .sequence hs => hs.lastEndsInAssignment_eq

theorem Exprs.Alike.lastEndsInAssignment_eq {r : Renumbering} {n : Nat} {es es' : List Expr} :
    Exprs.Alike r n es es' → Expr.lastEndsInAssignment es' = Expr.lastEndsInAssignment es
  | .nil => rfl
  | .cons h .nil => h.endsInAssignment_eq
  | .cons _ (.cons h hs) => (Exprs.Alike.cons h hs).lastEndsInAssignment_eq

end

namespace Lowering

open Generating

/-- Inside procedures, what is alike becomes code that is alike. -/
structure Respects (inner : Lowering) : Prop where
  expr : ∀ (r : Renumbering) n scope d e e', e.Alike r (n + 1) e' →
    Generating.Alike (inner.expr scope d e) (inner.expr scope d e') Code.Alike
  function : ∀ (r : Renumbering) n f f', f.Alike r (n + 1) f' →
    Agree Template.Alike (inner.function f) (inner.function f')

namespace Respects

section

variable {inner : Lowering} (h : inner.Respects) {s : Renumbering} {n : Nat} (scope : Scope)
  (r : Register) (place place' : Option Location) {e e' : Expr} {es es' : List Expr}

include h

theorem into (he : e.Alike s (n + 1) e') :
    Generating.Alike (inner.into scope r e) (inner.into scope r e') Code.Alike :=
  h.expr _ _ _ _ _ _ he

theorem effect (he : e.Alike s (n + 1) e') :
    Generating.Alike (inner.effect scope e) (inner.effect scope e') Code.Alike :=
  h.expr _ _ _ _ _ _ he

theorem toTemporary (he : e.Alike s (n + 1) e') : Generating.Alike (inner.toTemporary scope e)
    (inner.toTemporary scope e') fun p p' => p.1.Alike p'.1 ∧ p.2 = p'.2 := by
  refine alike_allocate.same fun r => ?_
  refine (h.into scope r he).next fun _ _ hcode => ?_
  exact (alike_freeFrom _ _).same fun _ => .pure ⟨hcode, rfl⟩

theorem toRegister (he : e.Alike s (n + 1) e') : Generating.Alike (inner.toRegister scope e)
    (inner.toRegister scope e') fun p p' => p.1.Alike p'.1 ∧ p.2 = p'.2 := by
  have hother := h.toTemporary scope he
  cases he with
  | @reference _ v v' _ _ hv =>
    obtain rfl : v = v' := hv
    cases v with
    | localVariable r => exact .pure ⟨.nil, rfl⟩
    | global slot | captured slot => exact hother
  | literal | assignment | branch | cond | operation | call | lambda | sequence => exact hother

theorem registerOperand (he : e.Alike s (n + 1) e') : Generating.Alike
    (do
      let (code, r) ← inner.toRegister scope e
      return (code, Operand.register r))
    (do
      let (code, r) ← inner.toRegister scope e'
      return (code, Operand.register r)) fun p p' => p.1.Alike p'.1 ∧ p.2 = p'.2 := by
  refine (h.toRegister scope he).next ?_
  rintro ⟨code, r⟩ ⟨code', _⟩ ⟨hcode, rfl⟩
  exact .pure ⟨hcode, rfl⟩

theorem toOperand (he : e.Alike s (n + 1) e') : Generating.Alike (inner.toOperand scope e)
    (inner.toOperand scope e') fun p p' => p.1.Alike p'.1 ∧ p.2 = p'.2 := by
  have hregister := h.registerOperand scope he
  unfold Lowering.toOperand
  cases he with
  | literal hq =>
    refine Alike.same (Alongside.map (alike_literal hq.datum) ?_) fun constant? => ?_
    · rintro _ index _ _ rfl
      rfl
    · cases constant? with
      | some operand => exact .pure ⟨.nil, rfl⟩
      | none => exact hregister
  | reference | assignment | branch | cond | operation | call | lambda | sequence =>
    exact Alike.same (.pure rfl) fun constant? => by
      cases constant? with
      | some operand => exact .pure ⟨.nil, rfl⟩
      | none => exact hregister

omit h in
theorem atomOperand (a : Atom) : Generating.Alike (Lowering.atomOperand a place)
    (Lowering.atomOperand a place') fun p p' => p.1.Alike p'.1 ∧ p.2 = p'.2 := by
  refine Alike.same (alike_literal rfl) fun index => ?_
  split
  · exact .pure ⟨.nil, rfl⟩
  · exact alike_allocate.same fun r => (alike_emit _ _ _).next fun _ _ hcode =>
      .pure ⟨hcode, rfl⟩

omit h in
/-- An operand whose code has been generated, in front of others. -/
theorem moreOperands {code code' : Code} (hcode : code.Alike code') (operand : Operand)
    (hes : Generating.Alike (inner.operands scope es) (inner.operands scope es')
      fun p p' => p.1.Alike p'.1 ∧ p.2 = p'.2) :
    Generating.Alike
      (do
        let (more, rest) ← inner.operands scope es
        return (code ++ more, operand :: rest))
      (do
        let (more, rest) ← inner.operands scope es'
        return (code' ++ more, operand :: rest)) fun p p' => p.1.Alike p'.1 ∧ p.2 = p'.2 := by
  refine hes.next ?_
  rintro ⟨more, rest⟩ ⟨more', _⟩ ⟨hmore, rfl⟩
  exact .pure ⟨hcode.append hmore, rfl⟩

theorem nextOperand (he : e.Alike s (n + 1) e')
    (hes : Generating.Alike (inner.operands scope es) (inner.operands scope es')
      fun p p' => p.1.Alike p'.1 ∧ p.2 = p'.2) :
    Generating.Alike
      (do
        let (code, operand) ← inner.toOperand scope e
        let (more, rest) ← inner.operands scope es
        return (code ++ more, operand :: rest))
      (do
        let (code, operand) ← inner.toOperand scope e'
        let (more, rest) ← inner.operands scope es'
        return (code ++ more, operand :: rest)) fun p p' => p.1.Alike p'.1 ∧ p.2 = p'.2 := by
  refine (h.toOperand scope he).next ?_
  rintro ⟨code, operand⟩ ⟨code', _⟩ ⟨hcode, rfl⟩
  exact moreOperands scope hcode operand hes

theorem operands (hes : Exprs.Alike s (n + 1) es es') :
    Generating.Alike (inner.operands scope es) (inner.operands scope es')
      fun p p' => p.1.Alike p'.1 ∧ p.2 = p'.2 := by
  have hall := hes.forall₂
  clear hes
  induction hall with
  | nil => exact .pure ⟨.nil, rfl⟩
  | @cons e e' es es' he hes ih =>
    have hplain := h.nextOperand scope he ih
    have hcopied := h.toTemporary scope he
    unfold Lowering.operands
    rw [Expr.Alike.all_isSimple hes]
    cases he with
    | @reference _ v v' _ _ hv =>
      obtain rfl : v = v' := hv
      cases v with
      | localVariable r =>
        dsimp only
        split
        · exact hplain
        · refine hcopied.next ?_
          rintro ⟨code, r⟩ ⟨code', _⟩ ⟨hcode, rfl⟩
          exact moreOperands scope hcode (.register r) ih
      | global slot | captured slot => exact hplain
    | literal | assignment | branch | cond | operation | call | lambda | sequence => exact hplain

omit h in
theorem loadQuotation {q q' : Quotation} (hq : q'.datum = q.datum) : Generating.Alike
    (Lowering.loadQuotation r q place) (Lowering.loadQuotation r q' place') Code.Alike := by
  unfold Lowering.loadQuotation
  rw [hq]
  split
  · exact alike_emit _ _ _
  · exact alike_emit _ _ _
  · exact (alike_literal hq).same fun _ => alike_emit _ _ _

omit h in
theorem loadUnspecified : Generating.Alike (Lowering.loadUnspecified r place)
    (Lowering.loadUnspecified r place') Code.Alike :=
  alike_unspecified.same fun _ => alike_emit _ _ _

omit h in
theorem loadVariable (v : VariableRef) : Generating.Alike (Lowering.loadVariable scope r v place)
    (Lowering.loadVariable scope r v place') Code.Alike := by
  unfold Lowering.loadVariable
  split
  · split
    · exact .pure .nil
    · exact alike_emit _ _ _
  · exact alike_emit _ _ _
  · exact (alike_globalName _ _).same fun _ => alike_emit _ _ _

theorem assign (target : VariableRef) (he : e.Alike s (n + 1) e') : Generating.Alike
    (inner.assign scope target e place) (inner.assign scope target e' place') Code.Alike := by
  refine .get fun b b' hb => ?_
  rw [hb.free]
  cases target with
  | localVariable r =>
    have hdirect : Generating.Alike
        (do
          let code ← inner.into scope r e
          freeFrom scope b.free
          return code)
        (do
          let code ← inner.into scope r e'
          freeFrom scope b.free
          return code) Code.Alike :=
      (h.into scope r he).next fun _ _ hcode => alike_freed scope hcode _
    have hmoved : Generating.Alike
        (do
          let scratch ← allocate
          let code ← inner.into scope scratch e
          let code ← Pure.pure (code ++ (← emit place (Instruction.ab .move r scratch)))
          freeFrom scope b.free
          return code)
        (do
          let scratch ← allocate
          let code ← inner.into scope scratch e'
          let code ← Pure.pure (code ++ (← emit place' (Instruction.ab .move r scratch)))
          freeFrom scope b.free
          return code) Code.Alike := by
      refine alike_allocate.same fun scratch => ?_
      refine (h.into scope scratch he).next fun _ _ hcode => ?_
      refine (alike_emit _ _ _).next fun _ _ hmove => ?_
      exact Alike.next (.pure (hcode.append hmove)) fun _ _ hcode => alike_freed scope hcode _
    cases he with
    | literal | reference | lambda => exact hdirect
    | assignment | branch | cond | operation | call | sequence => exact hmoved
  | captured slot =>
    refine (h.toRegister scope he).next ?_
    rintro ⟨code, r⟩ ⟨code', _⟩ ⟨hcode, rfl⟩
    refine (alike_emit _ _ _).next fun _ _ hset => ?_
    exact Alike.next (.pure (hcode.append hset)) fun _ _ hcode => alike_freed scope hcode _
  | global slot =>
    refine (h.toRegister scope he).next ?_
    rintro ⟨code, r⟩ ⟨code', _⟩ ⟨hcode, rfl⟩
    refine (alike_globalName _ _).same fun index => ?_
    refine (alike_emit _ _ _).next fun _ _ hset => ?_
    exact Alike.next (.pure (hcode.append hset)) fun _ _ hcode => alike_freed scope hcode _

theorem tested (he : e.Alike s (n + 1) e') (test : Register → Except Overrun Instruction) :
    Generating.Alike (inner.tested scope e test place) (inner.tested scope e' test place')
      Code.Alike := by
  refine .get fun b b' hb => ?_
  rw [hb.free]
  refine (h.toRegister scope he).next ?_
  rintro ⟨code, r⟩ ⟨code', _⟩ ⟨hcode, rfl⟩
  exact (alike_emit _ _ _).next fun _ _ hline => alike_freed scope (hcode.append hline) _

theorem alternative {o o' : Option Expr} (ho : OptionalExpr.Alike s (n + 1) o o') :
    Generating.Alike (inner.alternative scope r o place) (inner.alternative scope r o' place')
      Code.Alike := by
  cases ho with
  | some he => exact h.into scope r he
  | none => exact alike_emit _ _ _

theorem branch {test test' consequent consequent' : Expr} {o o' : Option Expr}
    (ht : test.Alike s (n + 1) test') (hc : consequent.Alike s (n + 1) consequent')
    (ho : OptionalExpr.Alike s (n + 1) o o') : Generating.Alike
      (inner.branch scope r test consequent o place)
      (inner.branch scope r test' consequent' o' place') Code.Alike := by
  refine (h.tested scope place place' ht _).next fun _ _ htest => ?_
  refine (h.into scope r hc).next fun _ _ hconsequent => ?_
  rw [hconsequent.length_eq]
  refine (alike_jump _ _ _).next fun _ _ htoElse => ?_
  refine (h.alternative scope r place place' ho).next fun _ _ hother => ?_
  rw [hother.length_eq]
  refine (alike_jump _ _ _).next fun _ _ hexit => .pure ?_
  exact (((htest.append htoElse).append hconsequent).append hexit).append hother

theorem clause {c c' : Clause Expr} (ht : c.test.Alike s (n + 1) c'.test)
    (hb : OptionalExpr.Alike s (n + 1) c.body c'.body) : Generating.Alike
      (inner.clause scope r c place) (inner.clause scope r c' place') Code.Alike := by
  obtain ⟨test, body⟩ := c
  obtain ⟨test', body'⟩ := c'
  unfold Lowering.clause
  cases hb with
  | none => exact h.tested scope place place' ht _
  | some hb =>
    refine (h.tested scope place place' ht _).next fun _ _ htest => ?_
    refine (h.into scope r hb).next fun _ _ hbody => ?_
    rw [hbody.length_eq]
    exact (alike_jump _ _ _).next fun _ _ hexit => .pure ((htest.append hexit).append hbody)

theorem clauses {cs cs' : List (Clause Expr)} : Clauses.Alike s (n + 1) cs cs' →
    Generating.Alike (cs.mapM fun c => inner.clause scope r c place)
      (cs'.mapM fun c => inner.clause scope r c place') (List.Forall₂ Code.Alike)
  | .nil => .pure .nil
  | .cons ht hb hcs => by
    rw [List.mapM_cons, List.mapM_cons]
    refine (h.clause scope r place place' ht hb).next fun _ _ hcode => ?_
    exact (clauses hcs).next fun _ _ hmore => .pure (.cons hcode hmore)

theorem cond {cs cs' : List (Clause Expr)} {o o' : Option Expr}
    (hcs : Clauses.Alike s (n + 1) cs cs') (ho : OptionalExpr.Alike s (n + 1) o o') :
    Generating.Alike (inner.cond scope r cs o place) (inner.cond scope r cs' o' place')
      Code.Alike := by
  refine (h.clauses scope r place place' hcs).next fun _ _ hpieces => ?_
  exact (h.alternative scope r place place' ho).next fun _ _ hlast => alike_joined hlast hpieces _ _

omit h in
theorem chain (opcode : Opcode) (swap : Bool) (operands : List Operand) : Generating.Alike
    (Lowering.chain r opcode swap operands place) (Lowering.chain r opcode swap operands place')
    Code.Alike := by
  refine (Alike.mapM_self _ fun _ => alike_emit _ _ _).next fun _ _ hpieces => ?_
  refine (alike_emit _ _ _).next fun _ _ hlast => ?_
  refine (alike_joined hlast hpieces _ _).next fun _ _ hcode => ?_
  exact (alike_emit _ _ _).next fun _ _ hload => .pure (hcode.append hload)

theorem junction (stop : Bool) (hes : Exprs.Alike s (n + 1) es es') : Generating.Alike
    (inner.junction scope r stop es place) (inner.junction scope r stop es' place')
    Code.Alike := by
  unfold Lowering.junction
  rcases List.eq_nil_or_concat' es with rfl | ⟨init, last, rfl⟩
  · cases hes
    exact alike_emit _ _ _
  · obtain ⟨init', last', rfl, hinit, hlast⟩ := forall₂_concat hes.forall₂
    simp only [List.getLast?_append, List.getLast?_singleton, Option.some_or,
      List.dropLast_concat]
    refine (Alike.mapM hinit fun _ _ he => h.tested scope place place' he _).next
      fun _ _ hpieces => ?_
    exact (h.into scope r hlast).next fun _ _ hcode => alike_joined hcode hpieces _ _

theorem folded (opcode : Opcode) (hes : Exprs.Alike s (n + 1) es es') : Generating.Alike
    (inner.folded scope r opcode es place) (inner.folded scope r opcode es' place')
    Code.Alike := by
  refine (h.operands scope hes).next ?_
  rintro ⟨code, operands⟩ ⟨code', _⟩ ⟨hcode, rfl⟩
  rcases operands with _ | ⟨x, _ | ⟨y, rest⟩⟩
  · exact .throw _ _
  · exact .throw _ _
  · refine (alike_emit _ _ _).next fun _ _ hfirst => ?_
    refine (Alike.mapM_self _ fun _ => alike_emit _ _ _).next fun _ _ hmore => .pure ?_
    exact (hcode.append hfirst).append (.flatten hmore)

theorem afterAtom (opcode : Opcode) (a : Atom) (he : e.Alike s (n + 1) e') : Generating.Alike
    (inner.afterAtom scope r opcode a e place) (inner.afterAtom scope r opcode a e' place')
    Code.Alike := by
  refine (atomOperand place place' a).next ?_
  rintro ⟨load, x⟩ ⟨load', _⟩ ⟨hload, rfl⟩
  refine (h.toOperand scope he).next ?_
  rintro ⟨code, y⟩ ⟨code', _⟩ ⟨hcode, rfl⟩
  exact (alike_emit _ _ _).next fun _ _ hline => .pure ((hload.append hcode).append hline)

theorem unary (opcode : Opcode) (hes : Exprs.Alike s (n + 1) es es') : Generating.Alike
    (inner.unary scope r opcode es place) (inner.unary scope r opcode es' place') Code.Alike := by
  cases hes with
  | nil => exact .throw _ _
  | cons he _ =>
    refine (h.toRegister scope he).next ?_
    rintro ⟨code, x⟩ ⟨code', _⟩ ⟨hcode, rfl⟩
    exact (alike_emit _ _ _).next fun _ _ hline => .pure (hcode.append hline)

theorem operation (op : Operator) (hes : Exprs.Alike s (n + 1) es es') : Generating.Alike
    (inner.operation scope r op es place) (inner.operation scope r op es' place')
    Code.Alike := by
  have hfolded (opcode : Opcode) (mark : Nat) := (h.folded scope r place place' opcode hes).next
    fun _ _ hcode => alike_freed scope hcode mark
  have hunary (opcode : Opcode) (mark : Nat) := (h.unary scope r place place' opcode hes).next
    fun _ _ hcode => alike_freed scope hcode mark
  refine .get fun b b' hb => ?_
  rw [hb.free]
  cases op.plan with
  | fold opcode identity =>
    rcases hes with _ | ⟨he, _ | ⟨_, _⟩⟩
    · exact (loadQuotation r place place' rfl).next fun _ _ hcode => alike_freed scope hcode _
    · exact (h.afterAtom scope r place place' opcode _ he).next fun _ _ hcode => alike_freed scope hcode _
    · exact hfolded opcode _
  | invert opcode alone identity =>
    rcases hes with _ | ⟨he, _ | ⟨_, _⟩⟩
    · cases alone <;> exact hfolded opcode _
    · cases alone with
      | none =>
        exact (h.afterAtom scope r place place' opcode _ he).next fun _ _ hcode =>
          alike_freed scope hcode _
      | some alone => exact hunary alone _
    · cases alone <;> exact hfolded opcode _
  | binary opcode => exact hfolded opcode _
  | unary opcode => exact hunary opcode _
  | chain opcode swap =>
    refine (h.operands scope hes).next ?_
    rintro ⟨code, operands⟩ ⟨code', _⟩ ⟨hcode, rfl⟩
    refine (chain r place place' opcode swap operands).next fun _ _ hchain => ?_
    exact Alike.next (.pure (hcode.append hchain)) fun _ _ hcode => alike_freed scope hcode _
  | isNull =>
    refine (h.operands scope hes).next ?_
    rintro ⟨code, operands⟩ ⟨code', _⟩ ⟨hcode, rfl⟩
    refine (atomOperand place place' .nil).next ?_
    rintro ⟨load, nil⟩ ⟨load', _⟩ ⟨hload, rfl⟩
    refine (chain r place place' .equivalent false (operands ++ [nil])).next fun _ _ hchain => ?_
    exact Alike.next (.pure ((hcode.append hload).append hchain)) fun _ _ hcode =>
      alike_freed scope hcode _
  | junction stop =>
    exact (h.junction scope r place place' stop hes).next fun _ _ hcode => alike_freed scope hcode _

theorem arguments (hes : Exprs.Alike s (n + 1) es es') : Generating.Alike
    (inner.arguments scope es) (inner.arguments scope es') Code.Alike := by
  have hall := hes.forall₂
  clear hes
  induction hall with
  | nil => exact .pure .nil
  | cons he _ ih =>
    refine (h.toTemporary scope he).next ?_
    rintro ⟨code, r⟩ ⟨code', _⟩ ⟨hcode, rfl⟩
    exact ih.next fun _ _ hmore => .pure (hcode.append hmore)

theorem call (he : e.Alike s (n + 1) e') (hes : Exprs.Alike s (n + 1) es es') : Generating.Alike
    (inner.call scope r e es place) (inner.call scope r e' es' place') Code.Alike := by
  have hrest (mark : Nat) (base : Register) : Generating.Alike
      (do
        let callee ← inner.into scope base e
        let arguments ← inner.arguments scope es
        let call ← emit place (Instruction.abc .call base (es.length + 1) 2)
        let move ← if base = r then Pure.pure [] else emit place (Instruction.ab .move r base)
        freeFrom scope mark
        return callee ++ arguments ++ call ++ move)
      (do
        let callee ← inner.into scope base e'
        let arguments ← inner.arguments scope es'
        let call ← emit place' (Instruction.abc .call base (es'.length + 1) 2)
        let move ← if base = r then Pure.pure [] else emit place' (Instruction.ab .move r base)
        freeFrom scope mark
        return callee ++ arguments ++ call ++ move) Code.Alike := by
    rw [← hes.forall₂.length_eq]
    refine (h.into scope base he).next fun _ _ hcallee => ?_
    refine (h.arguments scope hes).next fun _ _ harguments => ?_
    refine (alike_emit _ _ _).next fun _ _ hcall => ?_
    dsimp only
    split
    · refine Alike.next (.pure Code.Alike.nil) fun _ _ hmove => ?_
      exact alike_freed scope (((hcallee.append harguments).append hcall).append hmove) _
    · refine (alike_emit _ _ _).next fun _ _ hmove => ?_
      exact alike_freed scope (((hcallee.append harguments).append hcall).append hmove) _
  refine .get fun b b' hb => ?_
  rw [hb.free]
  dsimp only
  split
  · exact Alike.same (.pure rfl) (hrest _)
  · exact alike_allocate.same (hrest _)

theorem lambda {f f' : Function} (hf : f.Alike s (n + 1) f') : Generating.Alike
    (inner.lambda r f place) (inner.lambda r f' place') Code.Alike := by
  have hagree := h.function _ _ _ _ hf
  unfold Lowering.lambda
  generalize inner.function f = x, inner.function f' = y at hagree
  cases hagree with
  | ok ht => exact (alike_pushLiteral (.template ht)).same fun _ => alike_emit _ _ _
  | error => exact .throw _ _

theorem lowerInto (he : e.Alike s (n + 1) e') : Generating.Alike
    (inner.lowerInto scope r e) (inner.lowerInto scope r e') Code.Alike := by
  cases he with
  | literal hq => exact loadQuotation r _ _ hq.datum
  | @reference _ v v' _ _ hv =>
    obtain rfl : v = v' := hv
    exact loadVariable scope r _ _ v
  | @assignment _ v v' _ _ _ _ hv he =>
    obtain rfl : v = v' := hv
    refine (h.assign scope _ _ v he).next fun _ _ hcode => ?_
    exact (loadUnspecified r _ _).next fun _ _ hload => .pure (hcode.append hload)
  | branch ht hc ho => exact h.branch scope r _ _ ht hc ho
  | cond hcs ho => exact h.cond scope r _ _ hcs ho
  | operation hes => exact h.operation scope r _ _ _ hes
  | call he hes => exact h.call scope r _ _ he hes
  | lambda hf => exact h.lambda r _ _ hf
  | @sequence _ es es' _ _ hes =>
    unfold Lowering.lowerInto
    rcases List.eq_nil_or_concat' es with rfl | ⟨init, last, rfl⟩
    · cases hes
      exact loadUnspecified r _ _
    · obtain ⟨init', last', rfl, hinit, hlast⟩ := forall₂_concat hes.forall₂
      simp only [List.getLast?_append, List.getLast?_singleton, Option.some_or,
        List.dropLast_concat]
      refine (Alike.mapM hinit fun _ _ he => h.effect scope he).next fun _ _ hpieces => ?_
      exact (h.into scope r hlast).next
        fun _ _ hcode => .pure ((Code.Alike.flatten hpieces).append hcode)

theorem lowerEffect (he : e.Alike s (n + 1) e') : Generating.Alike
    (inner.lowerEffect scope e) (inner.lowerEffect scope e') Code.Alike := by
  have hdiscarded : Generating.Alike
      (do
        let mark := (← get).free
        let scratch ← allocate
        let code ← inner.lowerInto scope scratch e
        freeFrom scope mark
        return code)
      (do
        let mark := (← get).free
        let scratch ← allocate
        let code ← inner.lowerInto scope scratch e'
        freeFrom scope mark
        return code) Code.Alike := by
    refine .get fun b b' hb => ?_
    rw [hb.free]
    refine alike_allocate.same fun scratch => ?_
    exact (h.lowerInto scope scratch he).next fun _ _ hcode => alike_freed scope hcode _
  cases he with
  | literal | reference | lambda => exact .pure .nil
  | @assignment _ v v' _ _ _ _ hv he =>
    obtain rfl : v = v' := hv
    exact h.assign scope _ _ v he
  | sequence hes =>
    exact (Alike.mapM hes.forall₂ fun _ _ he => h.effect scope he).next fun _ _ hpieces =>
      .pure (.flatten hpieces)
  | branch | cond | operation | call => exact hdiscarded

theorem initializer {f f' : Function} (hf : f.Alike s (n + 1) f') (name : String) (slot : Nat)
    (slots : List Variable) : Generating.Alike (inner.initializer slots ⟨name, slot, r, some f⟩)
      (inner.initializer slots ⟨name, slot, r, some f'⟩) Eq := by
  have hagree := h.function _ _ _ _ hf
  unfold Lowering.initializer
  dsimp only
  generalize inner.function f = x, inner.function f' = y at hagree
  cases hagree with
  | error => exact .throw _ _
  | ok ht =>
    refine (alike_pushLiteral (.template ht)).same fun _ => ?_
    split
    · exact .pure rfl
    · exact .throw _ _

theorem initializers {ps ps' : List (OptionalParameter Function)} :
    Defaults.Alike s (n + 1) ps ps' →
    (slots : List Variable) → Generating.Alike (ps.foldlM inner.initializer slots)
      (ps'.foldlM inner.initializer slots) Eq
  | .nil, slots => .pure rfl
  | .none hps, slots => by
    rw [List.foldlM_cons, List.foldlM_cons]
    exact Alike.same (.pure rfl) fun slots => initializers hps slots
  | .some hf hps, slots => by
    rw [List.foldlM_cons, List.foldlM_cons]
    exact (h.initializer _ hf _ _ slots).same fun slots => initializers hps slots

theorem procedureBody {f f' : Function} (hf : f.Alike s (n + 1) f') : Generating.Alike
    (inner.procedureBody scope f) (inner.procedureBody scope f') Code.Alike := by
  cases hf with
  | intro name scope captures required rest optional keys body =>
    unfold Lowering.procedureBody
    rw [body.endsInAssignment_eq]
    split
    · refine (h.effect _ body).next fun _ _ hcode => ?_
      exact (alike_emit _ _ _).next fun _ _ hreturn => .pure (hcode.append hreturn)
    · refine (h.toRegister _ body).next ?_
      rintro ⟨code, r⟩ ⟨code', _⟩ ⟨hcode, rfl⟩
      exact (alike_emit _ _ _).next fun _ _ hreturn => .pure (hcode.append hreturn)

end

theorem alike_start (registers : Nat) : (Builder.start registers).Alike (Builder.start registers) :=
  ⟨.nil, rfl, rfl, rfl, rfl⟩

theorem lowerFunction {inner : Lowering} (h : inner.Respects) {s : Renumbering} {n : Nat}
    {f f' : Function} (hf : f.Alike s (n + 1) f') :
    Agree Template.Alike (inner.lowerFunction f) (inner.lowerFunction f') := by
  have hbody := h.procedureBody f.scope hf
  cases hf with
  | intro name scope captures required rest optional keys body =>
    have hbuild : Generating.Alike
        (do
          let slots ← f.scope.bindings.mapM describe
          let slots ← (f.parameters.optional ++ f.parameters.keys).foldlM inner.initializer slots
          return (slots, ← inner.procedureBody f.scope f))
        (do
          let slots ← f.scope.bindings.mapM describe
          let slots ← (f'.parameters.optional ++ f'.parameters.keys).foldlM inner.initializer slots
          return (slots, ← inner.procedureBody f.scope f'))
        fun p p' => p.1 = p'.1 ∧ p.2.Alike p'.2 := by
      have hdescribe (b : Binding) : Generating.Alike (describe b) (describe b) Eq := by
        unfold describe
        split
        · exact .pure rfl
        · exact .throw _ _
      refine Alike.same ((Alike.mapM_self _ hdescribe).mono fun _ _ _ _ h => ?_) fun slots => ?_
      · exact List.forall₂_eq_eq_eq ▸ h
      · refine (h.initializers (keys.append optional) slots).same fun slots => ?_
        exact hbody.next fun _ _ hcode => .pure ⟨rfl, hcode⟩
    have houtcome := hbuild.outcome _ _ (alike_start f.scope.registers)
    unfold Lowering.lowerFunction
    rw [scope]
    dsimp only
    split <;> rename_i hx <;> rw [hx] at houtcome
    · split <;> rename_i hy <;> rw [hy] at houtcome
      · exact .error
      · cases houtcome
    · split <;> rename_i hy <;> rw [hy] at houtcome
      · cases houtcome
      · cases houtcome with
        | ok _ hb hanswer =>
          exact .ok (.intro name hanswer.2 hb.literals hanswer.1.symm required optional.length_eq
            keys.length_eq rest hb.used rfl)

theorem within (height : Nat) : (Lowering.within height).Respects := by
  induction height with
  | zero => exact ⟨fun _ _ _ _ _ _ _ => .throw _ _, fun _ _ _ _ _ => .error⟩
  | succ height ih =>
    refine ⟨fun r n scope d e e' he => ?_, fun r n f f' hf => ih.lowerFunction hf⟩
    cases d with
    | register r => exact ih.lowerInto scope r he
    | nowhere => exact ih.lowerEffect scope he

end Respects

end Lowering

/-- Procedures inside others that are alike have templates that are alike, or none. -/
theorem Function.Alike.template {r : Renumbering} {n : Nat} {f f' : Function}
    (h : f.Alike r (n + 1) f') : Agree Template.Alike f.template f'.template := by
  rw [← Lowering.within_function (Nat.le_max_left f.height f'.height),
    ← Lowering.within_function (Nat.le_max_right f.height f'.height)]
  exact (Lowering.Respects.within _).function r n f f' h

end RegisterScheme
