import RegisterScheme.Proofs.Outcome
import RegisterScheme.Template.Generator

/-! Generation blames no form. What is resolved is well formed, so a procedure lacks a template only
because something does not fit into it. -/

namespace RegisterScheme

/-- A failure that is no error of a form. -/
def Failure.IsFormless : Failure → Prop
  | .error (.malformed _) | .error (.arity _) => False
  | _ => True

namespace Generating

variable {α β : Type}

/-- A computation never blames a form. -/
def Formless (act : Generating α) : Prop :=
  Ends Failure.IsFormless act fun _ => True

namespace Formless

theorem pure (a : α) : Formless (Pure.pure a) := Ends.pure trivial

theorem throw {e : Failure} (h : e.IsFormless) : Formless (MonadExcept.throw e : Generating α) :=
  Ends.throw h

theorem bind {x : Generating α} {f : α → Generating β} (hx : Formless x)
    (hf : ∀ a, Formless (f a)) : Formless (x >>= f) :=
  Ends.bind hx fun a _ => hf a

theorem map {x : Generating α} {f : α → β} (hx : Formless x) : Formless (f <$> x) :=
  Ends.map hx fun _ _ => trivial

theorem get : Formless (MonadState.get : Generating Builder) := Ends.answers fun b => ⟨b, b, rfl⟩

theorem set (b : Builder) : Formless (MonadStateOf.set b : Generating PUnit) :=
  Ends.answers fun _ => ⟨⟨⟩, b, rfl⟩

theorem modify (f : Builder → Builder) : Formless (modify f : Generating PUnit) :=
  Ends.answers fun b => ⟨⟨⟩, f b, rfl⟩

theorem mapM {f : α → Generating β} {l : List α} (hf : ∀ a, Formless (f a)) :
    Formless (l.mapM f) :=
  Ends.mono (Ends.mapM fun a _ => hf a) fun _ _ => trivial

theorem foldlM {f : β → α → Generating β} {l : List α} (b : β) (hf : ∀ b a, Formless (f b a)) :
    Formless (l.foldlM f b) :=
  Ends.foldlM trivial fun a _ b _ => hf b a

end Formless

theorem formless_allocate : Formless allocate := by
  refine .bind .get fun b => ?_
  split
  · exact .bind (.set _) fun _ => .pure _
  · exact .throw trivial

theorem formless_freeFrom (scope : Scope) (r : Nat) : Formless (freeFrom scope r) := by
  unfold freeFrom
  split
  · exact .modify _
  · exact .throw trivial

theorem formless_freed {scope : Scope} (mark : Nat) (code : Code) : Formless (do
    freeFrom scope mark
    return code) := .bind (formless_freeFrom _ _) fun _ => .pure _

theorem formless_pushLiteral (l : Literal Template) : Formless (pushLiteral l) := by
  refine .bind .get fun b => ?_
  split
  · exact .throw trivial
  · exact .bind (.set _) fun _ => .pure _

theorem formless_literal (q : Quotation) : Formless (literal q) := by
  refine .bind .get fun b => ?_
  split
  · exact .pure _
  · exact formless_pushLiteral _

theorem formless_globalName (scope : Scope) (slot : Nat) : Formless (globalName scope slot) := by
  refine .bind .get fun b => ?_
  split
  · exact .pure _
  · split
    · exact .throw trivial
    · split
      · exact .bind (formless_literal _) fun _ => .bind (.modify _) fun _ => .pure _
      · exact .throw trivial

theorem formless_unspecified : Formless unspecified := by
  refine .bind .get fun b => ?_
  split
  · exact .pure _
  · exact .bind (formless_pushLiteral _) fun _ => .bind (.modify _) fun _ => .pure _

theorem formless_emit (place : Option Location) (i : Except Overrun Instruction) :
    Formless (emit place i) := by
  cases i with
  | ok i => exact .pure _
  | error o => exact .throw trivial

theorem formless_jump (place : Option Location) (lines : Nat) : Formless (jump place lines) :=
  formless_emit _ _

theorem formless_withExits (place : Option Location) (last : Code) (lines : Nat)
    (pieces : List Code) : Formless (withExits place last lines pieces) := by
  induction pieces generalizing lines with
  | nil => exact .pure _
  | cons piece pieces ih =>
    rw [withExits]
    exact .bind (formless_jump _ _) fun _ => .bind (ih _) fun _ => .pure _

theorem formless_joined (place : Option Location) (pieces : List Code) (last : Code) :
    Formless (joined place pieces last) := formless_withExits _ _ _ _

end Generating

namespace Lowering

open Generating

/-- Nothing inside blames a form. -/
structure Formless (inner : Lowering) : Prop where
  expr : ∀ scope d e, Generating.Formless (inner.expr scope d e)
  function : ∀ f e, inner.function f = .error e → e.IsFormless

namespace Formless

variable {inner : Lowering} (h : inner.Formless) (scope : Scope) (r : Register)
  (place : Option Location)

include h

theorem into (e : Expr) : Generating.Formless (inner.into scope r e) := h.expr _ _ _

theorem effect (e : Expr) : Generating.Formless (inner.effect scope e) := h.expr _ _ _

theorem toTemporary (e : Expr) : Generating.Formless (inner.toTemporary scope e) :=
  .bind formless_allocate fun r => .bind (h.into scope r e) fun _ => .bind (formless_freeFrom _ _)
    fun _ => .pure _

theorem toRegister (e : Expr) : Generating.Formless (inner.toRegister scope e) := by
  unfold Lowering.toRegister
  split
  · exact .pure _
  · exact h.toTemporary _ _

theorem toOperand (e : Expr) : Generating.Formless (inner.toOperand scope e) := by
  unfold Lowering.toOperand
  split
  on_goal 1 => refine .bind (.map (formless_literal _)) fun constant => ?_
  on_goal 2 => refine .bind (.pure _) fun constant => ?_
  all_goals
    cases constant with
    | some operand => exact .pure _
    | none => exact .bind (h.toRegister _ _) fun _ => .pure _

omit h in
theorem atomOperand (a : Atom) : Generating.Formless (Lowering.atomOperand a place) := by
  refine .bind (formless_literal _) fun index => ?_
  split
  · exact .pure _
  · exact .bind formless_allocate fun _ => .bind (formless_emit _ _) fun _ => .pure _

theorem operands (es : List Expr) : Generating.Formless (inner.operands scope es) := by
  induction es with
  | nil => exact .pure _
  | cons e es ih =>
    unfold Lowering.operands
    split
    · dsimp only
      split
      · exact .bind (h.toOperand _ _) fun _ => .bind ih fun _ => .pure _
      · exact .bind (h.toTemporary _ _) fun _ => .bind (.pure _) fun _ => .bind ih fun _ => .pure _
    · exact .bind (h.toOperand _ _) fun _ => .bind ih fun _ => .pure _

omit h in
theorem loadQuotation (q : Quotation) :
    Generating.Formless (Lowering.loadQuotation r q place) := by
  unfold Lowering.loadQuotation
  split
  · exact formless_emit _ _
  · exact formless_emit _ _
  · exact .bind (formless_literal _) fun _ => formless_emit _ _

omit h in
theorem loadUnspecified : Generating.Formless (Lowering.loadUnspecified r place) :=
  .bind formless_unspecified fun _ => formless_emit _ _

omit h in
theorem loadVariable (v : VariableRef) :
    Generating.Formless (Lowering.loadVariable scope r v place) := by
  unfold Lowering.loadVariable
  split
  · split
    · exact .pure _
    · exact formless_emit _ _
  · exact formless_emit _ _
  · exact .bind (formless_globalName _ _) fun _ => formless_emit _ _

theorem assign (target : VariableRef) (value : Expr) :
    Generating.Formless (inner.assign scope target value place) := by
  refine .bind .get fun b => ?_
  dsimp only
  split
  · split
    case h_4 =>
      exact .bind formless_allocate fun _ => .bind (h.into _ _ _) fun _ =>
        .bind (formless_emit _ _) fun _ => .bind (.pure _) (formless_freed _)
    all_goals exact .bind (h.into _ _ _) (formless_freed _)
  · exact .bind (h.toRegister _ _) fun _ => .bind (formless_emit _ _) fun _ =>
      .bind (.pure _) (formless_freed _)
  · exact .bind (h.toRegister _ _) fun _ => .bind (formless_globalName _ _) fun _ =>
      .bind (formless_emit _ _) fun _ => .bind (.pure _) (formless_freed _)

theorem tested (e : Expr) (test : Register → Except Overrun Instruction) :
    Generating.Formless (inner.tested scope e test place) :=
  .bind .get fun _ => .bind (h.toRegister _ _) fun _ => .bind (formless_emit _ _) fun _ =>
    .bind (formless_freeFrom _ _) fun _ => .pure _

theorem alternative (e : Option Expr) :
    Generating.Formless (inner.alternative scope r e place) := by
  cases e with
  | some e => exact h.into _ _ _
  | none => exact formless_emit _ _

theorem branch (test consequent : Expr) (otherwise : Option Expr) :
    Generating.Formless (inner.branch scope r test consequent otherwise place) :=
  .bind (h.tested _ _ _ _) fun _ => .bind (h.into _ _ _) fun _ =>
    .bind (formless_jump _ _) fun _ => .bind (h.alternative _ _ _ _) fun _ =>
      .bind (formless_jump _ _) fun _ => .pure _

theorem clause (c : Clause Expr) : Generating.Formless (inner.clause scope r c place) := by
  unfold Lowering.clause
  split
  · exact h.tested _ _ _ _
  · exact .bind (h.tested _ _ _ _) fun _ => .bind (h.into _ _ _) fun _ =>
      .bind (formless_jump _ _) fun _ => .pure _

theorem cond (clauses : List (Clause Expr)) (otherwise : Option Expr) :
    Generating.Formless (inner.cond scope r clauses otherwise place) :=
  .bind (.mapM fun _ => h.clause _ _ _ _) fun _ => .bind (h.alternative _ _ _ _) fun _ =>
    formless_joined _ _ _

omit h in
theorem chain (opcode : Opcode) (swap : Bool) (operands : List Operand) :
    Generating.Formless (Lowering.chain r opcode swap operands place) :=
  .bind (.mapM fun _ => formless_emit _ _) fun _ => .bind (formless_emit _ _) fun _ =>
    .bind (formless_joined _ _ _) fun _ => .bind (formless_emit _ _) fun _ => .pure _

theorem junction (stop : Bool) (es : List Expr) :
    Generating.Formless (inner.junction scope r stop es place) := by
  unfold Lowering.junction
  split
  · exact formless_emit _ _
  · exact .bind (.mapM fun _ => h.tested _ _ _ _) fun _ => .bind (h.into _ _ _) fun _ =>
      formless_joined _ _ _

theorem folded (opcode : Opcode) (es : List Expr) :
    Generating.Formless (inner.folded scope r opcode es place) := by
  refine .bind (h.operands _ _) fun _ => ?_
  split
  · exact .bind (formless_emit _ _) fun _ => .bind (.mapM fun _ => formless_emit _ _) fun _ =>
      .pure _
  · exact .throw trivial

theorem afterAtom (opcode : Opcode) (a : Atom) (e : Expr) :
    Generating.Formless (inner.afterAtom scope r opcode a e place) :=
  .bind (atomOperand _ _) fun _ => .bind (h.toOperand _ _) fun _ =>
    .bind (formless_emit _ _) fun _ => .pure _

theorem unary (opcode : Opcode) (es : List Expr) :
    Generating.Formless (inner.unary scope r opcode es place) := by
  cases es with
  | nil => exact .throw trivial
  | cons e es =>
    exact .bind (h.toRegister _ _) fun _ => .bind (formless_emit _ _) fun _ => .pure _

theorem operation (op : Operator) (es : List Expr) :
    Generating.Formless (inner.operation scope r op es place) := by
  refine .bind .get fun b => ?_
  dsimp only
  split
  -- An operation without operands is its identity, one with a single operand begins with it.
  case h_1 => exact .bind (loadQuotation _ _ _) (formless_freed _)
  case h_2 | h_3 => exact .bind (h.afterAtom _ _ _ _ _ _) (formless_freed _)
  case h_4 | h_10 => exact .bind (h.unary _ _ _ _ _) (formless_freed _)
  case h_5 | h_6 | h_7 => exact .bind (h.folded _ _ _ _ _) (formless_freed _)
  -- Comparisons, the second one with nil.
  case h_8 =>
    exact .bind (h.operands _ _) fun _ => .bind (chain _ _ _ _ _) fun _ =>
      .bind (.pure _) (formless_freed _)
  case h_9 =>
    exact .bind (h.operands _ _) fun _ => .bind (atomOperand _ _) fun _ =>
      .bind (chain _ _ _ _ _) fun _ => .bind (.pure _) (formless_freed _)
  case h_11 => exact .bind (h.junction _ _ _ _ _) (formless_freed _)

theorem arguments (es : List Expr) : Generating.Formless (inner.arguments scope es) := by
  induction es with
  | nil => exact .pure _
  | cons e es ih => exact .bind (h.toTemporary _ _) fun _ => .bind ih fun _ => .pure _

theorem call (callee : Expr) (es : List Expr) :
    Generating.Formless (inner.call scope r callee es place) := by
  have hrest (mark : Nat) (base : Register) : Generating.Formless (do
      let callee ← inner.into scope base callee
      let arguments ← inner.arguments scope es
      let call ← emit place (Instruction.abc .call base (es.length + 1) 2)
      let move ← if base = r then Pure.pure [] else emit place (Instruction.ab .move r base)
      freeFrom scope mark
      return callee ++ arguments ++ call ++ move) := by
    refine .bind (h.into _ _ _) fun _ => .bind (h.arguments _ _) fun _ =>
      .bind (formless_emit _ _) fun _ => ?_
    dsimp only
    split
    · exact .bind (.pure _) fun _ => .bind (formless_freeFrom _ _) fun _ => .pure _
    · exact .bind (formless_emit _ _) fun _ => .bind (formless_freeFrom _ _) fun _ => .pure _
  refine .bind .get fun b => ?_
  dsimp only
  split
  · exact .bind (.pure _) (hrest _)
  · exact .bind formless_allocate (hrest _)

theorem lambda (f : Function) : Generating.Formless (inner.lambda r f place) := by
  unfold Lowering.lambda
  split
  · exact .bind (formless_pushLiteral _) fun _ => formless_emit _ _
  · rename_i hf
    exact .throw (h.function _ _ hf)

theorem lowerInto (e : Expr) : Generating.Formless (inner.lowerInto scope r e) := by
  unfold Lowering.lowerInto
  cases e with
  | literal => exact loadQuotation _ _ _
  | reference => exact loadVariable _ _ _ _
  | assignment =>
    exact .bind (h.assign _ _ _ _) fun _ => .bind (loadUnspecified _ _) fun _ => .pure _
  | branch => exact h.branch _ _ _ _ _ _
  | cond => exact h.cond _ _ _ _ _
  | operation => exact h.operation _ _ _ _ _
  | call => exact h.call _ _ _ _ _
  | lambda => exact h.lambda _ _ _
  | sequence items =>
    dsimp only
    split
    · exact loadUnspecified _ _
    · exact .bind (.mapM fun _ => h.effect _ _) fun _ => .bind (h.into _ _ _) fun _ => .pure _

theorem lowerEffect (e : Expr) : Generating.Formless (inner.lowerEffect scope e) := by
  unfold Lowering.lowerEffect
  split
  case h_4 => exact .bind (.mapM fun _ => h.effect _ _) fun _ => .pure _
  case h_5 => exact h.assign _ _ _ _
  case h_6 =>
    exact .bind .get fun _ => .bind formless_allocate fun _ => .bind (h.lowerInto _ _ _) fun _ =>
      .bind (formless_freeFrom _ _) fun _ => .pure _
  all_goals exact .pure _

theorem initializer (slots : List Variable) (p : OptionalParameter Function) :
    Generating.Formless (inner.initializer slots p) := by
  unfold Lowering.initializer
  split
  · exact .pure _
  · split
    · rename_i hf
      exact .throw (h.function _ _ hf)
    · refine .bind (formless_pushLiteral _) fun _ => ?_
      split
      · exact .pure _
      · exact .throw trivial

theorem procedureBody (f : Function) : Generating.Formless (inner.procedureBody scope f) := by
  unfold Lowering.procedureBody
  split
  · exact .bind (h.effect _ _) fun _ => .bind (formless_emit _ _) fun _ => .pure _
  · exact .bind (h.toRegister _ _) fun _ => .bind (formless_emit _ _) fun _ => .pure _

theorem lowerFunction (f : Function) (e : Failure) (he : inner.lowerFunction f = .error e) :
    e.IsFormless := by
  have hdescribe (b : Binding) : Generating.Formless (describe b) := by
    unfold describe
    split
    · exact .pure _
    · exact .throw trivial
  have hbuild : Generating.Formless (do
      let slots ← f.scope.bindings.mapM describe
      let slots ← (f.parameters.optional ++ f.parameters.keys).foldlM inner.initializer slots
      return (slots, ← inner.procedureBody f.scope f)) :=
    .bind (.mapM hdescribe) fun _ => .bind (.foldlM _ fun _ _ => h.initializer _ _) fun _ =>
      .bind (h.procedureBody _ _) fun _ => .pure _
  unfold Lowering.lowerFunction at he
  dsimp only at he
  split at he
  · rename_i hfailed
    cases he
    exact hbuild.of_error hfailed
  · cases he

omit h in
theorem within (height : Nat) : (Lowering.within height).Formless := by
  induction height with
  | zero =>
    refine ⟨fun _ _ _ => .throw trivial, fun f e he => ?_⟩
    cases he
    trivial
  | succ height ih =>
    refine ⟨fun scope d e => ?_, fun f e he => ih.lowerFunction f e he⟩
    cases d with
    | register r => exact ih.lowerInto _ _ _
    | nowhere => exact ih.lowerEffect _ _

end Formless

end Lowering

/-- A resolved procedure without a template is too large for one, or something is broken; no form is
to blame. -/
theorem Function.template_formless {f : Function} {e : Failure} (h : f.template = .error e) :
    e.IsFormless :=
  (Lowering.Formless.within f.height).function f e h

end RegisterScheme
