import RegisterScheme.Template.Generator

/-! The code for an expression does not depend on how high expressions may be, as long as it is
not higher. So every procedure has one template, on its own and inside others. -/

namespace RegisterScheme

namespace Expr

theorem height_pos (e : Expr) : 0 < e.height := by
  cases e <;> simp [height]

theorem heightOfList_le {es : List Expr} {n : Nat} :
    heightOfList es ≤ n ↔ ∀ e ∈ es, e.height ≤ n := by
  induction es with
  | nil => simp [heightOfList]
  | cons e es ih => simp only [heightOfList, Nat.max_le, ih, List.forall_mem_cons]

theorem heightOfOption_le {o : Option Expr} {n : Nat} :
    heightOfOption o ≤ n ↔ ∀ e ∈ o, e.height ≤ n := by
  cases o <;> simp [heightOfOption]

theorem heightOfClauses_le {cs : List (Clause Expr)} {n : Nat} :
    heightOfClauses cs ≤ n ↔ ∀ c ∈ cs, c.test.height ≤ n ∧ ∀ e ∈ c.body, e.height ≤ n := by
  induction cs with
  | nil => simp [heightOfClauses]
  | cons c cs ih =>
    simp only [heightOfClauses, Nat.max_le, ih, List.forall_mem_cons, heightOfOption_le]

end Expr

namespace Function

theorem height_pos (f : Function) : 0 < f.height := by
  cases f
  simp [height]

theorem heightOfDefaults_le {ps : List (OptionalParameter Function)} {n : Nat} :
    heightOfDefaults ps ≤ n ↔ ∀ p ∈ ps, ∀ f ∈ p.default, f.height ≤ n := by
  induction ps with
  | nil => simp [heightOfDefaults]
  | cons p ps ih =>
    obtain ⟨name, slot, register, default⟩ := p
    cases default with
    | none => simp [heightOfDefaults, ih]
    | some f =>
      simp only [heightOfDefaults, Nat.max_le, ih]
      simp

/-- The defaults and the body of a procedure are not as high as it is. -/
theorem height_le {f : Function} {n : Nat} : f.height ≤ n + 1 ↔
    (∀ p ∈ f.parameters.optional ++ f.parameters.keys, ∀ d ∈ p.default, d.height ≤ n) ∧
      f.body.height ≤ n := by
  obtain ⟨name, ⟨required, optional, rest, keys⟩, scope, body, location⟩ := f
  simp only [height, Nat.add_le_add_iff_right, Nat.max_le, heightOfDefaults_le, List.mem_append]
  constructor
  · rintro ⟨ho, hk, hb⟩
    exact ⟨fun p hp => hp.elim (ho p) (hk p), hb⟩
  · rintro ⟨hd, hb⟩
    exact ⟨fun p hp => hd p (.inl hp), fun p hp => hd p (.inr hp), hb⟩

end Function

namespace Lowering

/-- Two ways to generate code that are the same for what is not too high. -/
structure Alike (n : Nat) (a b : Lowering) : Prop where
  expr : ∀ scope d e, e.height ≤ n → a.expr scope d e = b.expr scope d e
  function : ∀ f, f.height ≤ n → a.function f = b.function f

variable {a b : Lowering} {n : Nat} {scope : Scope} {e : Expr} {es : List Expr}

theorem mapM_congr_of_mem {m : Type → Type} [Monad m] [LawfulMonad m] {α β : Type}
    {f g : α → m β} {l : List α} (h : ∀ x ∈ l, f x = g x) : l.mapM f = l.mapM g := by
  induction l with
  | nil => rfl
  | cons x l ih =>
    rw [List.mapM_cons, List.mapM_cons, h x List.mem_cons_self,
      ih fun y hy => h y (List.mem_cons_of_mem _ hy)]

namespace Alike

theorem into (h : Alike n a b) (he : e.height ≤ n) (r : Register) :
    a.into scope r e = b.into scope r e := h.expr scope _ e he

theorem effect (h : Alike n a b) (he : e.height ≤ n) : a.effect scope e = b.effect scope e :=
  h.expr scope _ e he

theorem toTemporary (h : Alike n a b) (he : e.height ≤ n) :
    a.toTemporary scope e = b.toTemporary scope e := by
  simp only [Lowering.toTemporary, h.into he]

theorem toRegister (h : Alike n a b) (he : e.height ≤ n) :
    a.toRegister scope e = b.toRegister scope e := by
  unfold Lowering.toRegister
  split
  · rfl
  · exact h.toTemporary he

theorem toOperand (h : Alike n a b) (he : e.height ≤ n) :
    a.toOperand scope e = b.toOperand scope e := by
  simp only [Lowering.toOperand, h.toRegister he]

theorem operands (h : Alike n a b) (hes : ∀ e ∈ es, e.height ≤ n) :
    a.operands scope es = b.operands scope es := by
  induction es with
  | nil => rfl
  | cons e es ih =>
    obtain ⟨he, hes⟩ := List.forall_mem_cons.mp hes
    simp only [Lowering.operands, h.toTemporary he, ih hes]
    split
    · rw [h.toOperand he]
    · rw [h.toOperand he]

theorem assign (h : Alike n a b) {target : VariableRef} {location : Option Location}
    (he : e.height ≤ n) : a.assign scope target e location = b.assign scope target e location := by
  unfold Lowering.assign
  refine bind_congr fun state => ?_
  split
  · split
    · rw [h.into he]
    · rw [h.into he]
    · rw [h.into he]
    · simp only [h.into he]
  · rw [h.toRegister he]
  · rw [h.toRegister he]

theorem tested (h : Alike n a b) {test : Register → Except Overrun Instruction}
    {location : Option Location} (he : e.height ≤ n) :
    a.tested scope e test location = b.tested scope e test location := by
  simp only [Lowering.tested, h.toRegister he]

theorem alternative (h : Alike n a b) {o : Option Expr} {location : Option Location}
    (ho : ∀ e ∈ o, e.height ≤ n) (r : Register) :
    a.alternative scope r o location = b.alternative scope r o location := by
  cases o with
  | none => rfl
  | some e => exact h.into (ho e rfl) r

theorem branch (h : Alike n a b) {test consequent : Expr} {o : Option Expr}
    {location : Option Location} (ht : test.height ≤ n) (hc : consequent.height ≤ n)
    (ho : ∀ e ∈ o, e.height ≤ n) (r : Register) :
    a.branch scope r test consequent o location = b.branch scope r test consequent o location := by
  simp only [Lowering.branch, h.tested ht, h.into hc, h.alternative ho]

theorem clause (h : Alike n a b) {c : Clause Expr} {location : Option Location}
    (ht : c.test.height ≤ n) (hb : ∀ e ∈ c.body, e.height ≤ n) (r : Register) :
    a.clause scope r c location = b.clause scope r c location := by
  unfold Lowering.clause
  cases hc : c.body with
  | none => exact h.tested ht
  | some body => simp only [h.tested ht, h.into (hb body hc)]

theorem cond (h : Alike n a b) {cs : List (Clause Expr)} {o : Option Expr}
    {location : Option Location}
    (hcs : ∀ c ∈ cs, c.test.height ≤ n ∧ ∀ e ∈ c.body, e.height ≤ n)
    (ho : ∀ e ∈ o, e.height ≤ n) (r : Register) :
    a.cond scope r cs o location = b.cond scope r cs o location := by
  have hm : cs.mapM (fun c => a.clause scope r c location) =
      cs.mapM fun c => b.clause scope r c location :=
    mapM_congr_of_mem fun c hc => h.clause (hcs c hc).1 (hcs c hc).2 r
  simp only [Lowering.cond, hm, h.alternative ho]

theorem junction (h : Alike n a b) {stop : Bool} {location : Option Location}
    (hes : ∀ e ∈ es, e.height ≤ n) (r : Register) :
    a.junction scope r stop es location = b.junction scope r stop es location := by
  unfold Lowering.junction
  cases hl : es.getLast? with
  | none => rfl
  | some last =>
    have hm : es.dropLast.mapM (fun e =>
        a.tested scope e (Instruction.abc .testSet r · stop.toNat) location) =
        es.dropLast.mapM fun e =>
          b.tested scope e (Instruction.abc .testSet r · stop.toNat) location :=
      mapM_congr_of_mem fun e he => h.tested (hes e (List.dropLast_subset es he))
    simp only [hm, h.into (hes last (List.mem_of_getLast? hl))]

theorem operation (h : Alike n a b) {op : Operator} {location : Option Location}
    (hes : ∀ e ∈ es, e.height ≤ n) (r : Register) :
    a.operation scope r op es location = b.operation scope r op es location := by
  have hunary (opcode : Opcode) (es : List Expr) (hes : ∀ e ∈ es, e.height ≤ n) :
      a.unary scope r opcode es location = b.unary scope r opcode es location := by
    cases es with
    | nil => rfl
    | cons e es => simp only [Lowering.unary, h.toRegister (hes e List.mem_cons_self)]
  have hafter (opcode : Opcode) (x : Atom) (e : Expr) (he : e.height ≤ n) :
      a.afterAtom scope r opcode x e location = b.afterAtom scope r opcode x e location := by
    simp only [Lowering.afterAtom, h.toOperand he]
  have hfolded (opcode : Opcode) :
      a.folded scope r opcode es location = b.folded scope r opcode es location := by
    simp only [Lowering.folded, h.operands hes]
  unfold Lowering.operation
  refine bind_congr fun state => ?_
  split
  · rfl
  · rw [hafter _ _ _ (hes _ List.mem_cons_self)]
  · rw [hafter _ _ _ (hes _ List.mem_cons_self)]
  · rw [hunary _ _ hes]
  · rw [hfolded]
  · rw [hfolded]
  · rw [hfolded]
  · rw [h.operands hes]
  · rw [h.operands hes]
  · rw [hunary _ _ hes]
  · rw [h.junction hes r]

theorem arguments (h : Alike n a b) (hes : ∀ e ∈ es, e.height ≤ n) :
    a.arguments scope es = b.arguments scope es := by
  induction es with
  | nil => rfl
  | cons e es ih =>
    obtain ⟨he, hes⟩ := List.forall_mem_cons.mp hes
    simp only [Lowering.arguments, h.toTemporary he, ih hes]

theorem call (h : Alike n a b) {callee : Expr} {location : Option Location}
    (hc : callee.height ≤ n) (hes : ∀ e ∈ es, e.height ≤ n) (r : Register) :
    a.call scope r callee es location = b.call scope r callee es location := by
  simp only [Lowering.call, h.into hc, h.arguments hes]

theorem lowerInto (h : Alike n a b) (he : e.height ≤ n + 1) (r : Register) :
    a.lowerInto scope r e = b.lowerInto scope r e := by
  unfold Lowering.lowerInto
  cases e with
  | literal q location => rfl
  | reference v location => rfl
  | assignment target value location =>
    simp only [Expr.height, Nat.add_le_add_iff_right] at he
    simp only [h.assign he]
  | branch test consequent otherwise location =>
    simp only [Expr.height, Nat.add_le_add_iff_right, Nat.max_le, Expr.heightOfOption_le] at he
    exact h.branch he.1 he.2.1 he.2.2 r
  | cond clauses otherwise location =>
    simp only [Expr.height, Nat.add_le_add_iff_right, Nat.max_le, Expr.heightOfOption_le,
      Expr.heightOfClauses_le] at he
    exact h.cond he.1 he.2 r
  | operation op es location =>
    simp only [Expr.height, Nat.add_le_add_iff_right, Expr.heightOfList_le] at he
    exact h.operation he r
  | call callee es location =>
    simp only [Expr.height, Nat.add_le_add_iff_right, Nat.max_le, Expr.heightOfList_le] at he
    exact h.call he.1 he.2 r
  | lambda f location =>
    simp only [Expr.height, Nat.add_le_add_iff_right] at he
    simp only [Lowering.lambda, h.function f he]
  | sequence items location =>
    simp only [Expr.height, Nat.add_le_add_iff_right, Expr.heightOfList_le] at he
    dsimp only
    cases hl : items.getLast? with
    | none => rfl
    | some last =>
      have hm : items.dropLast.mapM (a.effect scope) = items.dropLast.mapM (b.effect scope) :=
        mapM_congr_of_mem fun e hm => h.effect (he e (List.dropLast_subset items hm))
      simp only [hm, h.into (he last (List.mem_of_getLast? hl))]

theorem lowerExpr (h : Alike n a b) (he : e.height ≤ n + 1) (d : Destination) :
    a.lowerExpr scope d e = b.lowerExpr scope d e := by
  cases d with
  | register r => exact h.lowerInto he r
  | nowhere =>
    change a.lowerEffect scope e = b.lowerEffect scope e
    unfold Lowering.lowerEffect
    split
    · rfl
    · rfl
    · rfl
    · rename_i items location
      simp only [Expr.height, Nat.add_le_add_iff_right, Expr.heightOfList_le] at he
      rw [mapM_congr_of_mem fun e hm => h.effect (he e hm)]
    · simp only [Expr.height, Nat.add_le_add_iff_right] at he
      exact h.assign he
    · simp only [h.lowerInto he]

theorem lowerFunction (h : Alike n a b) {f : Function} (hf : f.height ≤ n + 1) :
    a.lowerFunction f = b.lowerFunction f := by
  obtain ⟨hd, hb⟩ := Function.height_le.mp hf
  have hinit (slots : List Variable) (p : OptionalParameter Function)
      (hp : ∀ d ∈ p.default, d.height ≤ n) : a.initializer slots p = b.initializer slots p := by
    unfold initializer
    cases hdef : p.default with
    | none => rfl
    | some d => simp only [h.function d (hp d hdef)]
  have hfold (ps : List (OptionalParameter Function))
      (hps : ∀ p ∈ ps, ∀ d ∈ p.default, d.height ≤ n) (slots : List Variable) :
      ps.foldlM a.initializer slots = ps.foldlM b.initializer slots := by
    induction ps generalizing slots with
    | nil => rfl
    | cons p ps ih =>
      obtain ⟨hp, hps⟩ := List.forall_mem_cons.mp hps
      simp only [List.foldlM_cons, hinit slots p hp, ih hps]
  have hbody : a.procedureBody f.scope f = b.procedureBody f.scope f := by
    simp only [procedureBody, h.effect hb, h.toRegister hb]
  simp only [Lowering.lowerFunction, hfold _ hd, hbody]

end Alike

theorem within_alike {n m : Nat} (h : n ≤ m) : Alike n (within n) (within m) := by
  induction n generalizing m with
  | zero =>
    refine ⟨fun _ _ e he => ?_, fun f hf => ?_⟩
    · exact absurd (Nat.lt_of_lt_of_le e.height_pos he) (Nat.lt_irrefl 0)
    · exact absurd (Nat.lt_of_lt_of_le f.height_pos hf) (Nat.lt_irrefl 0)
  | succ n ih =>
    cases m with
    | zero => exact absurd h (Nat.not_succ_le_zero n)
    | succ m =>
      have hnm := ih (Nat.le_of_succ_le_succ h)
      exact ⟨fun _ d _ he => hnm.lowerExpr he d, fun _ hf => hnm.lowerFunction hf⟩

/-- Inside others a procedure has the same template as on its own. -/
theorem within_function {f : Function} {n : Nat} (h : f.height ≤ n) :
    (within n).function f = f.template :=
  ((within_alike h).function f (Nat.le_refl _)).symm

end Lowering

end RegisterScheme
