import RegisterScheme.Proofs.Generation.Choices

/-! Code for operations. Each operator has its plan; what its code leaves in use is freed. -/

namespace RegisterScheme

/-- The opcodes of a plan are of the kinds that its code needs: for several operands, for a single
one, and for comparisons. -/
def Operator.Plan.Sorted (several single comparing : Opcode → Prop) : Operator.Plan → Prop
  | fold opcode _ | binary opcode => several opcode
  | invert opcode alone _ => several opcode ∧ ∀ a ∈ alone, single a
  | unary opcode => single opcode
  | chain opcode _ => comparing opcode
  | isNull | junction _ => True

theorem Setting.evaluate_operation {scope : Scope} {outer : List Scope} (σ : Setting scope outer)
    {op : Operator} {es : List Expr} {location : Option Location} (hand : op ≠ .and)
    (hor : op ≠ .or) : σ.evaluate true (.operation op es location) = σ.operation op es location := by
  rw [Setting.evaluate, Evaluating.evaluate]
  · rfl
  · exact hand
  · exact hor

namespace Lowering

open Generating

variable {inner : Lowering} {n : Nat} {scope : Scope} {outer : List Scope} {b : Builder}
  {e : Expr} {es : List Expr} {r : Register} {location : Option Location}

/-- The code of an operation, with temporaries that it may leave in use. -/
def operationCode (inner : Lowering) (scope : Scope) (r : Register) (op : Operator) (es : List Expr)
    (location : Option Location) : Generating Code :=
  match op.plan, es with
  | .fold _ identity, [] => loadQuotation r ⟨0, .atom (.integer identity)⟩ location
  | .fold opcode identity, [e] | .invert opcode none identity, [e] =>
    inner.afterAtom scope r opcode (.integer identity) e location
  | .invert _ (some opcode) _, [e] => inner.unary scope r opcode [e] location
  | .fold opcode _, es | .invert opcode _ _, es | .binary opcode, es =>
    inner.folded scope r opcode es location
  | .chain opcode swap, es => do
    let (code, operands) ← inner.operands scope es
    pure (code ++ (← chain r opcode swap operands location))
  | .isNull, es => do
    let (code, operands) ← inner.operands scope es
    let (load, nil) ← atomOperand .nil location
    pure (code ++ load ++ (← chain r .equivalent false (operands ++ [nil]) location))
  | .unary opcode, es => inner.unary scope r opcode es location
  | .junction stop, es => inner.junction scope r stop es location

theorem operation_eq (inner : Lowering) (scope : Scope) (r : Register) (op : Operator)
    (es : List Expr) (location : Option Location) :
    inner.operation scope r op es location = do
      let mark := (← get).free
      let code ← inner.operationCode scope r op es location
      freeFrom scope mark
      return code := by
  unfold operation operationCode
  refine bind_congr fun b => ?_
  cases op.plan with
  | fold opcode identity => rcases es with _ | ⟨e, _ | ⟨e', es⟩⟩ <;> rfl
  | invert opcode alone identity =>
    cases alone <;> rcases es with _ | ⟨e, _ | ⟨e', es⟩⟩ <;> rfl
  | binary opcode => rfl
  | chain opcode swap => simp only [bind_assoc, pure_bind]
  | unary opcode => rfl
  | isNull => simp only [bind_assoc, pure_bind]
  | junction stop => rfl

/-- The code of an operation is one of a few, with opcodes of the kinds that its plan has. -/
theorem operationCode_cases {op : Operator} {several single comparing : Opcode → Prop}
    (hplan : op.plan.Sorted several single comparing) {motive : Generating Code → Prop}
    (hload : ∀ q, motive (loadQuotation r q location))
    (hafter : ∀ opcode a, ∀ e ∈ es, several opcode →
      motive (inner.afterAtom scope r opcode a e location))
    (hfolded : ∀ opcode, several opcode → motive (inner.folded scope r opcode es location))
    (hunary : ∀ opcode, single opcode → motive (inner.unary scope r opcode es location))
    (hchain : ∀ opcode swap, comparing opcode → motive (do
      let (code, operands) ← inner.operands scope es
      pure (code ++ (← chain r opcode swap operands location))))
    (hnull : motive (do
      let (code, operands) ← inner.operands scope es
      let (load, nil) ← atomOperand .nil location
      pure (code ++ load ++ (← chain r .equivalent false (operands ++ [nil]) location))))
    (hjunction : ∀ stop, motive (inner.junction scope r stop es location)) :
    motive (inner.operationCode scope r op es location) := by
  unfold operationCode
  generalize op.plan = plan at hplan ⊢
  cases plan with
  | fold opcode identity =>
    rcases es with _ | ⟨e, _ | ⟨e', es⟩⟩
    · exact hload _
    · exact hafter _ _ e List.mem_cons_self hplan
    · exact hfolded _ hplan
  | invert opcode alone identity =>
    obtain ⟨hseveral, halone⟩ := hplan
    cases alone with
    | none =>
      rcases es with _ | ⟨e, _ | ⟨e', es⟩⟩
      · exact hfolded _ hseveral
      · exact hafter _ _ e List.mem_cons_self hseveral
      · exact hfolded _ hseveral
    | some alone =>
      rcases es with _ | ⟨e, _ | ⟨e', es⟩⟩
      · exact hfolded _ hseveral
      · exact hunary _ (halone alone rfl)
      · exact hfolded _ hseveral
  | binary opcode => exact hfolded _ hplan
  | unary opcode => exact hunary _ hplan
  | chain opcode swap => exact hchain _ _ hplan
  | isNull => exact hnull
  | junction stop => exact hjunction stop

/-- Sums and products. -/
theorem fold_made (h : inner.Correct n) (hs : scope.Valid) (hb : b.Valid scope outer)
    (hes : ∀ e ∈ es, e.height ≤ n ∧ e.Scoped (scope :: outer)) (ht : scope.registers ≤ r.val)
    (hr : r.val < b.free) {opcode : Opcode} {arithmetic : Arithmetic} {op : Operator}
    {identity : Int64} (hplan : op.plan = .fold opcode identity)
    (hop : Running.arithmetic? opcode = some arithmetic)
    (hnone : Evaluating.operate op [] = pure (.integer identity))
    (hone : ∀ v, Evaluating.operate op [v] =
      Evaluating.ofExcept ([v].foldlM arithmetic.apply (.integer identity)))
    (hmore : ∀ u v vs, Evaluating.operate op (u :: v :: vs) =
      Evaluating.ofExcept ((v :: vs).foldlM arithmetic.apply u)) :
    Generates b (inner.operationCode scope r op es location) fun code c =>
      c.Raised b.free 0 code fun σ : Setting scope outer =>
        σ.Computes b.free r (σ.operation op es location) code := by
  unfold operationCode
  rw [hplan]
  match es, hes with
  | [], _ =>
    refine (loadQuotation_made hb (Nat.lt_of_lt_of_le hr hb.free_le) _).mono fun code c _ hm => ?_
    refine Builder.Made.raised ⟨hm.free, hm.valid, hm.works.imp fun σ _ hset => ?_⟩
    have hvalue : σ.operation op [] location = pure (.integer identity) := by
      rw [Setting.operation, Setting.values, Evaluating.values, pure_bind, hnone]
      rfl
    rw [hvalue]
    exact hset.computes ht b.free
  | [e], hes =>
    obtain ⟨he, hsc⟩ := hes e List.mem_cons_self
    exact afterAtom_made h hs hb he hsc ht hr hop hone
  | e :: e' :: es, hes =>
    exact folded_made h hs hb hes ht hr hop (by simp) fun u v vs _ => hmore u v vs

/-- Remainders, of two operands. -/
theorem binary_made (h : inner.Correct n) (hs : scope.Valid) (hb : b.Valid scope outer)
    (hes : ∀ e ∈ es, e.height ≤ n ∧ e.Scoped (scope :: outer)) (ht : scope.registers ≤ r.val)
    (hr : r.val < b.free) {opcode : Opcode} {arithmetic : Arithmetic} {op : Operator}
    (hplan : op.plan = .binary opcode) (hop : Running.arithmetic? opcode = some arithmetic)
    (hlen : es.length = 2) (heq : ∀ u v, Evaluating.operate op [u, v] =
      Evaluating.ofExcept ([v].foldlM arithmetic.apply u)) :
    Generates b (inner.operationCode scope r op es location) fun code c =>
      c.Raised b.free 0 code fun σ : Setting scope outer =>
        σ.Computes b.free r (σ.operation op es location) code := by
  unfold operationCode
  rw [hplan]
  refine folded_made h hs hb hes ht hr hop (Nat.le_of_eq hlen.symm) fun u v vs hvs => ?_
  obtain rfl : vs = [] := by simpa [hlen] using hvs
  exact heq u v

/-- Comparisons of all neighbours. -/
theorem chained_made (h : inner.Correct n) (hs : scope.Valid) (hb : b.Valid scope outer)
    (hes : ∀ e ∈ es, e.height ≤ n ∧ e.Scoped (scope :: outer)) (ht : scope.registers ≤ r.val)
    (hr : r.val < b.free) {opcode : Opcode} {comparison : Comparison} {op : Operator}
    {swap : Bool} (hplan : op.plan = .chain opcode swap)
    (hop : Running.comparison? opcode = some comparison) (hlen : 1 ≤ es.length)
    (heq : ∀ u vs, Evaluating.operate op (u :: vs) = do
      return .boolean (← Evaluating.ofExcept (StandardNative.chain comparison swap u vs))) :
    Generates b (inner.operationCode scope r op es location) fun code c =>
      c.Raised b.free 0 code fun σ : Setting scope outer =>
        σ.Computes b.free r (σ.operation op es location) code := by
  unfold operationCode
  rw [hplan]
  exact compared_made h hs hb hes ht hr hop swap hlen heq

/-- The code of an operation leaves its value in a register. -/
theorem operationCode_made (h : inner.Correct n) (hs : scope.Valid) (hb : b.Valid scope outer)
    (hes : ∀ e ∈ es, e.height ≤ n ∧ e.Scoped (scope :: outer)) {op : Operator}
    (harity : op.arity.accepts es.length) (ht : scope.registers ≤ r.val) (hr : r.val < b.free) :
    Generates b (inner.operationCode scope r op es location) fun code c =>
      c.Raised b.free 0 code fun σ : Setting scope outer =>
        σ.Computes b.free r (σ.evaluate true (.operation op es location)) code := by
  have hraised {op : Operator} (hand : op ≠ .and) (hor : op ≠ .or)
      (hm : Generates b (inner.operationCode scope r op es location) fun code c =>
        c.Raised b.free 0 code fun σ : Setting scope outer =>
          σ.Computes b.free r (σ.operation op es location) code) :
      Generates b (inner.operationCode scope r op es location) fun code c =>
        c.Raised b.free 0 code fun σ : Setting scope outer =>
          σ.Computes b.free r (σ.evaluate true (.operation op es location)) code := by
    refine hm.mono fun code c _ hm => ⟨hm.free_le, hm.valid, hm.works.imp fun σ _ hc => ?_⟩
    rwa [σ.evaluate_operation hand hor]
  cases op
  case add =>
    exact hraised (by simp) (by simp) <|
      fold_made h hs hb hes ht hr rfl rfl rfl (fun _ => rfl) fun _ _ _ => rfl
  case multiply =>
    exact hraised (by simp) (by simp) <|
      fold_made h hs hb hes ht hr rfl rfl rfl (fun _ => rfl) fun _ _ _ => rfl
  case subtract =>
    refine hraised (by simp) (by simp) ?_
    obtain _ | ⟨e, _ | ⟨e', es⟩⟩ := es
    · exact absurd harity (by decide)
    · obtain ⟨he, hsc⟩ := hes e List.mem_cons_self
      exact unary_made h hs hb he hsc hr (by simp) fun σ w s v q i hq hw hh _ hi =>
        Setting.negate_runs location hi hw hh ht hq
    · have hop : Running.arithmetic? .subtract = some .subtract := rfl
      exact folded_made h hs hb hes ht hr hop (by simp) fun _ _ _ _ => rfl
  case divide =>
    refine hraised (by simp) (by simp) ?_
    obtain _ | ⟨e, _ | ⟨e', es⟩⟩ := es
    · exact absurd harity (by decide)
    · obtain ⟨he, hsc⟩ := hes e List.mem_cons_self
      have hop : Running.arithmetic? .divide = some .divide := rfl
      exact afterAtom_made h hs hb he hsc ht hr hop fun _ => rfl
    · have hop : Running.arithmetic? .divide = some .divide := rfl
      exact folded_made h hs hb hes ht hr hop (by simp) fun _ _ _ _ => rfl
  case modulo =>
    exact hraised (by simp) (by simp) <|
      binary_made h hs hb hes ht hr rfl rfl (beq_iff_eq.mp harity) fun _ _ => rfl
  case remainder =>
    exact hraised (by simp) (by simp) <|
      binary_made h hs hb hes ht hr rfl rfl (beq_iff_eq.mp harity) fun _ _ => rfl
  case cons => exact hraised (by simp) (by simp) (cons_made h hs hb hes ht hr (beq_iff_eq.mp harity))
  case equivalent =>
    refine hraised (by simp) (by simp) (chained_made h hs hb hes ht hr rfl rfl ?_ fun _ _ => rfl)
    rw [beq_iff_eq.mp harity]
    exact Nat.le_succ 1
  case equalNumbers | less | greater | lessOrEqual | greaterOrEqual =>
    have hlen : 1 ≤ es.length := Nat.le_of_succ_le (of_decide_eq_true harity)
    exact hraised (by simp) (by simp) (chained_made h hs hb hes ht hr rfl rfl hlen fun _ _ => rfl)
  case and =>
    refine (junction_made h hs hb hes ht hr false).mono fun code c _ hm => hm.raised.imp ?_
    intro σ hc
    rwa [Setting.evaluate, Evaluating.evaluate]
  case or =>
    refine (junction_made h hs hb hes ht hr true).mono fun code c _ hm => hm.raised.imp ?_
    intro σ hc
    rwa [Setting.evaluate, Evaluating.evaluate]
  all_goals
    obtain ⟨e, rfl⟩ := List.length_eq_one_iff.mp (beq_iff_eq.mp harity)
    obtain ⟨he, hsc⟩ := hes e List.mem_cons_self
    refine hraised (by simp) (by simp) ?_
  · exact unary_made h hs hb he hsc hr (by simp) fun σ w s v q i hq hw hh hv hi =>
      Setting.part_runs location (.inl ⟨rfl, rfl⟩) hi hw hh hv ht hq
  · exact unary_made h hs hb he hsc hr (by simp) fun σ w s v q i hq hw hh hv hi =>
      Setting.part_runs location (.inr ⟨rfl, rfl⟩) hi hw hh hv ht hq
  · exact isNull_made h hs hb he hsc ht hr
  · exact unary_made h hs hb he hsc hr (by simp) fun σ w s v q i hq hw hh _ hi =>
      Setting.not_runs location hi hw hh ht hq

/-- Temporaries that code leaves in use are freed behind it. -/
theorem freed_made (act : Nat → Generating Code) (after : Nat)
    {A : Code → Setting scope outer → Prop} (hb : b.Valid scope outer)
    (hact : Generates b (act b.free) fun code c => c.Raised b.free after code (A code)) :
    Generates b (do
        let mark := (← get).free
        let code ← act mark
        freeFrom scope mark
        return code) fun code c => c.Made b.free after code (A code) := by
  refine Keeps.bind (P := fun a c => a = b ∧ c = b) ⟨.refl b, rfl, rfl⟩ ?_
  rintro _ b _ ⟨rfl, rfl⟩
  refine Keeps.bind hact fun code c _ hm => ?_
  refine Keeps.bind (freeFrom_keeps hm.valid hb.registers_le hm.free_le) fun _ d hcd hd =>
    .pure (.refl d) ⟨hd.1, hd.2, hm.works.grows hcd⟩

theorem operation_made (h : inner.Correct n) (hs : scope.Valid) (hb : b.Valid scope outer)
    {op : Operator} (hheight : (Expr.operation op es location).height ≤ n + 1)
    (hsc : (Expr.operation op es location).Scoped (scope :: outer))
    (ht : scope.registers ≤ r.val) (hr : r.val < b.free) :
    Generates b (inner.operation scope r op es location) fun code c =>
      c.Made b.free 0 code fun σ : Setting scope outer =>
        σ.Computes b.free r (σ.evaluate true (.operation op es location)) code := by
  cases hsc with
  | operation harity hsc =>
  simp only [Expr.height, Nat.add_le_add_iff_right, Expr.heightOfList_le] at hheight
  rw [operation_eq]
  exact freed_made (fun _ => inner.operationCode scope r op es location) 0 hb
    (operationCode_made h hs hb (fun e he => ⟨hheight e he, hsc e he⟩) harity ht hr)

end Lowering

end RegisterScheme
