import RegisterScheme.Proofs.Template.Encoding
import RegisterScheme.Proofs.Template.Room

/-! When each kind of instruction fits. -/

namespace RegisterScheme

namespace Instruction

variable {i : Instruction} {r : Room}

/-- Instructions that refer to registers only. -/
theorem fits_of_registers (ho : i.opcode ∈ [.move, .loadBoolean, .negate, .not, .test,
    .testSet, .return, .car, .cdr]) (h : ∀ q ∈ i.registers, q < r.frameSize) :
    i.Fits r where
  registers := h
  halves half hh := by
    unfold halves at hh
    cases hop : i.opcode <;> simp_all
  constant hop := by simp [hop] at ho
  name hop := by rcases hop with hop | hop <;> simp [hop] at ho
  captured hop := by rcases hop with hop | hop <;> simp [hop] at ho
  nested hop := by simp [hop] at ho
  forward hop := by simp [hop] at ho
  ordered hop := by simp [hop] at ho
  counted hop := by simp [hop] at ho

/-- Instructions that refer to operands, and perhaps to a register for the result. -/
theorem fits_of_operands {x y : Operand} (ho : i.opcode ∈ [.add, .subtract, .multiply, .divide,
    .modulo, .remainder, .cons, .equivalent, .equalNumbers, .less, .lessOrEqual])
    (h : i.a.val < r.frameSize) (hb : i.b = x.half) (hc : i.c = y.half) (hx : r.Holds x.half)
    (hy : r.Holds y.half) : i.Fits r where
  registers q hq := by
    unfold registers at hq
    cases hop : i.opcode <;> simp_all
  halves half hh := by
    unfold halves at hh
    cases hop : i.opcode <;> simp_all <;> rcases hh with rfl | rfl <;> assumption
  constant hop := by simp [hop] at ho
  name hop := by rcases hop with hop | hop <;> simp [hop] at ho
  captured hop := by rcases hop with hop | hop <;> simp [hop] at ho
  nested hop := by simp [hop] at ho
  forward hop := by simp [hop] at ho
  ordered hop := by simp [hop] at ho
  counted hop := by simp [hop] at ho

theorem fits_loadConstant (ho : i.opcode = .loadConstant) (h : i.a.val < r.frameSize)
    (hl : r.Constant i.field) : i.Fits r := by
  refine ⟨by simpa [registers, ho], by simp [halves, ho], fun _ => hl, ?_, ?_, ?_, ?_, ?_, ?_⟩ <;>
    simp [ho]

theorem fits_global (ho : i.opcode = .getGlobal ∨ i.opcode = .setGlobal)
    (h : i.a.val < r.frameSize) (hl : r.Name i.field) : i.Fits r := by
  rcases ho with ho | ho <;>
    refine ⟨by simpa [registers, ho], by simp [halves, ho], ?_, fun _ => hl, ?_, ?_, ?_, ?_, ?_⟩ <;>
    simp [ho]

theorem fits_captured (ho : i.opcode = .getCaptured ∨ i.opcode = .setCaptured)
    (h : i.a.val < r.frameSize) (hs : r.Captured i.b) : i.Fits r := by
  rcases ho with ho | ho <;>
    refine ⟨by simpa [registers, ho], by simp [halves, ho], ?_, ?_, fun _ => hs, ?_, ?_, ?_, ?_⟩ <;>
    simp [ho]

theorem fits_closure (ho : i.opcode = .closure) (h : i.a.val < r.frameSize)
    (hl : r.Nested i.field) : i.Fits r := by
  refine ⟨by simpa [registers, ho], by simp [halves, ho], ?_, ?_, ?_, fun _ => hl, ?_, ?_, ?_⟩ <;>
    simp [ho]

theorem fits_loadNil (ho : i.opcode = .loadNil) (hb : i.b = i.a.val) (h : i.a.val < r.frameSize) :
    i.Fits r := by
  refine ⟨fun q hq => ?_, by simp [halves, ho], ?_, ?_, ?_, ?_, ?_, fun _ => Nat.le_of_eq hb.symm,
    ?_⟩
  · rw [registers, ho, hb] at hq
    obtain rfl : q = i.a.val := by simpa using hq
    exact h
  all_goals simp [ho]

theorem fits_call (ho : i.opcode = .call) (hb : 1 ≤ i.b)
    (h : ∀ q, i.a.val ≤ q → q < i.a.val + i.b → q < r.frameSize) : i.Fits r := by
  refine ⟨fun q hq => ?_, by simp [halves, ho], ?_, ?_, ?_, ?_, ?_, ?_, fun _ => hb⟩
  · simp only [registers, ho, List.mem_cons, List.mem_range'_1] at hq
    exact h q (by omega) (by omega)
  all_goals simp [ho]

theorem fits_jump (ho : i.opcode = .jump) (hd : 0 ≤ i.displacement) : i.Fits r := by
  refine ⟨by simp [registers, ho], by simp [halves, ho], ?_, ?_, ?_, ?_, fun _ => hd, ?_, ?_⟩ <;>
    simp [ho]

/-- Only jumps, tests and comparisons lead further than to the next line. -/
theorem reach_eq_zero (ho : i.opcode ∉ [.jump, .equivalent, .equalNumbers, .less, .lessOrEqual,
    .test, .testSet, .loadBoolean]) : i.reach = 0 := by
  unfold reach
  cases hop : i.opcode <;> simp_all

end Instruction

namespace Room

variable {r : Room}

theorem holds_register {q : Nat} (hq : q < r.frameSize) (h : q < 256) :
    r.Holds (Operand.register q).half := by
  rw [Holds, Operand.ofHalf_register h]
  exact hq

theorem holds_constant {index : Nat} (h : index ≤ maxConstant) (hc : r.Constant index) :
    r.Holds (Operand.constant index).half := by
  rw [Holds, Operand.ofHalf_constant h]
  exact hc

end Room

end RegisterScheme
