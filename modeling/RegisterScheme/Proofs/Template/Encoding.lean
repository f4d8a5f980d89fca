import RegisterScheme.Instruction.Basic

/-! An instruction has the fields that it was made from, and an operand is read as it was
written. -/

namespace RegisterScheme

namespace Instruction

variable {op : Opcode} {a : Register} {i : Instruction}

theorem abc_eq_ok {b c : Nat} (h : abc op a b c = .ok i) :
    i.opcode = op ∧ i.a = a ∧ i.b = b ∧ i.c = c := by
  unfold abc checkHalf at h
  by_cases hb : b < 512
  · by_cases hc : c < 512
    · simp only [dif_pos hb, dif_pos hc, bind, Except.bind, pure, Except.pure, Except.ok.injEq] at h
      subst h
      refine ⟨rfl, rfl, ?_, ?_⟩
      · simp only [Instruction.b]
        omega
      · simp only [Instruction.c]
        omega
    · simp only [dif_pos hb, dif_neg hc, bind, Except.bind, reduceCtorEq] at h
  · simp only [dif_neg hb, bind, Except.bind, reduceCtorEq] at h

theorem ab_eq_ok {b : Nat} (h : ab op a b = .ok i) :
    i.opcode = op ∧ i.a = a ∧ i.b = b ∧ i.c = 0 :=
  abc_eq_ok h

theorem abx_eq_ok {field : Nat} (h : abx op a field = .ok i) :
    i.opcode = op ∧ i.a = a ∧ i.field.val = field := by
  unfold abx at h
  split at h
  · obtain rfl := Except.ok.inj h
    exact ⟨rfl, rfl, rfl⟩
  · cases h

theorem asbx_eq_ok {displacement : Int} (h : asbx op a displacement = .ok i) :
    i.opcode = op ∧ i.a = a ∧ i.displacement = displacement := by
  unfold asbx at h
  dsimp only at h
  split at h
  · rename_i hb
    obtain rfl := Except.ok.inj h
    refine ⟨rfl, rfl, ?_⟩
    simp only [Instruction.displacement]
    omega
  · cases h

theorem checkHalf_error_iff (op : Opcode) (n : Nat) :
    (∃ e, checkHalf op n = .error e) ↔ maxHalf < n := by
  unfold checkHalf maxHalf
  split
  · exact iff_of_false (by simp only [reduceCtorEq, exists_false, not_false_eq_true]) (by omega)
  · exact iff_of_true ⟨_, rfl⟩ (by omega)

theorem abc_error_iff {b c : Nat} :
    (∃ e, abc op a b c = .error e) ↔ maxHalf < b ∨ maxHalf < c := by
  rw [← checkHalf_error_iff op b, ← checkHalf_error_iff op c, abc]
  cases checkHalf op b with
  | error e => exact iff_of_true ⟨e, rfl⟩ (.inl ⟨e, rfl⟩)
  | ok b => cases checkHalf op c with
    | error e => exact iff_of_true ⟨e, rfl⟩ (.inr ⟨e, rfl⟩)
    | ok c =>
      simp only [bind, Except.bind, pure, Except.pure, reduceCtorEq, exists_false, or_self]

theorem abx_error_iff {field : Nat} :
    (∃ e, abx op a field = .error e) ↔ maxField < field := by
  unfold abx maxField
  split
  · exact iff_of_false (by simp only [reduceCtorEq, exists_false, not_false_eq_true]) (by omega)
  · exact iff_of_true ⟨_, rfl⟩ (by omega)

theorem asbx_error_iff {displacement : Int} :
    (∃ e, asbx op a displacement = .error e)
      ↔ displacement < -131071 ∨ 131072 < displacement := by
  have hbias : (jumpBias : Int) = 131071 := rfl
  unfold asbx
  dsimp only
  split
  · exact iff_of_false (by simp only [reduceCtorEq, exists_false, not_false_eq_true]) (by omega)
  · exact iff_of_true ⟨_, rfl⟩ (by omega)

variable (i) in
theorem b_lt : i.b < 512 := Nat.div_lt_of_lt_mul i.field.isLt

variable (i) in
theorem c_lt : i.c < 512 := Nat.mod_lt _ (by decide)

variable (i) in
theorem field_eq_halves : i.b * 512 + i.c = i.field := Nat.div_add_mod' i.field 512

variable (i) in
/-- An instruction is put together again from its operands. -/
theorem abc_self : abc i.opcode i.a i.b i.c = .ok i := by
  simp only [abc, checkHalf, dif_pos i.b_lt, dif_pos i.c_lt, bind, Except.bind, pure, Except.pure,
    i.field_eq_halves, Fin.eta]

variable (i) in
theorem abx_self : abx i.opcode i.a i.field = .ok i := dif_pos i.field.isLt

end Instruction

namespace Operand

theorem ofHalf_register {r : Nat} (h : r < 256) : ofHalf (register r).half = register r := by
  unfold ofHalf
  rw [half, if_neg (by omega)]

theorem ofHalf_constant {index : Nat} (h : index ≤ maxConstant) :
    ofHalf (constant index).half = constant index := by
  unfold maxConstant at h
  unfold ofHalf
  rw [half, if_pos (by omega)]
  exact congrArg constant (by omega)

theorem constant?_eq_some {index : Nat} {o : Operand} (h : constant? index = some o) :
    o = constant index ∧ index ≤ maxConstant := by
  unfold constant? at h
  split at h
  · exact ⟨(Option.some.inj h).symm, by assumption⟩
  · cases h

end Operand

end RegisterScheme
