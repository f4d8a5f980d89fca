import RegisterScheme.Proofs.Template.Bits

/-! Instructions and words stand for each other. -/

namespace RegisterScheme

namespace Instruction

variable {op : Opcode} {a : Register} {i j : Instruction}

theorem abc_word {b c : Nat} (h : abc op a b c = .ok i) :
    i.word = Bits.ofHalves op a b c ∧ Bits.opcode? i.word = some op ∧ Bits.a i.word = a ∧
      Bits.b i.word = b ∧ Bits.c i.word = c := by
  obtain ⟨rfl, rfl, rfl, rfl⟩ := abc_eq_ok h
  have hshows := Bits.shows_word i
  exact ⟨i.word_eq_ofHalves, hshows.opcode, hshows.a, hshows.b, hshows.c⟩

theorem abx_word {field : Nat} (h : abx op a field = .ok i) :
    i.word = Bits.ofField op a field ∧ Bits.opcode? i.word = some op ∧ Bits.a i.word = a ∧
      Bits.field i.word = field := by
  obtain ⟨rfl, rfl, rfl⟩ := abx_eq_ok h
  have hshows := Bits.shows_word i
  exact ⟨i.word_eq_ofField, hshows.opcode, hshows.a, hshows.field⟩

theorem asbx_word {displacement : Int} (h : asbx op a displacement = .ok i) :
    Bits.opcode? i.word = some op ∧ Bits.a i.word = a ∧
      Bits.displacement i.word = displacement := by
  obtain ⟨rfl, rfl, rfl⟩ := asbx_eq_ok h
  have hshows := Bits.shows_word i
  exact ⟨hshows.opcode, hshows.a, hshows.displacement⟩

theorem ofWord_reencodes {w : UInt32} (h : Bits.opcode? w = some op) :
    ∃ i, ofWord w = .ok i ∧ i.word = w ∧ abc op (Bits.a w) (Bits.b w) (Bits.c w) = .ok i ∧
      abx op (Bits.a w) (Bits.field w) = .ok i := by
  have hshows := Bits.shows_instruction h
  refine ⟨Bits.instruction op w, Bits.ofWord_eq h, Bits.instruction_word h, ?_,
    abx_self (Bits.instruction op w)⟩
  rw [hshows.b, hshows.c]
  exact abc_self (Bits.instruction op w)

/-- Only the field of an instruction has another displacement. -/
theorem withDisplacement_word {displacement : Int}
    (h : i.withDisplacement displacement = .ok j) :
    Bits.displacement j.word = displacement ∧ j.word &&& 0x3fff = i.word &&& 0x3fff := by
  obtain ⟨hop, ha, hdisplacement⟩ := asbx_eq_ok h
  refine ⟨(Bits.shows_word j).displacement.trans hdisplacement, UInt32.toNat_inj.mp ?_⟩
  rw [Bits.low_eq, Bits.low_eq, word_toNat, word_toNat, hop, ha]
  omega

end Instruction

namespace Bits

theorem constant?_eq_none_iff {index : Nat} : constant? index = none ↔ 255 < index := by
  unfold constant? maxConstant
  split
  · exact iff_of_false (by simp only [reduceCtorEq, not_false_eq_true]) (by omega)
  · exact iff_of_true rfl (by omega)

/-- A half with the mark is the operand of the one literal whose index it holds. -/
theorem constant?_eq_some_iff {index : Nat} {half : UInt16} :
    constant? index = some half
      ↔ half.toNat ≤ 511 ∧ isConstant half = true ∧ constantIndex half = index := by
  rw [isConstant_iff, constantIndex_eq]
  unfold constant?
  split
  · rename_i hindex
    have hmark := mark_or_toNat hindex
    unfold maxConstant at hindex
    rw [Option.some.injEq, ← UInt16.toNat_inj, hmark]
    omega
  · rename_i hindex
    unfold maxConstant at hindex
    exact iff_of_false (by simp only [reduceCtorEq, not_false_eq_true]) (by omega)

theorem isConstant_register (r : Register) : isConstant (UInt16.ofNat r) = false := by
  have hr := r.isLt
  have hhalf : (UInt16.ofNat r).toNat = r :=
    UInt16.toNat_ofNat_of_lt' (Nat.lt_trans hr (by decide))
  rw [Bool.eq_false_iff, ne_eq, isConstant_iff, hhalf]
  omega

theorem half_constant? (index : Nat) :
    (Operand.constant? index).map Operand.half = (constant? index).map UInt16.toNat := by
  unfold Operand.constant? constant?
  split
  · rename_i hindex
    exact congrArg some (mark_or_toNat hindex).symm
  · rfl

end Bits

/-- Instructions are the words that they are written as. They are made of the operands that fit and
of no others, and the bits of their words give the operands back; a word that names an opcode is
that of one instruction, made again from the parts in either layout; another displacement changes
nothing else; and an operand is either the one literal up to 255 that its mark and its index tell,
or a register. -/
theorem Instruction.encodes :
    (∀ i : Instruction, Bits.Shows i.word i ∧ ofWord i.word = .ok i) ∧
    (∀ (op : Opcode) (a : Register) (b c : Nat),
      ((∃ e, abc op a b c = .error e) ↔ 511 < b ∨ 511 < c) ∧
      ∀ i, abc op a b c = .ok i →
        i.word = Bits.ofHalves op a b c ∧ Bits.opcode? i.word = some op ∧ Bits.a i.word = a ∧
          Bits.b i.word = b ∧ Bits.c i.word = c) ∧
    (∀ (op : Opcode) (a : Register) (field : Nat),
      ((∃ e, abx op a field = .error e) ↔ 2 ^ 18 - 1 < field) ∧
      ∀ i, abx op a field = .ok i →
        i.word = Bits.ofField op a field ∧ Bits.opcode? i.word = some op ∧ Bits.a i.word = a ∧
          Bits.field i.word = field) ∧
    (∀ (op : Opcode) (a : Register) (displacement : Int),
      ((∃ e, asbx op a displacement = .error e)
        ↔ displacement < -131071 ∨ 131072 < displacement) ∧
      ∀ i, asbx op a displacement = .ok i →
        Bits.opcode? i.word = some op ∧ Bits.a i.word = a ∧
          Bits.displacement i.word = displacement) ∧
    (∀ (w : UInt32) (op : Opcode), Bits.opcode? w = some op →
      ∃ i, ofWord w = .ok i ∧ i.word = w ∧ abc op (Bits.a w) (Bits.b w) (Bits.c w) = .ok i ∧
        abx op (Bits.a w) (Bits.field w) = .ok i) ∧
    (∀ (i : Instruction) (displacement : Int),
      ((∃ e, i.withDisplacement displacement = .error e)
        ↔ displacement < -131071 ∨ 131072 < displacement) ∧
      ∀ j, i.withDisplacement displacement = .ok j →
        Bits.displacement j.word = displacement ∧ j.word &&& 0x3fff = i.word &&& 0x3fff) ∧
    (∀ index : Nat, (Bits.constant? index = none ↔ 255 < index) ∧
      (Operand.constant? index).map Operand.half = (Bits.constant? index).map UInt16.toNat) ∧
    (∀ (index : Nat) (half : UInt16), Bits.constant? index = some half ↔
      half.toNat ≤ 511 ∧ Bits.isConstant half = true ∧ Bits.constantIndex half = index) ∧
    (∀ half : UInt16, Operand.ofHalf half.toNat
      = if Bits.isConstant half then .constant (Bits.constantIndex half)
        else .register half.toNat) ∧
    ∀ r : Register, Bits.isConstant (UInt16.ofNat r) = false :=
  ⟨fun i => ⟨Bits.shows_word i, Bits.ofWord_word i⟩,
    fun _ _ _ _ => ⟨abc_error_iff, fun _ => abc_word⟩,
    fun _ _ _ => ⟨abx_error_iff, fun _ => abx_word⟩,
    fun _ _ _ => ⟨asbx_error_iff, fun _ => asbx_word⟩,
    fun _ _ => ofWord_reencodes,
    fun _ _ => ⟨asbx_error_iff, fun _ => withDisplacement_word⟩,
    fun index => ⟨Bits.constant?_eq_none_iff, Bits.half_constant? index⟩,
    fun _ _ => Bits.constant?_eq_some_iff, Bits.ofHalf_eq, Bits.isConstant_register⟩

end RegisterScheme
