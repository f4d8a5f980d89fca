import Mathlib.Data.Nat.Bitwise
import Mathlib.Data.List.Nodup
import RegisterScheme.Proofs.Template.Encoding

/-! Instruction words and operands bit by bit. The fields of a word lie side by side, so shifts
and masks read what was put together, and bit 8 of an operand tells the two kinds apart. -/

namespace RegisterScheme

namespace Bits

def opcode? (w : UInt32) : Option Opcode := Opcode.ofCode? (w &&& 0x3f).toNat

def a (w : UInt32) : Register :=
  ⟨(w >>> 6 &&& 0xff).toNat, by
    rw [UInt32.toNat_and]
    exact Nat.lt_succ_of_le Nat.and_le_right⟩

def c (w : UInt32) : Nat := (w >>> 14 &&& 0x1ff).toNat

def b (w : UInt32) : Nat := (w >>> 23 &&& 0x1ff).toNat

def field (w : UInt32) : Nat := (w >>> 14).toNat

def displacement (w : UInt32) : Int := (field w : Int) - jumpBias

/-- A word whose field is whole. -/
def ofField (op : Opcode) (a : Register) (field : Nat) : UInt32 :=
  UInt32.ofNat op.code ||| UInt32.ofNat a <<< 6 ||| UInt32.ofNat field <<< 14

/-- A word whose field is two halves. -/
def ofHalves (op : Opcode) (a : Register) (b c : Nat) : UInt32 :=
  UInt32.ofNat op.code ||| UInt32.ofNat a <<< 6 ||| UInt32.ofNat c <<< 14 |||
    UInt32.ofNat b <<< 23

/-- The mark of a literal among the operands. -/
def mark : UInt16 := 0x100

def constant? (index : Nat) : Option UInt16 :=
  if index ≤ maxConstant then some (mark ||| UInt16.ofNat index) else none

def isConstant (half : UInt16) : Bool := half &&& mark != 0

def constantIndex (half : UInt16) : Nat := (half &&& ~~~mark).toNat

end Bits

namespace Opcode

theorem code_lt (op : Opcode) : op.code < 64 := by
  cases op <;> decide

theorem code_of_ofCode? {n : Nat} {op : Opcode} (h : ofCode? n = some op) : op.code = n := by
  obtain ⟨hn, rfl⟩ := List.getElem?_eq_some_iff.mp h
  have hnodup : all.Nodup := by decide
  exact hnodup.idxOf_getElem n hn

end Opcode

namespace Bits

section Reading

variable (w : UInt32)

theorem code_eq : (w &&& 0x3f).toNat = w.toNat % 64 := by
  rw [UInt32.toNat_and]
  exact Nat.and_two_pow_sub_one_eq_mod w.toNat 6

theorem a_eq : (a w).val = w.toNat / 64 % 256 := by
  change w.toNat >>> 6 &&& 0xff = _
  rw [Nat.shiftRight_eq_div_pow]
  exact Nat.and_two_pow_sub_one_eq_mod _ 8

theorem c_eq : c w = w.toNat / 16384 % 512 := by
  change w.toNat >>> 14 &&& 0x1ff = _
  rw [Nat.shiftRight_eq_div_pow]
  exact Nat.and_two_pow_sub_one_eq_mod _ 9

theorem b_eq : b w = w.toNat / 8388608 % 512 := by
  change w.toNat >>> 23 &&& 0x1ff = _
  rw [Nat.shiftRight_eq_div_pow]
  exact Nat.and_two_pow_sub_one_eq_mod _ 9

theorem field_eq : field w = w.toNat / 16384 := Nat.shiftRight_eq_div_pow w.toNat 14

/-- What lies below the field. -/
theorem low_eq : (w &&& 0x3fff).toNat = w.toNat % 16384 := by
  rw [UInt32.toNat_and]
  exact Nat.and_two_pow_sub_one_eq_mod w.toNat 14

end Reading

section Writing

variable (op : Opcode) (a : Register)

/-- A part that lies above all the others is added to them. -/
theorem or_shiftLeft (shift : Nat) {n low : Nat} {v : UInt32} (hv : v.toNat = low)
    (hlow : low < 2 ^ shift) (hshift : shift < 32) (hn : n < 2 ^ (32 - shift)) :
    (v ||| UInt32.ofNat n <<< UInt32.ofNat shift).toNat = low + n * 2 ^ shift := by
  -- no bit of the part is shifted out of the word
  have hsize : n * 2 ^ shift < 2 ^ 32 := by
    have hpow : 2 ^ (32 - shift) * 2 ^ shift = 2 ^ 32 := by
      rw [← Nat.pow_add, Nat.sub_add_cancel (Nat.le_of_lt hshift)]
    exact hpow ▸ Nat.mul_lt_mul_of_pos_right hn (Nat.two_pow_pos shift)
  have hword : n < 2 ^ 32 :=
    Nat.lt_of_le_of_lt (Nat.le_mul_of_pos_right n (Nat.two_pow_pos shift)) hsize
  rw [UInt32.toNat_or, UInt32.toNat_shiftLeft, UInt32.toNat_ofNat_of_lt' hword,
    UInt32.toNat_ofNat_of_lt' (Nat.lt_trans hshift (by decide)), Nat.mod_eq_of_lt hshift,
    Nat.shiftLeft_eq, Nat.mod_eq_of_lt hsize, hv, ← Nat.shiftLeft_eq, Nat.lor_comm,
    ← Nat.shiftLeft_add_eq_or_of_lt hlow, Nat.add_comm]

theorem ofField_toNat {field : Nat} (hfield : field < 262144) :
    (ofField op a field).toNat = op.code + a * 64 + field * 16384 := by
  have hcode := op.code_lt
  have ha := a.isLt
  have hop : (UInt32.ofNat op.code).toNat = op.code :=
    UInt32.toNat_ofNat_of_lt' (Nat.lt_trans hcode (by decide))
  have hboth := or_shiftLeft 6 (n := a) hop hcode (by decide) (by omega)
  exact or_shiftLeft 14 hboth (by omega) (by decide) hfield

theorem ofHalves_eq {b c : Nat} (hb : b < 512) (hc : c < 512) :
    ofHalves op a b c = ofField op a (b * 512 + c) := by
  refine UInt32.toNat_inj.mp ?_
  have hlow := ofField_toNat op a (show c < 262144 by omega)
  have hcode := op.code_lt
  have ha := a.isLt
  rw [ofField_toNat op a (by omega)]
  refine (or_shiftLeft 23 hlow (by omega) (by decide) hb).trans ?_
  omega

end Writing

section Halves

theorem and_add_and_not (x m : BitVec 16) : (x &&& m) + (x &&& ~~~m) = x := by
  have hdisjoint : x &&& m &&& (x &&& ~~~m) = 0#16 := by
    ext i
    simp only [BitVec.getElem_and, BitVec.getElem_not, BitVec.getElem_zero]
    grind
  have hall : m ||| ~~~m = BitVec.allOnes 16 := by
    ext i
    simp
  rw [BitVec.add_eq_or_of_and_eq_zero _ _ hdisjoint, ← BitVec.and_or_distrib_left, hall,
    BitVec.and_allOnes]

variable (half : UInt16)

theorem and_mark_toNat : (half &&& mark).toNat = half.toNat / 256 % 2 * 256 := by
  rw [UInt16.toNat_and]
  refine (Nat.and_two_pow half.toNat 8).trans ?_
  rw [Nat.testBit_eq_decide_div_mod_eq]
  rcases Nat.mod_two_eq_zero_or_one (half.toNat / 256) with hbit | hbit <;> simp [hbit]

theorem isConstant_iff : isConstant half = true ↔ half.toNat / 256 % 2 = 1 := by
  have hmark := and_mark_toNat half
  rw [isConstant, bne_iff_ne, ne_eq, ← UInt16.toNat_inj, hmark]
  change half.toNat / 256 % 2 * 256 ≠ 0 ↔ _
  omega

theorem constantIndex_eq : constantIndex half = half.toNat - half.toNat / 256 % 2 * 256 := by
  have hsum : ((half &&& mark).toNat + constantIndex half) % 65536 = half.toNat :=
    (UInt16.toNat_add _ _).symm.trans
      (congrArg BitVec.toNat (and_add_and_not half.toBitVec mark.toBitVec))
  have hmark := and_mark_toNat half
  have hhalf := half.toNat_lt
  have hrest : constantIndex half < 65536 := (half &&& ~~~mark).toNat_lt
  omega

/-- An operand is told by its mark. -/
theorem ofHalf_eq :
    Operand.ofHalf half.toNat
      = if isConstant half then .constant (constantIndex half) else .register half.toNat := by
  by_cases hbit : half.toNat / 256 % 2 = 1
  · rw [if_pos ((isConstant_iff half).mpr hbit), constantIndex_eq, hbit]
    exact if_pos hbit
  · rw [if_neg (mt (isConstant_iff half).mp hbit)]
    exact if_neg hbit

theorem mark_or_toNat {index : Nat} (h : index ≤ maxConstant) :
    (mark ||| UInt16.ofNat index).toNat = 256 + index := by
  have hlow : index < 2 ^ 8 := Nat.lt_succ_of_le h
  have hshift := Nat.shiftLeft_add_eq_or_of_lt hlow 1
  rw [UInt16.toNat_or, UInt16.toNat_ofNat_of_lt' (Nat.lt_trans hlow (by decide))]
  exact hshift.symm

end Halves

end Bits

namespace Instruction

variable (i : Instruction)

theorem word_toNat : i.word.toNat = i.opcode.code + i.a * 64 + i.field * 16384 := by
  have hcode := i.opcode.code_lt
  have ha := i.a.isLt
  have hfield := i.field.isLt
  exact UInt32.toNat_ofNat_of_lt' (by change _ < 4294967296; omega)

theorem word_eq_ofField : i.word = Bits.ofField i.opcode i.a i.field :=
  UInt32.toNat_inj.mp (i.word_toNat.trans (Bits.ofField_toNat _ _ i.field.isLt).symm)

theorem word_eq_ofHalves : i.word = Bits.ofHalves i.opcode i.a i.b i.c := by
  rw [Bits.ofHalves_eq _ _ i.b_lt i.c_lt, i.field_eq_halves]
  exact i.word_eq_ofField

end Instruction

namespace Bits

/-- The parts of an instruction are the bits of a word. -/
structure Shows (w : UInt32) (i : Instruction) : Prop where
  opcode : opcode? w = some i.opcode
  a : Bits.a w = i.a
  b : Bits.b w = i.b
  c : Bits.c w = i.c
  field : Bits.field w = i.field
  displacement : Bits.displacement w = i.displacement

/-- The instruction in a word that names an opcode. -/
def instruction (op : Opcode) (w : UInt32) : Instruction :=
  ⟨op, a w, field w, by
    have hw := w.toNat_lt
    have hfield := field_eq w
    omega⟩

section Decoding

variable {op : Opcode} {w : UInt32}

theorem ofWord_eq (h : opcode? w = some op) : Instruction.ofWord w = .ok (instruction op w) := by
  have hop : Opcode.ofCode? (w.toNat % 64) = some op := code_eq w ▸ h
  simp only [Instruction.ofWord, hop, instruction, Except.ok.injEq, Instruction.mk.injEq, true_and]
  exact ⟨Fin.ext (a_eq w).symm, Fin.ext (field_eq w).symm⟩

theorem shows_instruction (h : opcode? w = some op) : Shows w (instruction op w) where
  opcode := h
  a := rfl
  b := by
    have hw := w.toNat_lt
    simp only [b_eq, Instruction.b, instruction, field_eq]
    omega
  c := by simp only [c_eq, Instruction.c, instruction, field_eq]
  field := rfl
  displacement := rfl

theorem instruction_word (h : opcode? w = some op) : (instruction op w).word = w := by
  have hop : op.code = w.toNat % 64 := (Opcode.code_of_ofCode? h).trans (code_eq w)
  have hw := w.toNat_lt
  refine UInt32.toNat_inj.mp ?_
  rw [Instruction.word_toNat]
  simp only [instruction, hop, a_eq, field_eq]
  omega

variable (i : Instruction)

theorem opcode?_word : opcode? i.word = some i.opcode := by
  have hcode := i.opcode.code_lt
  have hword := i.word_toNat
  rw [opcode?, code_eq, ← Opcode.ofCode?_code i.opcode]
  exact congrArg Opcode.ofCode? (by omega)

theorem instruction_of_word : instruction i.opcode i.word = i := by
  have hcode := i.opcode.code_lt
  have ha := i.a.isLt
  have hword := i.word_toNat
  have hregister : a i.word = i.a := Fin.ext ((a_eq _).trans (by omega))
  have hfield : field i.word = i.field := (field_eq _).trans (by omega)
  simp only [instruction, hregister, hfield]

theorem shows_word : Shows i.word i := by
  have hshows := shows_instruction (opcode?_word i)
  rwa [instruction_of_word] at hshows

theorem ofWord_word : Instruction.ofWord i.word = .ok i :=
  (ofWord_eq (opcode?_word i)).trans (congrArg Except.ok (instruction_of_word i))

end Decoding

end Bits

end RegisterScheme
