import Mathlib.Tactic.SplitIfs
import RegisterScheme.Proofs.Decimal.Integer
import RegisterScheme.Value.Arithmetic

/-! Arithmetic in words of 64 bits, step by step. It agrees with the arithmetic of integers, and no
step without a check overflows. -/

namespace RegisterScheme

namespace Word

/-- A result, unless it overflows. -/
def checked (overflows : Bool) (result : Int64) : Option Int64 :=
  if overflows then none else some result

def sum? (x y : Int64) : Option Int64 :=
  checked (x.toBitVec.saddOverflow y.toBitVec) (x + y)

def difference? (x y : Int64) : Option Int64 :=
  checked (x.toBitVec.ssubOverflow y.toBitVec) (x - y)

def product? (x y : Int64) : Option Int64 :=
  checked (x.toBitVec.smulOverflow y.toBitVec) (x * y)

/-- Only one quotient overflows. -/
def quotient? (x y : Int64) : Option Int64 :=
  checked (y == 0 || x == .minValue && y == -1) (x / y)

/-- The remainder of that quotient is zero. There is none by zero. -/
def remainder? (x y : Int64) : Option Int64 :=
  checked (y == 0) (x % y)

variable {x y : Int64}

theorem checked_eq {overflows : Bool} {result : Int64} {n : Int} (h : overflows ↔ ¬ Fits n)
    (hresult : Fits n → result.toInt = n) : checked overflows result = fixnum? n := by
  by_cases hn : Fits n
  · have hfalse : overflows = false := by simpa [hn] using h
    rw [hfalse, ← hresult hn, Decimal.fixnum?_toInt]
    rfl
  · rw [h.mpr hn, fixnum?_of_not_fits hn]
    rfl

theorem sum?_eq (x y : Int64) : sum? x y = fixnum? (x.toInt + y.toInt) := by
  have hoverflow : x.toBitVec.saddOverflow y.toBitVec ↔ ¬ Fits (x.toInt + y.toInt) := by
    simp [BitVec.saddOverflow, Fits]
    omega
  refine checked_eq hoverflow fun hn => ?_
  exact BitVec.toInt_add_of_not_saddOverflow fun h => hoverflow.mp h hn

theorem difference?_eq (x y : Int64) : difference? x y = fixnum? (x.toInt - y.toInt) := by
  have hoverflow : x.toBitVec.ssubOverflow y.toBitVec ↔ ¬ Fits (x.toInt - y.toInt) := by
    simp [BitVec.ssubOverflow, Fits]
    omega
  refine checked_eq hoverflow fun hn => ?_
  exact BitVec.toInt_sub_of_not_ssubOverflow fun h => hoverflow.mp h hn

theorem product?_eq (x y : Int64) : product? x y = fixnum? (x.toInt * y.toInt) := by
  have hoverflow : x.toBitVec.smulOverflow y.toBitVec ↔ ¬ Fits (x.toInt * y.toInt) := by
    simp [BitVec.smulOverflow, Fits]
    omega
  refine checked_eq hoverflow fun hn => ?_
  exact BitVec.toInt_mul_of_not_smulOverflow fun h => hoverflow.mp h hn

theorem toInt_ne_zero (hy : y ≠ 0) : y.toInt ≠ 0 := by
  intro h
  exact hy (Int64.toInt_inj.mp h)

/-- A quotient is no larger than the dividend, and half as large if the divisor is no unit. -/
theorem fits_tdiv (hy : y ≠ 0) : Fits (x.toInt.tdiv y.toInt) ↔ ¬ (x = .minValue ∧ y = -1) := by
  have hmin : x = .minValue ↔ x.toInt = -2 ^ 63 := Int64.toInt_inj.symm
  have hminus : y = -1 ↔ y.toInt = -1 := Int64.toInt_inj.symm
  have hx := fits_toInt x
  have hzero := toInt_ne_zero hy
  rw [hmin, hminus]
  by_cases hone : y.toInt = -1
  · rw [hone, Int.tdiv_neg, Int.tdiv_one]
    simp [Fits] at hx ⊢
    omega
  · have habs : (x.toInt.tdiv y.toInt).natAbs = x.toInt.natAbs / y.toInt.natAbs :=
      Int.natAbs_tdiv ..
    have hfits : Fits (x.toInt.tdiv y.toInt) := by
      by_cases hunit : y.toInt = 1
      · rwa [hunit, Int.tdiv_one]
      · have hhalf : x.toInt.natAbs / y.toInt.natAbs ≤ x.toInt.natAbs / 2 :=
          Nat.div_le_div_left (by omega) (by decide)
        simp only [Fits] at hx ⊢
        omega
    simp [hfits, hone]

theorem quotient?_eq (x : Int64) (hy : y ≠ 0) :
    quotient? x y = fixnum? (x.toInt.tdiv y.toInt) := by
  refine checked_eq ?_ fun hn => ?_
  · simp [hy, fits_tdiv hy]
  · rw [Int64.toInt_div]
    obtain ⟨hle, hlt⟩ := hn
    apply Int.bmod_eq_of_le <;> omega

theorem remainder?_eq (x : Int64) (hy : y ≠ 0) :
    remainder? x y = some (x % y) ∧ (x % y).toInt = x.toInt.tmod y.toInt := by
  simp [remainder?, checked, hy, Int64.toInt_mod]

/-- A remainder of another sign than the divisor. -/
def IsOpposite (r y : Int64) : Prop := r ≠ 0 ∧ decide (r < 0) ≠ decide (y < 0)

instance (r y : Int64) : Decidable (IsOpposite r y) := inferInstanceAs (Decidable (_ ∧ _))

theorem isOpposite_iff {r : Int64} :
    IsOpposite r y ↔ r.toInt < 0 ∧ 0 ≤ y.toInt ∨ 0 < r.toInt ∧ y.toInt < 0 := by
  have hr : r = 0 ↔ r.toInt = 0 := Int64.toInt_inj.symm
  have hlt : r < 0 ↔ r.toInt < 0 := Int64.lt_iff_toInt_lt
  have hlt' : y < 0 ↔ y.toInt < 0 := Int64.lt_iff_toInt_lt
  rw [IsOpposite, ne_eq, ne_eq, decide_eq_decide, hr, hlt, hlt']
  omega

theorem tmod_nonpos {m : Int} (h : m ≤ 0) (n : Int) : m.tmod n ≤ 0 := by
  have hneg := Int.tmod_nonneg n (a := -m) (by omega)
  rw [Int.neg_tmod] at hneg
  omega

/-- The modulus is the remainder, or the sum of it and a divisor of another sign. That sum fits. -/
theorem fmod_eq (x : Int64) (hy : y ≠ 0) : x.toInt.fmod y.toInt =
    if IsOpposite (x % y) y then (x % y).toInt + y.toInt else (x % y).toInt := by
  have hne := toInt_ne_zero hy
  have hdvd : y.toInt ∣ x.toInt ↔ x.toInt.tmod y.toInt = 0 := Int.dvd_iff_tmod_eq_zero
  have hnonneg : 0 ≤ x.toInt → 0 ≤ x.toInt.tmod y.toInt := Int.tmod_nonneg _
  have hnonpos : x.toInt ≤ 0 → x.toInt.tmod y.toInt ≤ 0 := (tmod_nonpos · _)
  simp only [isOpposite_iff, Int64.toInt_mod]
  rw [Int.fmod_eq_tmod]
  split_ifs <;> omega

theorem fits_of_isOpposite {r : Int64} (h : IsOpposite r y) : Fits (r.toInt + y.toInt) := by
  have hr := fits_toInt r
  have hy := fits_toInt y
  rw [isOpposite_iff] at h
  simp only [Fits] at hr hy ⊢
  omega

end Word

namespace Arithmetic

/-- A word or an overflow. -/
def outcome (op : Arithmetic) (r : Option Int64) : Except Failure Value :=
  match r with
  | some n => .ok (.integer n)
  | none => .error (.runtime (.integerOverflow op.opcode.mnemonic))

/-- What comes of two words, if no step fails that has no check: the remainders, and the sum that
gives a modulus the sign of the divisor. -/
def words (op : Arithmetic) (x y : Int64) : Option (Except Failure Value) :=
  if y = 0 ∧ (op = divide ∨ op = modulo ∨ op = remainder) then
    some (.error (.runtime .divisionByZero))
  else match op with
  | add => some (op.outcome (Word.sum? x y))
  | subtract => some (op.outcome (Word.difference? x y))
  | multiply => some (op.outcome (Word.product? x y))
  | divide => do
    let r ← Word.remainder? x y
    if r ≠ 0 then return .ok (.float (x.toFloat / y.toFloat))
    else return op.outcome (Word.quotient? x y)
  | modulo => do
    let r ← Word.remainder? x y
    if Word.IsOpposite r y then return .ok (.integer (← Word.sum? r y))
    else return .ok (.integer r)
  | remainder => do
    return .ok (.integer (← Word.remainder? x y))

theorem checked_eq_outcome (op : Arithmetic) (n : Int) :
    checked op.opcode.mnemonic n = op.outcome (fixnum? n) := by
  unfold checked outcome
  cases fixnum? n <;> rfl

/-- No step fails that has no check, and what comes of words is what comes of integers. -/
theorem words_eq (op : Arithmetic) (x y : Int64) : op.words x y = some (op.integers x y) := by
  by_cases hy : y = 0
  · subst y
    cases op with
    | add => simp [words, integers, checked_eq_outcome, Word.sum?_eq]
    | subtract => simp [words, integers, checked_eq_outcome, Word.difference?_eq]
    | multiply => simp [words, integers, checked_eq_outcome, Word.product?_eq]
    | divide | modulo | remainder => simp [words, integers]
  · have hzero := Word.toInt_ne_zero hy
    obtain ⟨hremainder, hmod⟩ := Word.remainder?_eq x hy
    have hnone : x % y = 0 ↔ x.toInt.tmod y.toInt = 0 := by
      rw [← hmod]
      exact Int64.toInt_inj.symm
    cases op with
    | add => simp [words, integers, checked_eq_outcome, Word.sum?_eq]
    | subtract => simp [words, integers, checked_eq_outcome, Word.difference?_eq]
    | multiply => simp [words, integers, checked_eq_outcome, Word.product?_eq]
    | divide =>
      simp only [words, integers, hy, hzero, false_and, if_false, hremainder, Option.bind_eq_bind,
        Option.bind_some, ne_eq, hnone, checked_eq_outcome, Word.quotient?_eq x hy]
      split <;> rfl
    | modulo =>
      simp only [words, integers, hy, hzero, false_and, if_false, hremainder, Option.bind_eq_bind,
        Option.bind_some, checked_eq_outcome, Word.fmod_eq x hy]
      split
      · rename_i hopposite
        obtain ⟨v, hv, -⟩ := fixnum?_of_fits (Word.fits_of_isOpposite hopposite)
        rw [Word.sum?_eq, hv]
        rfl
      · rw [Decimal.fixnum?_toInt]
        rfl
    | remainder =>
      simp only [words, integers, hy, hzero, false_and, if_false, hremainder, Option.bind_eq_bind,
        Option.bind_some, checked_eq_outcome, ← hmod, Decimal.fixnum?_toInt]
      rfl

end Arithmetic

end RegisterScheme
