import Mathlib.Algebra.Ring.Int.Defs
import RegisterScheme.Atom
import RegisterScheme.Decimal.Read

/-! The text of an integer of 64 bits reads back as that integer. -/

namespace RegisterScheme

/-- Integers of 64 bits. -/
def Fits (n : Int) : Prop := -2 ^ 63 ≤ n ∧ n < 2 ^ 63

theorem fits_toInt (n : Int64) : Fits n.toInt := ⟨n.le_toInt, n.toInt_lt⟩

theorem fixnum?_of_fits {n : Int} (h : Fits n) : ∃ v, fixnum? n = some v ∧ v.toInt = n := by
  have hmin : Int64.minValue.toInt = -2 ^ 63 := rfl
  have hmax : Int64.maxValue.toInt = 2 ^ 63 - 1 := rfl
  obtain ⟨hle, hlt⟩ := h
  refine ⟨.ofInt n, ?_, Int64.toInt_ofInt_of_le hle hlt⟩
  rw [fixnum?, if_pos (by omega)]

theorem fixnum?_of_not_fits {n : Int} (h : ¬ Fits n) : fixnum? n = none := by
  have hmin : Int64.minValue.toInt = -2 ^ 63 := rfl
  have hmax : Int64.maxValue.toInt = 2 ^ 63 - 1 := rfl
  rw [Fits] at h
  rw [fixnum?, if_neg (by omega)]

namespace Decimal

variable {cs : List Char}

theorem natOfDigits_toDigits (n : Nat) : natOfDigits (Nat.toDigits 10 n) = n := by
  have h := Nat.ofDigitChars_ten_toDigits (n := n)
  rwa [Nat.ofDigitChars_eq_foldl] at h

theorem isDigit_toDigits (n : Nat) : ∀ c ∈ Nat.toDigits 10 n, c.isDigit :=
  fun _ hc => Nat.isDigit_of_mem_toDigits (Nat.zero_lt_succ _) (Nat.le_refl _) hc

theorem splitSign_of_isDigit {c : Char} (h : c.isDigit) (cs : List Char) :
    splitSign (c :: cs) = (false, c :: cs) := by
  unfold splitSign
  split
  · rename_i heq
    cases heq
    cases h
  · rename_i heq
    cases heq
    cases h
  · rfl

theorem fixnum?_toInt (n : Int64) : fixnum? n.toInt = some n := by
  rw [fixnum?, if_pos ⟨n.minValue_le_toInt, n.toInt_le⟩, Int64.ofInt_toInt]

/-- An integer is written as its digits, after a minus sign if it is negative. -/
theorem toList_integerText (n : Int64) :
    (Atom.integerText n).toList =
      (if 0 ≤ n.toInt then [] else ['-']) ++ Nat.toDigits 10 n.toInt.natAbs := by
  rw [Atom.integerText, Int.repr_eq_if]
  split
  · rename_i hn
    have habs : n.toInt.toNat = n.toInt.natAbs := by omega
    rw [Nat.repr_eq_ofList_toDigits, String.toList_ofList, habs]
    rfl
  · rename_i hn
    have habs : (-n.toInt).toNat = n.toInt.natAbs := by omega
    rw [Nat.repr_eq_ofList_toDigits, String.toList_append,
      String.toList_ofList (l := Nat.toDigits _ _), habs]
    rfl

theorem splitSign_integerText (n : Int64) :
    splitSign (Atom.integerText n).toList =
      (decide (n.toInt < 0), Nat.toDigits 10 n.toInt.natAbs) := by
  rw [toList_integerText]
  split
  · rename_i hn
    obtain ⟨c, cs, hcs⟩ := List.exists_cons_of_ne_nil
      (Nat.toDigits_ne_nil (n := n.toInt.natAbs) (b := 10))
    have hc := isDigit_toDigits n.toInt.natAbs c (hcs ▸ List.mem_cons_self)
    rw [List.nil_append, hcs, splitSign_of_isDigit hc, decide_eq_false (Int.not_lt.mpr hn)]
  · rename_i hn
    rw [decide_eq_true (Int.not_le.mp hn)]
    rfl

theorem signed_natAbs (n : Int) : signed (decide (n < 0)) n.natAbs = n := by
  unfold signed
  split
  · rename_i h
    have := of_decide_eq_true h
    omega
  · rename_i h
    have := of_decide_eq_false (Bool.eq_false_iff.mpr h)
    omega

/-- A sign or none, and digits. -/
theorem readFixnum?_digits {negative : Bool} {digits : List Char}
    (h : splitSign cs = (negative, digits)) (hne : digits ≠ []) (hd : ∀ d ∈ digits, d.isDigit) :
    readFixnum? cs = fixnum? (signed negative (natOfDigits digits)) := by
  have hdigits : (digits.isEmpty || !digits.all Char.isDigit) = false := by
    simpa [hne] using hd
  rw [readFixnum?, readInt?, readSigned?, h]
  dsimp only
  rw [hdigits, if_neg Bool.false_ne_true]
  rfl

end Decimal

end RegisterScheme
