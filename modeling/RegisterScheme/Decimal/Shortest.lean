import RegisterScheme.Decimal.Binary

/-! The fewest decimal digits that read back as a given float. -/

namespace RegisterScheme

/-- The number `0.d₁d₂… * 10 ^ point` with the digits of `digits`. -/
structure Decimal where
  digits : Nat
  point : Int
deriving DecidableEq, Repr

namespace Decimal

def digitCount (n : Nat) : Nat :=
  (Nat.toDigits 10 n).length

/-- The exponent `k` with `10 ^ (k - 1) ≤ num / den < 10 ^ k`, for a positive fraction. -/
def magnitude (num den : Nat) : Int :=
  if den ≤ num then digitCount (num / den)
  else 1 - digitCount ((den + num - 1) / num - 1)

/-- The reals that round to a positive float, in quarters of its last place. -/
structure Interval where
  low : Nat
  value : Nat
  high : Nat
  /-- Whether the ends belong to it. -/
  closed : Bool

/-- Below a power of two the floats lie twice as dense. -/
def Interval.ofBinary (b : Binary) : Interval :=
  let atPower := b.mantissa = Binary.hiddenBit && Binary.leastExponent < b.exponent
  ⟨4 * b.mantissa - (if atPower then 1 else 2), 4 * b.mantissa, 4 * b.mantissa + 2,
    b.mantissa % 2 == 0⟩

/-- A decimal on the grid of `count` digits, if one of the two neighbours of the value lies in
its interval; of two the nearer, and the upper one in the middle. -/
def onGrid? (b : Binary) (k : Int) (count : Nat) : Option Decimal :=
  let i := Interval.ofBinary b
  let step : Int := k - count
  -- the value is `i.value * left / right` steps
  let left := Nat.pow 10 (-step).toNat <<< (b.exponent - 2).toNat
  let right := Nat.pow 10 step.toNat <<< (2 - b.exponent).toNat
  let inside (n : Nat) : Bool :=
    if i.closed then i.low * left ≤ n * right && n * right ≤ i.high * left
    else i.low * left < n * right && n * right < i.high * left
  let below := i.value * left / right
  let above := below + 1
  let nearerAbove : Bool := right ≤ 2 * (i.value * left % right)
  if inside above && (nearerAbove || !inside below) then some ⟨above, step + digitCount above⟩
  else if inside below then some ⟨below, step + digitCount below⟩
  else none

/-- The shortest decimal that reads back as a positive float. Seventeen digits always do. -/
def shortest (b : Binary) : Decimal :=
  let (num, den) := b.fraction
  let k := magnitude num den
  ((List.range 17).findSome? fun n => onGrid? b k (n + 1)).getD ⟨num / den, k⟩

end Decimal

end RegisterScheme
