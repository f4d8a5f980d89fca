/-! Floating-point numbers taken apart: a finite one is its sign, a natural number and a power
of two. `nearest` goes back, rounding any fraction to the closest float, ties to even. -/

namespace RegisterScheme

/-- The number `mantissa * 2 ^ exponent`, negated if `negative`. -/
structure Binary where
  negative : Bool
  mantissa : Nat
  exponent : Int
deriving DecidableEq, Repr

namespace Binary

/-- The least exponent of a float; subnormal numbers have it too. -/
def leastExponent : Int := -1074

/-- The leading bit of a normal mantissa, which is not stored: the one above 52 others. -/
def hiddenBit : Nat := 1 <<< 52

/-- The biased exponent of the infinities and of what is not a number: eleven bits, all set. -/
def greatestBiased : Nat := 2047

/-- None for the infinities and for what is not a number. -/
def ofFloat? (x : Float) : Option Binary :=
  let bits := x.toBits.toNat
  let negative := bits >>> 63 == 1
  let biased := bits / hiddenBit % (greatestBiased + 1)
  let fraction := bits % hiddenBit
  if biased = greatestBiased then none
  else if biased = 0 then some ⟨negative, fraction, leastExponent⟩
  else some ⟨negative, hiddenBit + fraction, leastExponent + (biased - 1 : Nat)⟩

/-- The value without its sign, as a fraction. -/
def fraction (b : Binary) : Nat × Nat :=
  (b.mantissa <<< b.exponent.toNat, 1 <<< (-b.exponent).toNat)

def isInteger (b : Binary) : Bool :=
  b.fraction.1 % b.fraction.2 == 0

/-- The quotient rounded to the nearest natural number, ties to even. -/
def roundedQuotient (num den : Nat) : Nat :=
  let floor := num / den
  let twice := 2 * (num % den)
  if den < twice || twice == den && floor % 2 == 1 then floor + 1 else floor

/-- The bits of the positive float nearest to `num / den`. A mantissa that rounds up to the
next power of two carries into the exponent, and from the greatest one into infinity. -/
def nearestBits (num den : Nat) : Nat :=
  if num = 0 then 0
  else
    let guess : Int := (num.log2 : Int) - den.log2 - 53
    let scaled (q : Int) : Nat × Nat := (num <<< (-q).toNat, den <<< q.toNat)
    let low := max guess leastExponent
    let (n, d) := scaled low
    let q := if n / d < 2 * hiddenBit then low else low + 1
    let (n, d) := scaled q
    min ((q - leastExponent).toNat * hiddenBit + roundedQuotient n d) (greatestBiased * hiddenBit)

/-- The float nearest to `num / den`, with the sign asked for. -/
def nearest (negative : Bool) (num den : Nat) : Float :=
  let bits := nearestBits num den
  Float.ofBits (UInt64.ofNat (if negative then (1 <<< 63) + bits else bits))

/-- The remainder of a division that truncates: it has the sign of the dividend. -/
def remainder (x y : Binary) : Float :=
  let least := min x.exponent y.exponent
  let units (b : Binary) : Nat := b.mantissa <<< (b.exponent - least).toNat
  let r := units x % units y
  nearest x.negative (r <<< least.toNat) (1 <<< (-least).toNat)

end Binary

/-- The remainder of floats. It is no number for an infinite dividend or a zero divisor, and
the dividend itself for an infinite divisor. -/
def floatRemainder (x y : Float) : Float :=
  match Binary.ofFloat? x, Binary.ofFloat? y with
  | some a, some b => if b.mantissa = 0 then 0.0 / 0.0 else a.remainder b
  | some _, none => if y.isNaN then y else x
  | none, _ => 0.0 / 0.0

end RegisterScheme
