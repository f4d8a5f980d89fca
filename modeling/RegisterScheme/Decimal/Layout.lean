import RegisterScheme.Decimal.Shortest

/-! Where the point and the exponent of a decimal number are written. -/

namespace RegisterScheme

/-- A way to write floats in the fewest digits. -/
structure Decimal.Layout where
  /-- The least number of digits after the point of a number without exponent. -/
  places : Nat
  /-- Powers of ten below the first and from the second on get an exponent, if any do. -/
  exponents : Option (Int × Int)

namespace Decimal.Layout

/-- Never an exponent, and a point only before further digits. -/
def plain : Layout := ⟨0, none⟩

/-- Always a point or an exponent: from ten to the sixteenth on and below a ten-thousandth. -/
def marked : Layout := ⟨1, some (-4, 16)⟩

private def zeros (n : Nat) : List Char := List.replicate n '0'

/-- Digits without exponent; `point` of them stand before the decimal point. -/
def positional (places : Nat) (digits : List Char) (point : Int) : List Char :=
  let (whole, part) :=
    if point ≤ 0 then (['0'], zeros (-point).toNat ++ digits)
    else
      (digits.take point.toNat ++ zeros (point.toNat - digits.length), digits.drop point.toNat)
  let part := part ++ zeros (places - part.length)
  if part.isEmpty then whole else whole ++ '.' :: part

/-- The number as one digit, the others after a point, and a power of ten. -/
def scientific (digits : List Char) (point : Int) : List Char :=
  let tail := digits.drop 1
  digits.take 1 ++ (if tail.isEmpty then [] else '.' :: tail) ++ 'e' :: (point - 1).repr.toList

/-- A digit string without the zeros at its end, which move no point. -/
def significant (n : Nat) : List Char :=
  ((Nat.toDigits 10 n).reverse.dropWhile (· == '0')).reverse

def write (l : Layout) (x : Float) : String :=
  match Binary.ofFloat? x with
  | none => if x.isNaN then "NaN" else if x < 0 then "-inf" else "inf"
  | some b =>
    let sign := if b.negative then ['-'] else []
    if b.mantissa = 0 then String.ofList (sign ++ positional l.places ['0'] 1)
    else
      let d := shortest b
      let digits := significant d.digits
      let withExponent := match l.exponents with
        | none => false
        | some (low, high) => d.point - 1 < low || high ≤ d.point - 1
      String.ofList (sign ++
        if withExponent then scientific digits d.point else positional l.places digits d.point)

end Decimal.Layout

/-- Every digit of a whole float, with one place after the point; others in the fewest. -/
def Decimal.writeExact (x : Float) : String :=
  match Binary.ofFloat? x with
  | some b =>
    if b.isInteger then
      let (num, den) := b.fraction
      (if b.negative then "-" else "") ++ Nat.repr (num / den) ++ ".0"
    else Decimal.Layout.plain.write x
  | none => Decimal.Layout.plain.write x

end RegisterScheme
