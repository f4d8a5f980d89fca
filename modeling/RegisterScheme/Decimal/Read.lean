import RegisterScheme.Decimal.Binary

/-! Numbers as text: integers of 64 bits, and decimals that become the nearest float. -/

namespace RegisterScheme

/-- An integer as a fixnum, if it fits. -/
def fixnum? (n : Int) : Option Int64 :=
  if Int64.minValue.toInt ≤ n ∧ n ≤ Int64.maxValue.toInt then some (Int64.ofInt n) else none

namespace Decimal

def digitValue (c : Char) : Nat := c.toNat - '0'.toNat

/-- The number that a string of decimal digits denotes. -/
def natOfDigits (cs : List Char) : Nat :=
  cs.foldl (fun n c => 10 * n + digitValue c) 0

/-- A sign, if there is one, and what follows it. -/
def splitSign : List Char → Bool × List Char
  | '-' :: cs => (true, cs)
  | '+' :: cs => (false, cs)
  | cs => (false, cs)

def signed (negative : Bool) (n : Nat) : Int :=
  if negative then -n else n

/-- A sign or none, then digits only, which stand for the number that `value` gives them. -/
def readSigned? (value : List Char → Nat) (cs : List Char) : Option Int :=
  let (negative, digits) := splitSign cs
  if digits.isEmpty || !digits.all Char.isDigit then none
  else some (signed negative (value digits))

def readInt? (cs : List Char) : Option Int := readSigned? natOfDigits cs

def readFixnum? (cs : List Char) : Option Int64 :=
  (readInt? cs).bind fixnum?

/-- Where the reading of an exponent ends: digits behind the one that reaches it do not count. -/
def exponentBound : Nat := 65536

/-- The exponent that a string of decimal digits denotes. -/
def exponentOfDigits (cs : List Char) : Nat :=
  cs.foldl (fun n c => if n < exponentBound then 10 * n + digitValue c else n) 0

/-- What may stand after the digits of a float: nothing, or a power of ten. -/
def readExponent? : List Char → Option Int
  | [] => some 0
  | c :: cs => if c == 'e' || c == 'E' then readSigned? exponentOfDigits cs else none

/-- The float nearest to the number that `digits` denote, times a power of ten. What leaves the
range of floats is cut off by the place of its first digit, so that no huge power is built. -/
def scale (negative : Bool) (digits : List Char) (exponent : Int) : Float :=
  let digits := digits.dropWhile (· == '0')
  let leading : Int := digits.length + exponent
  if digits.isEmpty || leading < -400 then Binary.nearest negative 0 1
  else if 400 < leading then Binary.nearest negative (Nat.pow 10 400) 1
  else
    Binary.nearest negative (natOfDigits digits * Nat.pow 10 exponent.toNat)
      (Nat.pow 10 (-exponent).toNat)

/-- The named floats, in any case. -/
def named? (negative : Bool) (cs : List Char) : Option Float :=
  let name := String.ofList (cs.map Char.toLower)
  if name == "inf" || name == "infinity" then some (if negative then -1.0 / 0.0 else 1.0 / 0.0)
  else if name == "nan" then some (0.0 / 0.0)
  else none

/-- A sign or none, then a name, or digits with at most one point among or beside them and
a power of ten or none. -/
def readFloat? (cs : List Char) : Option Float :=
  let (negative, body) := splitSign cs
  let whole := body.takeWhile Char.isDigit
  let rest := body.dropWhile Char.isDigit
  let (part, rest) := match rest with
    | '.' :: more => (more.takeWhile Char.isDigit, more.dropWhile Char.isDigit)
    | _ => ([], rest)
  if whole.isEmpty && part.isEmpty then named? negative body
  else
    (readExponent? rest).map fun e =>
      scale negative (whole ++ part) (e - part.length)

end Decimal

end RegisterScheme
