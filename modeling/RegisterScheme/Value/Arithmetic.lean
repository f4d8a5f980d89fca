import RegisterScheme.Value.Conversion

/-! Arithmetic and comparison of values. Integers stay exact: what does not fit is an error.
With a float among the operands everything is done in floats. -/

namespace RegisterScheme

inductive Arithmetic where
  | add
  | subtract
  | multiply
  | divide
  | modulo
  | remainder
deriving DecidableEq, Repr

namespace Arithmetic

def opcode : Arithmetic → Opcode
  | add => .add
  | subtract => .subtract
  | multiply => .multiply
  | divide => .divide
  | modulo => .modulo
  | remainder => .remainder

/-- A result that has to fit, under the mnemonic that names its overflow. -/
def checked (mnemonic : String) (n : Int) : Except Failure Value :=
  match fixnum? n with
  | some n => .ok (.integer n)
  | none => .error (.runtime (.integerOverflow mnemonic))

/-- A quotient is exact or else a float. The modulus has the sign of the divisor, the remainder
that of the dividend. -/
def integers (op : Arithmetic) (x y : Int64) : Except Failure Value :=
  let (m, n) := (x.toInt, y.toInt)
  let checked := checked op.opcode.mnemonic
  match op with
  | add => checked (m + n)
  | subtract => checked (m - n)
  | multiply => checked (m * n)
  | divide =>
    if n = 0 then .error (.runtime .divisionByZero)
    else if m.tmod n ≠ 0 then .ok (.float (x.toFloat / y.toFloat))
    else checked (m.tdiv n)
  | modulo => if n = 0 then .error (.runtime .divisionByZero) else checked (m.fmod n)
  | remainder => if n = 0 then .error (.runtime .divisionByZero) else checked (m.tmod n)

def floats (op : Arithmetic) (x y : Float) : Float :=
  match op with
  | add => x + y
  | subtract => x - y
  | multiply => x * y
  | divide => x / y
  | modulo =>
    let r := floatRemainder x y
    if r != 0.0 && (r < 0.0) != (y < 0.0) then r + y else r
  | remainder => floatRemainder x y

def apply (op : Arithmetic) (x y : Value) : Except Failure Value := do
  match ← x.toNumber, ← y.toNumber with
  | .integer m, .integer n => op.integers m n
  | m, n => return .float (op.floats m.toFloat n.toFloat)

/-- The value with the other sign. -/
def negate (x : Value) : Except Failure Value := do
  match ← x.toNumber with
  | .integer n => checked Opcode.negate.mnemonic (-n.toInt)
  | .float x => return .float (-x)

end Arithmetic

inductive Comparison where
  | equivalent
  | equalNumbers
  | less
  | lessOrEqual
deriving DecidableEq, Repr

/-- Equivalence takes any values, the other comparisons take numbers. -/
def Comparison.holds (op : Comparison) (x y : Value) : Except Failure Bool := do
  match op with
  | equivalent => return x.eqv y
  | op =>
    match ← x.toNumber, ← y.toNumber with
    | .integer m, .integer n =>
      match op with
      | less => return m.toInt < n.toInt
      | lessOrEqual => return m.toInt ≤ n.toInt
      | _ => return m == n
    | m, n =>
      let (a, b) := (m.toFloat, n.toFloat)
      match op with
      | less => return a < b
      | lessOrEqual => return a ≤ b
      | _ => return a == b

end RegisterScheme
