import RegisterScheme.Failure.Basic
import RegisterScheme.Variable

/-! Instructions of the register machine. Besides its opcode and the register `a` each has one
field of 18 bits, read whole, with a bias as a displacement, or as the halves `b` and `c`. -/

namespace RegisterScheme

inductive Opcode where
  | move
  | loadConstant
  | loadBoolean
  | loadNil
  | getCaptured
  | setCaptured
  | getGlobal
  | setGlobal
  | add
  | subtract
  | multiply
  | divide
  | modulo
  | remainder
  | negate
  | not
  | equivalent
  | equalNumbers
  | less
  | lessOrEqual
  | test
  | testSet
  | jump
  | call
  | return
  | closure
  | cons
  | car
  | cdr
deriving DecidableEq, Repr

/-- The operands that an instruction is shown with. -/
inductive Opcode.Mode where
  | ab
  | abc
  | abx
  | asbx
deriving DecidableEq, Repr

def Opcode.Mode.text : Opcode.Mode → String
  | ab => "AB"
  | abc => "ABC"
  | abx => "ABx"
  | asbx => "AsBx"

namespace Opcode

/-- The opcodes in the order of their codes. -/
def all : List Opcode :=
  [move, loadConstant, loadBoolean, loadNil, getCaptured, setCaptured, getGlobal, setGlobal, add,
    subtract, multiply, divide, modulo, remainder, negate, not, equivalent, equalNumbers, less,
    lessOrEqual, test, testSet, jump, call, .return, closure, cons, car, cdr]

def code (op : Opcode) : Nat := all.idxOf op

def ofCode? (n : Nat) : Option Opcode := all[n]?

theorem ofCode?_code (op : Opcode) : ofCode? op.code = some op := by
  cases op <;> rfl

def mnemonic : Opcode → String
  | move => "MOVE"
  | loadConstant => "LOADK"
  | loadBoolean => "LOADBOOL"
  | loadNil => "LOADNIL"
  | getCaptured => "GETUPVAL"
  | setCaptured => "SETUPVAL"
  | getGlobal => "GETGLOBAL"
  | setGlobal => "SETGLOBAL"
  | add => "ADD"
  | subtract => "SUB"
  | multiply => "MUL"
  | divide => "DIV"
  | modulo => "MOD"
  | remainder => "REM"
  | negate => "UNM"
  | not => "NOT"
  | equivalent => "EQ"
  | equalNumbers => "EQNUM"
  | less => "LT"
  | lessOrEqual => "LE"
  | test => "TEST"
  | testSet => "TESTSET"
  | jump => "JMP"
  | call => "CALL"
  | .return => "RETURN"
  | closure => "CLOSURE"
  | cons => "CONS"
  | car => "CAR"
  | cdr => "CDR"

def mode : Opcode → Mode
  | move | loadNil | getCaptured | setCaptured | negate | not | .return | car | cdr => .ab
  | loadConstant | getGlobal | setGlobal | closure => .abx
  | jump => .asbx
  | _ => .abc

end Opcode

/-- The greatest value of a half of the field. -/
def maxHalf : Nat := 511

/-- The greatest index in a literal pool that the field can hold. -/
def maxField : Nat := 262143

/-- What is added to a displacement in the field. -/
def jumpBias : Nat := maxField / 2

/-- The greatest index of a literal that may stand for an operand. -/
def maxConstant : Nat := 255

/-- An operand that reads a register or a literal of the pool. -/
inductive Operand where
  | register (r : Nat)
  | constant (index : Nat)
deriving DecidableEq, Repr

namespace Operand

/-- An operand as half of a field; bit 8 marks a literal. -/
def half : Operand → Nat
  | register r => r
  | constant index => 256 + index

def ofHalf (n : Nat) : Operand :=
  if n / 256 % 2 = 1 then constant (n - 256) else register n

/-- The literal at an index as an operand, if it can be one. -/
def constant? (index : Nat) : Option Operand :=
  if index ≤ maxConstant then some (constant index) else none

def constantIndex? : Operand → Option Nat
  | constant index => some index
  | register _ => none

def text : Operand → String
  | register r => s!"R{r}"
  | constant index => s!"K{index}"

end Operand

structure Instruction where
  opcode : Opcode
  a : Register
  field : Fin (262144)
deriving DecidableEq, Repr

namespace Instruction

def b (i : Instruction) : Nat := i.field / 512

def c (i : Instruction) : Nat := i.field % 512

def displacement (i : Instruction) : Int := (i.field : Int) - jumpBias

def checkHalf (op : Opcode) (n : Nat) : Except Overrun (Fin (512)) :=
  if h : n < 512 then .ok ⟨n, h⟩ else .error (.operand n op.mnemonic maxHalf)

def abc (op : Opcode) (a : Register) (b c : Nat) : Except Overrun Instruction := do
  let b ← checkHalf op b
  let c ← checkHalf op c
  return ⟨op, a, ⟨b * 512 + c, by omega⟩⟩

def ab (op : Opcode) (a : Register) (b : Nat) : Except Overrun Instruction :=
  abc op a b 0

def abx (op : Opcode) (a : Register) (field : Nat) : Except Overrun Instruction :=
  if h : field < 262144 then .ok ⟨op, a, ⟨field, h⟩⟩
  else .error (.literalIndex field op.mnemonic maxField)

def asbx (op : Opcode) (a : Register) (displacement : Int) : Except Overrun Instruction :=
  let biased := displacement + jumpBias
  if h : 0 ≤ biased ∧ biased < 262144 then .ok ⟨op, a, ⟨biased.toNat, by omega⟩⟩
  else .error (.jump displacement)

/-- The same instruction with another displacement. -/
def withDisplacement (i : Instruction) (displacement : Int) : Except Overrun Instruction :=
  asbx i.opcode i.a displacement

/-- From the low end: six bits of opcode, eight of `a`, nine of `c` and nine of `b`. -/
def word (i : Instruction) : UInt32 :=
  UInt32.ofNat (i.opcode.code + i.a * 64 + i.field * 16384)

def ofWord (w : UInt32) : Except Fault Instruction :=
  let code := w.toNat % 64
  match Opcode.ofCode? code with
  | some op => .ok ⟨op, ⟨w.toNat / 64 % 256, by omega⟩, ⟨w.toNat / 16384, by
      have := w.toNat_lt
      omega⟩⟩
  | none => .error (.invalidOpcode code w)

/-- A displacement with its sign, also if it is positive. -/
def displacementText (d : Int) : String :=
  if 0 ≤ d then s!"+{d}" else s!"{d}"

def operandsText (i : Instruction) : String :=
  let (a, b, c) : Nat × Nat × Nat := (i.a, i.b, i.c)
  let both := s!"{(Operand.ofHalf b).text} {(Operand.ofHalf c).text}"
  match i.opcode with
  | .add | .subtract | .multiply | .divide | .modulo | .remainder | .cons => s!"R{a} {both}"
  | .equivalent | .equalNumbers | .less | .lessOrEqual => s!"{a} {both}"
  | .loadConstant | .closure | .getGlobal | .setGlobal => s!"R{a} K{i.field.val}"
  | .getCaptured | .setCaptured => s!"R{a} V{b}"
  | .test => s!"R{a} {c}"
  | .return => s!"R{a} {b}"
  | .jump => displacementText i.displacement
  | .move | .loadNil | .negate | .not | .car | .cdr => s!"R{a} R{b}"
  | .loadBoolean | .testSet | .call => s!"R{a} {b} {c}"

/-- The mnemonic in a column of ten characters, then the operands. -/
def text (i : Instruction) : String :=
  let m := i.opcode.mnemonic
  m ++ String.ofList (List.replicate (10 - m.length) ' ') ++ i.operandsText

end Instruction

end RegisterScheme
