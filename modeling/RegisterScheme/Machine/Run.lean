import RegisterScheme.Machine.Arguments
import RegisterScheme.Machine.Store

/-! The register machine. Code only runs forward, so an activation does each of its instructions
at most once; calls inside calls are counted down from the limit. -/

namespace RegisterScheme

/-- What a run depends on and never changes. -/
structure Machine where
  host : Host
  /-- How many calls may be active at a time. -/
  callLimit : Option Nat
  /-- Whether a closure looks for each of its variables only once. -/
  caching : Bool

/-- A frame that is running, with its closure. -/
structure Activation where
  address : Nat
  closure : Closure

/-- What comes after an instruction: the one that is so many further on, or a return. -/
inductive Continuation where
  | skip (lines : Nat)
  | done (v : Value)

namespace Running

def literalValue (t : Template) (index : Nat) : Running Value :=
  match t.literals[index]? with
  | some (.quotation q) => return .ofQuotation q
  | some .unspecified => return .unspecified
  | _ => fault (.noSuchLiteral index t.displayName)

def globalName (t : Template) (index : Nat) : Running String :=
  match t.literals[index]? with
  | some (.quotation ⟨_, .atom (.symbol name)⟩) => return name
  | _ => fault (.notGlobalName index t.displayName)

/-- The cell of the global that a literal names. -/
def globalCell (caching : Bool) (c : Closure) (index : Nat) : Running Nat := do
  let known ← if caching then pure ((← cache c).cells.lookup index) else pure none
  match known with
  | some address => return address
  | none =>
    let address ← cell (← globalName c.template index)
    if caching then updateCache c (·.rememberCell index address)
    return address

/-- The frame of a captured variable, so many closures further out. -/
def owner (caching : Bool) (c : Closure) (slot distance : Nat) : Running Nat := do
  let known ← if caching then pure ((← cache c).owners.lookup slot) else pure none
  match known with
  | some address => return address
  | none =>
    match ← outward (distance - 1) c.parent with
    | none => fault (.frameMissing slot c.template.displayName)
    | some address =>
      if caching then updateCache c (·.rememberOwner slot address)
      return address

/-- The frame and the register of a captured variable. -/
def capturedPlace (caching : Bool) (c : Closure) (slot : Nat) : Running (Nat × Register) := do
  match c.template.slots[slot]? with
  | some ⟨_, .captured distance r, _⟩ => return (← owner caching c slot distance, r)
  | some _ => fault (.notCaptured slot c.template.displayName)
  | none => fault (.noSuchVariable slot c.template.displayName)

def operand (here : Activation) (half : Nat) : Running Value :=
  match Operand.ofHalf half with
  | .register r => getRegister here.address r
  | .constant index => literalValue here.closure.template index

/-- Nil in so many registers from one on. -/
def clear (address first : Nat) : Nat → Running Unit
  | 0 => return
  | n + 1 => do
    setRegister address first .nil
    clear address (first + 1) n

def registersFrom (address first : Nat) : Nat → Running (List Value)
  | 0 => return []
  | n + 1 => do
    let v ← getRegister address first
    return v :: (← registersFrom address (first + 1) n)

/-- The values in the registers from one on, up to another. -/
def slice (address first past : Nat) : Running (List Value) := do
  checkSlice address first past
  registersFrom address first (past - first)

def arithmetic? : Opcode → Option Arithmetic
  | .add => some .add
  | .subtract => some .subtract
  | .multiply => some .multiply
  | .divide => some .divide
  | .modulo => some .modulo
  | .remainder => some .remainder
  | _ => none

def comparison? : Opcode → Option Comparison
  | .equivalent => some .equivalent
  | .equalNumbers => some .equalNumbers
  | .less => some .less
  | .lessOrEqual => some .lessOrEqual
  | _ => none

/-- Goes on with the next instruction, or with the one behind it. -/
def proceed (skip : Bool) : Running Continuation := return .skip skip.toNat

/-- One instruction, given how procedures are called. -/
def step (caching : Bool) (call : Value → List Value → Running Value) (here : Activation)
    (i : Instruction) : Running Continuation := do
  let c := here.closure
  let t := c.template
  let get r := getRegister here.address r
  let put v : Running Continuation := do
    setRegister here.address i.a v
    proceed false
  match i.opcode with
  | .move => put (← get i.b)
  | .loadConstant => put (← literalValue t i.field)
  | .loadBoolean =>
    setRegister here.address i.a (.boolean (i.b != 0))
    proceed (i.c != 0)
  | .loadNil =>
    checkSlice here.address i.a (i.b + 1)
    clear here.address i.a (i.b + 1 - i.a)
    proceed false
  | .getCaptured =>
    let (address, r) ← capturedPlace caching c i.b
    put (← getRegister address r)
  | .setCaptured =>
    let (address, r) ← capturedPlace caching c i.b
    setRegister address r (← get i.a)
    proceed false
  | .getGlobal => put (← readCell (← globalCell caching c i.field))
  | .setGlobal =>
    let address ← globalCell caching c i.field
    writeCell address (← get i.a)
    proceed false
  | .add | .subtract | .multiply | .divide | .modulo | .remainder =>
    match arithmetic? i.opcode with
    | some op =>
      let x ← operand here i.b
      let y ← operand here i.c
      put (← ofExcept (op.apply x y))
    | none => fault (.noSuchOperand i.opcode.mnemonic)
  | .negate => put (← ofExcept (Arithmetic.negate (← get i.b)))
  | .not => put (.boolean !(← get i.b).isTruthy)
  | .equivalent | .equalNumbers | .less | .lessOrEqual =>
    match comparison? i.opcode with
    | some op =>
      let x ← operand here i.b
      let y ← operand here i.c
      proceed ((← ofExcept (op.holds x y)) != (i.a.val != 0))
    | none => fault (.noSuchOperand i.opcode.mnemonic)
  | .test => proceed ((← get i.a).isTruthy != (i.c != 0))
  | .testSet =>
    let v ← get i.b
    if v.isTruthy == (i.c != 0) then put v else proceed true
  | .jump =>
    if i.displacement < 0 then fault (.backwardJump t.displayName)
    else return .skip i.displacement.toNat
  | .call =>
    let callee ← get i.a
    let arguments ← slice here.address (i.a + 1) (i.a + i.b)
    let v ← call callee arguments
    if i.c != 1 then put v else proceed false
  | .return => if i.b == 2 then return .done (← get i.a) else return .done .unspecified
  | .closure =>
    let nested ← ofExcept ((t.nested i.field).mapError .fault)
    put (.closure (← newClosure nested here.address))
  | .cons =>
    let car ← operand here i.b
    let cdr ← operand here i.c
    put (← allocating (Allocating.cons car cdr))
  | .car => put (← ofExcept (← get i.b).toPair).1
  | .cdr => put (← ofExcept (← get i.b).toPair).2

/-- Code from some line on, after so many lines that are skipped. -/
def exec (caching : Bool) (call : Value → List Value → Running Value) (here : Activation) :
    List Line → (skip : Nat) → Running Value
  | [], _ => fault (.pastLastInstruction here.closure.template.displayName)
  | _ :: rest, skip + 1 => exec caching call here rest skip
  | line :: rest, 0 => do
    match ← located line.location (step caching call here line.instruction) with
    | .done v => return v
    | .skip lines => exec caching call here rest lines

/-- Deals out the arguments of a call. -/
def deal (c : Closure) (args : List Value) : Running (Dealing Nat) :=
  let t := c.template
  match t.unmarked? args with
  | some index => fault (.noSuchKey index t.displayName)
  | none =>
    match Dealing.ofArguments t.formals args with
    | .error misfit =>
      throw (.arity t.arity args.length (some (t.displayName ++ misfit.text)) none)
    | .ok dealing => return dealing

/-- Puts the arguments into the registers of a new frame, then computes the defaults of those
that are missing in it, one after the other. -/
def bindArguments (run : Closure → Running Value) (here : Activation) (args : List Value) :
    Running Unit := do
  let dealing ← deal here.closure args
  for (r, v) in dealing.values do
    setRegister here.address r v
  if let some (r, items) := dealing.rest then
    setRegister here.address r (← allocating (Allocating.list items))
  for (r, index) in dealing.defaults do
    let default ← ofExcept ((here.closure.template.nested index).mapError .fault)
    setRegister here.address r (← run (← newClosure default here.address))

end Running

namespace Machine

open Running

/-- A run without limit is cut off at this depth, which no machine reaches. -/
def unlimited : Nat := 1 <<< 62

/-- Calls a procedure, given how closures are called. -/
def applyWith (m : Machine) (run : Closure → List Value → Running Value) (callee : Value)
    (args : List Value) : Running Value :=
  match callee with
  | .closure c => run c args
  | .native n => allocating (n.call m.host args)
  | v => throw (.runtime (.notProcedure v.shown))

/-- Calls a closure while `remaining` more calls may be active. -/
def callClosure (m : Machine) : (remaining : Nat) → Closure → List Value → Running Value
  | 0, _, _ =>
    match m.callLimit with
    | some limit => throw (.runtime (.callDepth limit))
    | none => throw .unfinished
  | remaining + 1, c, args => inProcedure c.template.displayName do
    let here : Activation := ⟨← newFrame c, c⟩
    bindArguments (m.callClosure remaining · []) here args
    exec m.caching (m.applyWith (m.callClosure remaining)) here c.template.code 0

def depth (m : Machine) : Nat := m.callLimit.getD unlimited

/-- Calls any procedure. -/
def apply (m : Machine) (callee : Value) (args : List Value) : Running Value :=
  m.applyWith (m.callClosure m.depth) callee args

/-- Runs the template of a program. -/
def execute (m : Machine) (t : Template) : Running Value := do
  m.callClosure m.depth (← newClosure t none) []

end Machine

end RegisterScheme
