import RegisterScheme.Arity
import RegisterScheme.Failure.Malformed

/-! How reading, resolving, generating and running can fail. An `Error` is an outcome that
programs can have; a `Fault` is a broken invariant; a run without a call limit may also be cut
off unfinished. -/

namespace RegisterScheme

/-- A wrong number of operands or arguments. -/
structure ArityError where
  expected : Arity
  got : Nat
  /-- The form or the procedure that was counted for. -/
  context : Option String
  location : Option Location
deriving DecidableEq, Repr

/-- A type name and the text of the value that has it. -/
structure Shown where
  typeName : String
  text : String
deriving DecidableEq, Repr

inductive RuntimeError.Cause where
  | divisionByZero
  | integerOverflow (mnemonic : String)
  | wrongType (expected : String) (got : Shown)
  | notProcedure (got : Shown)
  | callDepth (limit : Nat)
  | indexOutOfRange (index : Int64) (length : Nat)
  | raised (message : String)
deriving DecidableEq, Repr

def RuntimeError.Cause.text : RuntimeError.Cause → String
  | divisionByZero => "division by zero"
  | integerOverflow mnemonic => s!"integer overflow in {mnemonic}"
  | wrongType expected got => s!"expected {expected}, got {got.typeName} {got.text}"
  | notProcedure got => s!"attempt to call non-procedure {got.typeName} {got.text}"
  | callDepth limit => s!"call depth exceeded {limit}"
  | indexOutOfRange index length =>
    s!"vector-ref: index {index.toInt} out of range for length {length}"
  | raised message => message

structure RuntimeError where
  cause : RuntimeError.Cause
  location : Option Location
  /-- The names of the procedures that were active, innermost first. -/
  stack : List String
deriving DecidableEq, Repr

/-- What does not fit into a frame, a literal pool or an instruction. -/
inductive Overrun where
  | locals (limit : Nat)
  | registers (limit : Nat)
  | literals (limit : Nat)
  | captureDistance (name : String)
  | variableSlot (slot : Nat)
  | operand (value : Nat) (mnemonic : String) (limit : Nat)
  | literalIndex (index : Nat) (mnemonic : String) (limit : Nat)
  | jump (displacement : Int)
  | reported (message : String)
deriving DecidableEq, Repr

def Overrun.text : Overrun → String
  | locals limit => s!"more than {limit} arguments and locals in one procedure"
  | registers limit => s!"expression needs more than {limit} registers"
  | literals limit => s!"more than {limit} literals in one procedure"
  | captureDistance name => s!"`{name}` is captured across too many scopes"
  | variableSlot slot => s!"variable slot {slot} out of range"
  | operand value mnemonic limit => s!"operand {value} of {mnemonic} exceeds {limit}"
  | literalIndex index mnemonic limit => s!"literal index {index} of {mnemonic} exceeds {limit}"
  | jump displacement => s!"jump displacement {displacement} out of range"
  | reported message => message

inductive Error where
  | malformed (e : Malformed)
  | arity (e : ArityError)
  | runtime (e : RuntimeError)
  | overrun (o : Overrun)
deriving DecidableEq, Repr

/-- What no program can bring about. -/
inductive Fault where
  | emptyChain
  | chainUnderflow
  /-- A name to resolve where there is no scope. -/
  | noScope
  | invalidOpcode (opcode : Nat) (word : UInt32)
  | notTemplate (index : Nat) (owner : String) (literal : String)
  | notGlobalName (index : Nat) (owner : String)
  | notCaptured (slot : Nat) (owner : String)
  | capturePastOutermost (name : String)
  | frameMissing (slot : Nat) (owner : String)
  | noSuchRegister (register : Nat) (owner : String)
  /-- Registers from one on, up to another that comes before it or lies past the frame. -/
  | noSuchSlice (first past : Nat) (owner : String)
  | noSuchLiteral (index : Nat) (owner : String)
  | noSuchVariable (slot : Nat) (owner : String)
  /-- A keyword whose parameter is past the number of them. -/
  | noSuchKey (index : Nat) (owner : String)
  | noSuchFrame (address : Nat)
  | noSuchOperand (mnemonic : String)
  | noSuchNative (number : Nat)
  | boundPrimitive (name : String)
  | notGlobal (name : String)
  | freedVariable (register : Nat)
  | backwardJump (owner : String)
  | pastLastInstruction (owner : String)
  | nesting
deriving DecidableEq, Repr

/-- A word in hexadecimal with all eight digits. -/
def wordText (word : UInt32) : String :=
  let digits := Nat.toDigits 16 word.toNat
  "0x" ++ String.ofList (List.replicate (8 - digits.length) '0' ++ digits)

def Fault.text : Fault → String
  | emptyChain => "scope chain is empty"
  | chainUnderflow => "scope chain underflow: pop without matching push"
  | noScope => "attempt to subtract with overflow"
  | invalidOpcode opcode word => s!"invalid opcode {opcode} in instruction " ++ wordText word
  | notTemplate index owner literal => s!"literal {index} of {owner} is {literal}, not a template"
  | notGlobalName index owner => s!"literal {index} of {owner} does not name a global"
  | notCaptured slot owner => s!"variable {slot} of {owner} is not an upvalue"
  | capturePastOutermost name => s!"upvalue `{name}` reaches past the outermost scope"
  | frameMissing slot owner => s!"upvalue {slot} of {owner} is past the outermost frame"
  | noSuchRegister register owner => s!"{owner} has no register {register}"
  | noSuchSlice first past owner => s!"{owner} has no registers from {first} up to {past}"
  | noSuchLiteral index owner => s!"{owner} has no literal {index}"
  | noSuchVariable slot owner => s!"{owner} has no variable {slot}"
  | noSuchKey index owner => s!"{owner} has no key parameter {index}"
  | noSuchFrame address => s!"there is no frame {address}"
  | noSuchOperand mnemonic => s!"{mnemonic} lacks an operand"
  | noSuchNative number => s!"the host has no procedure {number}"
  | boundPrimitive name => s!"primitive bound as variable `{name}`"
  | notGlobal name => s!"`{name}` is not bound as a global"
  | freedVariable register => s!"register {register} is freed below the temporaries"
  | backwardJump owner => s!"backward jump in {owner}"
  | pastLastInstruction owner => s!"{owner} ran past its last instruction"
  | nesting => "forms nested deeper than they can be"

inductive Failure where
  | error (e : Error)
  | fault (f : Fault)
  /-- A run without call limit was cut off. -/
  | unfinished
deriving DecidableEq, Repr

namespace Error

def atText : Option Location → String
  | some l => s!" at {l.text}"
  | none => ""

def message : Error → String
  | malformed e =>
    let found := match e.found with
      | some text => s!" (found {text})"
      | none => ""
    s!"SyntaxError: {e.cause.text}" ++ found ++ atText e.location
  | arity e =>
    let context := match e.context with
      | some name => s!"{name}: "
      | none => ""
    s!"ArityError: {context}expected {e.expected.text} arguments, got {e.got}"
      ++ atText e.location
  | runtime e =>
    e.stack.foldl (fun text name => text ++ s!"\n  in {name}")
      (s!"RuntimeError: {e.cause.text}" ++ atText e.location)
  | overrun o => s!"CompileError: {o.text}"

/-- The place of an error that has none yet. -/
def located (place : Option Location) : Error → Error
  | malformed e => malformed { e with location := e.location <|> place }
  | arity e => arity { e with location := e.location <|> place }
  | runtime e => runtime { e with location := e.location <|> place }
  | overrun o => overrun o

/-- One more procedure that was active when a runtime error arose. -/
def inProcedure (name : String) : Error → Error
  | runtime e => runtime { e with stack := e.stack ++ [name] }
  | e => e

end Error

namespace Failure

def malformed (cause : Malformed.Cause) (found : Option String) (place : Option Location) :
    Failure :=
  error (.malformed ⟨cause, found, place⟩)

def arity (expected : Arity) (got : Nat) (context : Option String) (place : Option Location) :
    Failure :=
  error (.arity ⟨expected, got, context, place⟩)

def runtime (cause : RuntimeError.Cause) : Failure :=
  error (.runtime ⟨cause, none, []⟩)

def overrun (o : Overrun) : Failure := error (.overrun o)

def mapError (f : Error → Error) : Failure → Failure
  | error e => error (f e)
  | failure => failure

def located (place : Option Location) (f : Failure) : Failure :=
  f.mapError (Error.located place)

def inProcedure (name : String) (f : Failure) : Failure :=
  f.mapError (Error.inProcedure name)

end Failure

end RegisterScheme
