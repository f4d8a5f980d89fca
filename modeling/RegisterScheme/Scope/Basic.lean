import RegisterScheme.Failure.Basic
import RegisterScheme.Primitive
import RegisterScheme.Variable

/-! The scope of one procedure: its bindings in the order in which they were made, and how many
registers they take. The slot of a binding is its place in that order. -/

namespace RegisterScheme

inductive BindingKind where
  | primitive (primitive : Primitive)
  | variable (kind : VariableKind)
deriving DecidableEq, Repr

structure Binding where
  name : String
  kind : BindingKind
deriving DecidableEq, Repr

def Binding.register? (b : Binding) : Option Register :=
  match b.kind with
  | .variable k => k.register?
  | .primitive _ => none

structure Scope where
  bindings : List Binding
  /-- How many registers arguments and locals have; temporaries lie above them. -/
  registers : Nat
  /-- The primitives that definitions have made globals. -/
  shadowed : List String
deriving DecidableEq, Repr

namespace Scope

def empty : Scope := ⟨[], 0, []⟩

/-- The slot and the binding of a name. -/
def find? (s : Scope) (name : String) : Option (Nat × Binding) :=
  (s.bindings.findIdx? fun b => b.name == name).bind fun slot =>
    s.bindings[slot]?.map fun b => (slot, b)

def binds (s : Scope) (name : String) : Bool :=
  s.bindings.any fun b => b.name == name

def shadow (s : Scope) (name : String) : Scope :=
  if s.shadowed.contains name then s else { s with shadowed := s.shadowed ++ [name] }

/-- Binds a name that is not bound yet, in the next slot. -/
def define (s : Scope) (name : String) (kind : BindingKind) (location : Option Location) :
    Except Error (Nat × Scope) :=
  if s.binds name then .error (.malformed ⟨.alreadyBound name, none, location⟩)
  else .ok (s.bindings.length, { s with bindings := s.bindings ++ [⟨name, kind⟩] })

/-- The next register of the frame. -/
def allocate (s : Scope) : Except Error (Register × Scope) :=
  if h : s.registers < maxRegisters then
    .ok (⟨s.registers, by simp only [maxRegisters] at h; omega⟩,
      { s with registers := s.registers + 1 })
  else .error (.overrun (.locals maxRegisters))

/-- Binds a name to the next register, as a variable of the kind that it makes of a register. -/
def defineRegister (s : Scope) (name : String) (kind : Register → VariableKind)
    (location : Option Location) : Except Error ((Nat × Register) × Scope) := do
  if s.binds name then throw (.malformed ⟨.alreadyBound name, none, location⟩)
  let (register, s) ← s.allocate
  let (slot, s) ← s.define name (.variable (kind register)) location
  return ((slot, register), s)

def defineArgument (s : Scope) (name : String) (parameter : ParameterKind)
    (location : Option Location) : Except Error ((Nat × Register) × Scope) :=
  s.defineRegister name (.argument · parameter) location

def defineLocal (s : Scope) (name : String) (location : Option Location) :
    Except Error ((Nat × Register) × Scope) :=
  s.defineRegister name .localVariable location

end Scope

end RegisterScheme
