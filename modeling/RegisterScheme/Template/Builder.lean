import RegisterScheme.Expr.Basic

/-! What grows while the code of a procedure is generated: its pool of literals, and the stack of
temporaries above the registers of its variables. -/

namespace RegisterScheme

/-- Generated code, in order. Jumps are relative, so code can be moved as a whole. -/
abbrev Code := List Line

structure Builder where
  literals : Array (Literal Template)
  /-- The literals that name globals, by slot. -/
  globalNames : List (Nat × Nat)
  /-- The literal of the unspecified value. -/
  unspecified : Option Nat
  /-- The first free register. -/
  free : Nat
  /-- The greatest value that `free` has had. -/
  used : Nat

abbrev Generating := EStateM Failure Builder

namespace Builder

/-- Nothing yet; temporaries begin above the variables. -/
def start (registers : Nat) : Builder := ⟨#[], [], none, registers, registers⟩

end Builder

namespace Generating

def overrun {α : Type} (o : Overrun) : Generating α := throw (.overrun o)

def fault {α : Type} (f : Fault) : Generating α := throw (.fault f)

/-- The next temporary. -/
def allocate : Generating Register := do
  let b ← get
  if h : b.free < maxRegisters then
    set { b with free := b.free + 1, used := max b.used (b.free + 1) }
    return ⟨b.free, by simp only [maxRegisters] at h; omega⟩
  else overrun (.registers maxRegisters)

/-- Frees the temporaries from a register on. -/
def freeFrom (scope : Scope) (register : Nat) : Generating Unit :=
  if scope.registers ≤ register then modify fun b => { b with free := register }
  else fault (.freedVariable register)

def pushLiteral (l : Literal Template) : Generating Nat := do
  let b ← get
  if maxField < b.literals.size then overrun (.literals (maxField + 1))
  else
    set { b with literals := b.literals.push l }
    return b.literals.size

/-- Whether a literal of the pool can stand for a quotation. Pairs and vectors keep their own
identity. -/
def sameConstant (l : Literal Template) (q : Quotation) : Bool :=
  match l, q.datum with
  | .quotation ⟨_, .atom a⟩, .atom a' => a.identical a'
  | _, _ => false

/-- The index of a literal, which is added to the pool if it is new. -/
def literal (q : Quotation) : Generating Nat := do
  match (← get).literals.findIdx? (sameConstant · q) with
  | some index => return index
  | none => pushLiteral (.quotation q)

def atom (a : Atom) : Generating Nat := literal ⟨0, .atom a⟩

/-- The literal that names the global in a slot. -/
def globalName (scope : Scope) (slot : Nat) : Generating Nat := do
  match (← get).globalNames.lookup slot with
  | some index => return index
  | none =>
    match scope.bindings[slot]? with
    | none => fault (.noSuchVariable slot "<scope>")
    | some b =>
      if b.kind = .variable .global then
        let index ← atom (.symbol b.name)
        modify fun s => { s with globalNames := (slot, index) :: s.globalNames }
        return index
      else fault (.notGlobal b.name)

def unspecified : Generating Nat := do
  match (← get).unspecified with
  | some index => return index
  | none =>
    let index ← pushLiteral .unspecified
    modify fun b => { b with unspecified := some index }
    return index

/-- One line of code, if its operands fit. -/
def emit (location : Option Location) (i : Except Overrun Instruction) : Generating Code :=
  match i with
  | .ok i => return [⟨i, location⟩]
  | .error o => overrun o

/-- A jump over so many lines. -/
def jump (location : Option Location) (lines : Nat) : Generating Code :=
  emit location (Instruction.asbx .jump .zero lines)

/-- Pieces of code that each end in a jump behind the last piece. `lines` counts the lines of
all of them and of their jumps. -/
def withExits (location : Option Location) (last : Code) :
    (lines : Nat) → List Code → Generating Code
  | _, [] => return last
  | lines, piece :: pieces => do
    let remaining := lines - (piece.length + 1)
    let exit ← jump location remaining
    return piece ++ exit ++ (← withExits location last remaining pieces)

/-- As `withExits`, with the lines counted. -/
def joined (location : Option Location) (pieces : List Code) (last : Code) : Generating Code :=
  withExits location last
    (pieces.foldl (fun n piece => n + (piece.length + 1)) last.length) pieces

/-- The slot of a variable as an operand. -/
def slotOperand (slot : Nat) : Except Overrun Nat :=
  if slot < UInt16.size then .ok slot else .error (.variableSlot slot)

end Generating

end RegisterScheme
