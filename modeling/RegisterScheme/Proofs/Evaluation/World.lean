import RegisterScheme.Machine.Arguments
import RegisterScheme.Native.Call
import RegisterScheme.Template.Generator

/-! What resolved expressions are evaluated in: activations with their variables, globals by name,
and the procedures of the closures made so far. Nothing here knows of code, of temporaries or of
caches. -/

namespace RegisterScheme

/-- An activation of a closure, with the variables of its procedure by register. -/
structure Environment where
  closure : Closure
  values : Register → Value

structure World where
  environments : Array Environment
  globals : String → Option Value
  /-- The procedures of the closures and where those were made, by address. -/
  procedures : Array (Function × Option Nat)
  /-- The identity of the next object. -/
  nextObject : Nat

/-- A computation over the world, which keeps its changes when it fails. -/
abbrev Evaluating := EStateM Failure World

/-- Where a variable lies. -/
inductive Place where
  | register (address : Nat) (r : Register)
  | global (name : String)

def Function.displayName (f : Function) : String := f.name.getD "<anonymous>"

/-- The parameters of a procedure in the order in which they take arguments. -/
def Function.formals (f : Function) : Formals Function :=
  let formal : OptionalParameter Function → Formal Function := fun p => ⟨p.name, p.register, p.default⟩
  let required := f.scope.bindings.filterMap fun b =>
    match b.kind with
    | .variable (.argument r .required) => some ⟨b.name, r, none⟩
    | _ => none
  ⟨f.parameters.required, required ++ f.parameters.optional.map formal,
    !f.parameters.keys.isEmpty, f.parameters.keys.map formal, f.parameters.rest⟩

namespace Evaluating

def fault {α : Type} (f : Fault) : Evaluating α := throw (.fault f)

def located {α : Type} (place : Option Location) (act : Evaluating α) : Evaluating α :=
  tryCatch act fun f => throw (f.located place)

def inProcedure {α : Type} (name : String) (act : Evaluating α) : Evaluating α :=
  tryCatch act fun f => throw (f.inProcedure name)

def ofExcept {α : Type} (r : Except Failure α) : Evaluating α :=
  match r with
  | .ok a => return a
  | .error f => throw f

def allocating {α : Type} (act : Allocating α) : Evaluating α := fun w =>
  match act.run w.nextObject with
  | .ok (a, next) => .ok a { w with nextObject := next }
  | .error f => .error f w

/-- A closure of a procedure that is no other one. Its template is that of the procedure. -/
def newClosure (f : Function) (parent : Option Nat) : Evaluating Closure := fun w =>
  match f.template with
  | .ok t => .ok ⟨w.procedures.size, t, parent⟩ { w with procedures := w.procedures.push (f, parent) }
  | .error e => .error e w

/-- The procedure of a closure. -/
def procedure (c : Closure) : Evaluating Function := do
  match (← get).procedures[c.address]? with
  | some (f, _) => return f
  | none => fault (.noSuchFrame c.address)

/-- The address of a new activation, with nil in all variables. -/
def enter (c : Closure) : Evaluating Nat := fun w =>
  .ok w.environments.size { w with environments := w.environments.push ⟨c, fun _ => .nil⟩ }

def environment (address : Nat) : Evaluating Environment := do
  match (← get).environments[address]? with
  | some e => return e
  | none => fault (.noSuchFrame address)

/-- The activation so many closures further out than a given one. -/
def outward : Nat → Option Nat → Evaluating (Option Nat)
  | 0, address => return address
  | _ + 1, none => return none
  | n + 1, some address => do outward n (← environment address).closure.parent

/-- Where a variable lies in an activation. A captured one belongs to the activation in which the
closure was made, or to one further out. -/
def place (here : Nat) (scope : Scope) : VariableRef → Evaluating Place
  | .localVariable r => return .register here r
  | .global slot =>
    match scope.bindings[slot]? with
    | some b => return .global b.name
    | none => fault (.noSuchVariable slot "<scope>")
  | .captured slot => do
    match scope.bindings[slot]? with
    | some ⟨name, .variable (.captured distance r)⟩ =>
      match ← outward (distance - 1) (← environment here).closure.parent with
      | some address => return .register address r
      | none => fault (.frameMissing slot name)
    | _ => fault (.notCaptured slot "<scope>")

/-- The value of a variable; a global that is not set is nil. -/
def read : Place → Evaluating Value
  | .register address r => return (← environment address).values r
  | .global name => return ((← get).globals name).getD .nil

def write : Place → Value → Evaluating Unit
  | .register address r, v => do
    let _ ← environment address
    modify fun w => { w with
      environments := w.environments.modify address fun e =>
        { e with values := fun q => if q = r then v else e.values q } }
  | .global name, v =>
    modify fun w => { w with globals := fun n => if n = name then some v else w.globals n }

end Evaluating

end RegisterScheme
