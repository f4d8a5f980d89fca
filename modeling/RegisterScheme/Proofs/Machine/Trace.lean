import RegisterScheme.Machine.Run

/-! The machine that always knows which procedures are active, and where each of them is. It does
what the machine does, but where something fails, it says what was active there and adds nothing to
the failure on its way out. -/

namespace RegisterScheme

/-- An active procedure: its name, and the place of the instruction that it is executing, if there
is such an instruction and its place is recorded. -/
structure Active where
  name : String
  location : Option Location
deriving DecidableEq, Repr

/-- A failure as it was raised, and the procedures that were active then, innermost first. -/
structure Raised where
  failure : Failure
  active : List Active
deriving DecidableEq, Repr

/-- A computation over the store that says what was active where it failed. -/
abbrev Tracing := EStateM Raised Store

namespace Tracing

variable {α : Type}

/-- A computation in which no closure is called, while some procedures are active. -/
def within (active : List Active) (x : Running α) : Tracing α := fun s =>
  match x s with
  | .ok a s => .ok a s
  | .error f s => .error ⟨f, active⟩ s

/-- One instruction. -/
def step (caching : Bool) (call : Value → List Value → Tracing Value) (active : List Active)
    (here : Activation) (i : Instruction) : Tracing Continuation :=
  if i.opcode = .call then do
    let callee ← within active (Running.getRegister here.address i.a)
    let arguments ← within active (Running.slice here.address (i.a + 1) (i.a + i.b))
    let v ← call callee arguments
    within active (if i.c != 1 then do
        Running.setRegister here.address i.a v
        Running.proceed false
      else Running.proceed false)
  else within active (Running.step caching (fun _ _ => throw .unfinished) here i)

/-- Code from some line on, after so many lines that are skipped. Each line is where the procedure
is while it is executed. -/
def exec (caching : Bool) (call : List Active → Value → List Value → Tracing Value)
    (outer : List Active) (here : Activation) : List Line → (skip : Nat) → Tracing Value
  | [], _ =>
    let name := here.closure.template.displayName
    within (⟨name, none⟩ :: outer) (Running.fault (.pastLastInstruction name))
  | _ :: rest, skip + 1 => exec caching call outer here rest skip
  | line :: rest, 0 => do
    let active := ⟨here.closure.template.displayName, line.location⟩ :: outer
    match ← step caching (call active) active here line.instruction with
    | .done v => return v
    | .skip lines => exec caching call outer here rest lines

/-- The arguments of a call, and the defaults of those that are missing. -/
def bindArguments (run : Closure → Tracing Value) (active : List Active) (here : Activation)
    (args : List Value) : Tracing Unit := do
  let dealing ← within active (Running.deal here.closure args)
  for (r, v) in dealing.values do
    within active (Running.setRegister here.address r v)
  if let some (r, items) := dealing.rest then
    let v ← within active (Running.allocating (Allocating.list items))
    within active (Running.setRegister here.address r v)
  for (r, index) in dealing.defaults do
    let default ← within active
      (Running.ofExcept ((here.closure.template.nested index).mapError .fault))
    let c ← within active (Running.newClosure default here.address)
    let v ← run c
    within active (Running.setRegister here.address r v)

end Tracing

namespace Machine

open Tracing

/-- Calls a procedure, given how closures are called. A native is never active by itself. -/
def traceWith (m : Machine) (run : Closure → List Value → Tracing Value) (active : List Active)
    (callee : Value) (args : List Value) : Tracing Value :=
  match callee with
  | .closure c => run c args
  | v => within active (m.applyWith (fun _ _ => throw .unfinished) v args)

/-- Calls a closure while `remaining` more calls may be active. One that is refused does not become
active. -/
def traceClosure (m : Machine) :
    (remaining : Nat) → List Active → Closure → List Value → Tracing Value
  | 0, outer, c, args => within outer (m.callClosure 0 c args)
  | remaining + 1, outer, c, args => do
    let active := ⟨c.template.displayName, none⟩ :: outer
    let here : Activation := ⟨← within active (Running.newFrame c), c⟩
    bindArguments (m.traceClosure remaining active · []) active here args
    exec m.caching (fun active => m.traceWith (m.traceClosure remaining active) active) outer here
      c.template.code 0

/-- Runs the template of a program. -/
def traceExecute (m : Machine) (t : Template) : Tracing Value := do
  m.traceClosure m.depth [] (← within [] (Running.newClosure t none)) []

end Machine

end RegisterScheme
