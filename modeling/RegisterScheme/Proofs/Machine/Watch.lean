import RegisterScheme.Proofs.Machine.Binding

/-! The machine under watch. It does what the machine does, and besides keeps all closures that it
makes, and what there is whenever an instruction is about to be executed. -/

namespace RegisterScheme

/-- An instruction that is about to be executed. -/
structure Moment where
  here : Activation
  instruction : Instruction
  /-- The closures that there are by now, in the order in which they were made. -/
  made : List Closure
  store : Store

structure Watched where
  store : Store
  made : List Closure
  moments : List Moment

/-- A computation over the store that is watched, also when it fails. -/
abbrev Watching := EStateM Failure Watched

namespace Watching

variable {α : Type}

/-- A computation that makes no closure and executes no instruction. -/
def silent (x : Running α) : Watching α := fun w =>
  match x w.store with
  | .ok a s => .ok a { w with store := s }
  | .error e s => .error e { w with store := s }

def newClosure (t : Template) (parent : Option Nat) : Watching Closure := fun w =>
  let c : Closure := ⟨w.store.caches.size, t, parent⟩
  .ok c { w with store := w.store.addClosure, made := w.made ++ [c] }

/-- A computation that begins with an instruction. -/
def recording (here : Activation) (i : Instruction) (act : Watching α) : Watching α := fun w =>
  act { w with moments := w.moments ++ [⟨here, i, w.made, w.store⟩] }

def located (place : Option Location) (act : Watching α) : Watching α :=
  tryCatch act fun f => throw (f.located place)

def inProcedure (name : String) (act : Watching α) : Watching α :=
  tryCatch act fun f => throw (f.inProcedure name)

/-- One instruction. -/
def step (caching : Bool) (call : Value → List Value → Watching Value) (here : Activation)
    (i : Instruction) : Watching Continuation :=
  if i.opcode = .call then do
    let callee ← silent (Running.getRegister here.address i.a)
    let arguments ← silent (Running.slice here.address (i.a + 1) (i.a + i.b))
    let v ← call callee arguments
    silent (if i.c != 1 then do
        Running.setRegister here.address i.a v
        Running.proceed false
      else Running.proceed false)
  else if i.opcode = .closure then do
    let nested ← silent
      (Running.ofExcept ((here.closure.template.nested i.field).mapError .fault))
    let c ← newClosure nested here.address
    silent (do
      Running.setRegister here.address i.a (.closure c)
      Running.proceed false)
  else silent (Running.step caching (fun _ _ => throw .unfinished) here i)

/-- Code from some line on, after so many lines that are skipped. -/
def exec (caching : Bool) (call : Value → List Value → Watching Value) (here : Activation) :
    List Line → (skip : Nat) → Watching Value
  | [], _ => silent (Running.fault (.pastLastInstruction here.closure.template.displayName))
  | _ :: rest, skip + 1 => exec caching call here rest skip
  | line :: rest, 0 => do
    match ← located line.location
      (recording here line.instruction (step caching call here line.instruction)) with
    | .done v => return v
    | .skip lines => exec caching call here rest lines

def fillDefaults (run : Closure → Watching Value) (here : Activation) :
    List (Register × Nat) → Watching Unit
  | [] => return
  | (r, index) :: rest => do
    let default ← silent
      (Running.ofExcept ((here.closure.template.nested index).mapError .fault))
    let c ← newClosure default here.address
    let v ← run c
    silent (Running.setRegister here.address r v)
    fillDefaults run here rest

/-- The arguments of a call, and the defaults of those that are missing. -/
def bindArguments (run : Closure → Watching Value) (here : Activation) (args : List Value) :
    Watching Unit := do
  let dealing ← silent (Running.deal here.closure args)
  silent (Running.fill here.address dealing.values)
  silent (Running.fillRest here.address dealing.rest)
  fillDefaults run here dealing.defaults

end Watching

namespace Machine

open Watching

/-- Calls a procedure, given how closures are called. -/
def watchWith (m : Machine) (run : Closure → List Value → Watching Value) (callee : Value)
    (args : List Value) : Watching Value :=
  match callee with
  | .closure c => run c args
  | v => silent (m.applyWith (fun _ _ => throw .unfinished) v args)

/-- Calls a closure while `remaining` more calls may be active. -/
def watchClosure (m : Machine) : (remaining : Nat) → Closure → List Value → Watching Value
  | 0, c, args => silent (m.callClosure 0 c args)
  | remaining + 1, c, args => inProcedure c.template.displayName do
    let here : Activation := ⟨← silent (Running.newFrame c), c⟩
    bindArguments (m.watchClosure remaining · []) here args
    exec m.caching (m.watchWith (m.watchClosure remaining)) here c.template.code 0

/-- Calls any procedure. -/
def watchApply (m : Machine) (callee : Value) (args : List Value) : Watching Value :=
  m.watchWith (m.watchClosure m.depth) callee args

/-- Runs the template of a program. -/
def watchExecute (m : Machine) (t : Template) : Watching Value := do
  m.watchClosure m.depth (← newClosure t none) []

end Machine

end RegisterScheme
