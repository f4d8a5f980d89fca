import RegisterScheme.Proofs.Machine.Loop

/-! The machine with a log. It does what the machine does, and besides writes down when a call of
a closure becomes active, when it ends, in whichever way, and when the limit refuses one. -/

namespace RegisterScheme

inductive CallEvent where
  | entered
  | left
  | refused
deriving DecidableEq, Repr

namespace CallEvent

/-- How many calls are active after some events. -/
def active (events : List CallEvent) : Int :=
  events.count .entered - events.count .left

/-- The events of calls, one after the other, where so many may lie inside each other. -/
inductive Nested : (room : Nat) → List CallEvent → Prop
  | nil (room : Nat) : Nested room []
  | append {room : Nat} {es es' : List CallEvent} (first : Nested room es)
      (second : Nested room es') : Nested room (es ++ es')
  | call {room : Nat} {es : List CallEvent} (inside : Nested room es) :
      Nested (room + 1) (.entered :: (es ++ [.left]))
  | refused : Nested 0 [.refused]

theorem active_append (es es' : List CallEvent) : active (es ++ es') = active es + active es' := by
  unfold active
  simp only [List.count_append]
  omega

theorem active_entered (es : List CallEvent) : active (.entered :: es) = active es + 1 := by
  unfold active
  simp
  omega

variable {room : Nat} {es : List CallEvent}

/-- In the end all calls have been left. -/
theorem Nested.active_eq_zero (h : Nested room es) : active es = 0 := by
  induction h with
  | nil => rfl
  | append _ _ ih ih' => rw [active_append, ih, ih', Int.add_zero]
  | call _ ih =>
    rw [active_entered, active_append, ih]
    rfl
  | refused => rfl

/-- No more calls are ever active than there is room for. -/
theorem Nested.active_le (h : Nested room es) {before : List CallEvent} (hb : before <+: es) :
    active before ≤ room := by
  induction h generalizing before with
  | nil room =>
    rw [List.prefix_nil] at hb
    rw [hb]
    exact Int.natCast_nonneg room
  | @append room es es' first _ ih ih' =>
    rcases List.prefix_or_prefix_of_prefix hb (List.prefix_append es es') with hfirst | ⟨rest, rfl⟩
    · exact ih hfirst
    · rw [active_append, first.active_eq_zero, Int.zero_add]
      exact ih' ((List.prefix_append_right_inj es).mp hb)
  | @call room es inside ih =>
    rcases List.prefix_cons_iff.mp hb with rfl | ⟨rest, rfl, hrest⟩
    · exact Int.natCast_nonneg (room + 1)
    · rw [active_entered, Int.natCast_succ]
      rcases List.prefix_concat_iff.mp hrest with rfl | hinside
      · have hleft : active [.left] = -1 := rfl
        rw [active_append, inside.active_eq_zero, hleft]
        omega
      · exact Int.add_le_add_right (ih hinside) 1
  | refused =>
    rcases List.prefix_cons_iff.mp hb with rfl | ⟨rest, rfl, hrest⟩
    · exact Int.le_refl 0
    · rw [List.prefix_nil.mp hrest]
      exact Int.le_refl 0

end CallEvent

/-- A store, with what has happened so far. -/
structure Logged where
  store : Store
  events : List CallEvent

/-- A computation over the store that keeps a log, also when it fails. -/
abbrev Logging := EStateM Failure Logged

namespace Logging

variable {α β : Type}

/-- A computation in which no closure is called. -/
def silent (x : Running α) : Logging α := fun l =>
  match x l.store with
  | .ok a s => .ok a ⟨s, l.events⟩
  | .error e s => .error e ⟨s, l.events⟩

def note (e : CallEvent) : Logging Unit := fun l => .ok () ⟨l.store, l.events ++ [e]⟩

def located (place : Option Location) (act : Logging α) : Logging α :=
  tryCatch act fun f => throw (f.located place)

def inProcedure (name : String) (act : Logging α) : Logging α :=
  tryCatch act fun f => throw (f.inProcedure name)

/-- The body of a call, which is active until it ends or fails. -/
def activation (act : Logging α) : Logging α := do
  note .entered
  let a ← tryCatch act fun f => do
    note .left
    throw f
  note .left
  return a

theorem activation_of_ok {x : Logging α} {l l' : Logged} {a : α}
    (h : x ⟨l.store, l.events ++ [.entered]⟩ = .ok a l') :
    activation x l = .ok a ⟨l'.store, l'.events ++ [.left]⟩ := by
  have hentered : note .entered l = .ok () ⟨l.store, l.events ++ [.entered]⟩ := rfl
  rw [activation, bind_of_ok hentered]
  exact bind_of_ok (tryCatch_of_ok h)

theorem activation_of_error {x : Logging α} {l l' : Logged} {e : Failure}
    (h : x ⟨l.store, l.events ++ [.entered]⟩ = .error e l') :
    activation x l = .error e ⟨l'.store, l'.events ++ [.left]⟩ := by
  have hentered : note .entered l = .ok () ⟨l.store, l.events ++ [.entered]⟩ := rfl
  rw [activation, bind_of_ok hentered]
  exact bind_of_error ((tryCatch_of_error h).trans rfl)

/-- One instruction. -/
def step (caching : Bool) (call : Value → List Value → Logging Value) (here : Activation)
    (i : Instruction) : Logging Continuation :=
  if i.opcode = .call then do
    let callee ← silent (Running.getRegister here.address i.a)
    let arguments ← silent (Running.slice here.address (i.a + 1) (i.a + i.b))
    let v ← call callee arguments
    silent (if i.c != 1 then do
        Running.setRegister here.address i.a v
        Running.proceed false
      else Running.proceed false)
  else silent (Running.step caching (fun _ _ => throw .unfinished) here i)

/-- Code from some line on, after so many lines that are skipped. -/
def exec (caching : Bool) (call : Value → List Value → Logging Value) (here : Activation) :
    List Line → (skip : Nat) → Logging Value
  | [], _ => silent (Running.fault (.pastLastInstruction here.closure.template.displayName))
  | _ :: rest, skip + 1 => exec caching call here rest skip
  | line :: rest, 0 => do
    match ← located line.location (step caching call here line.instruction) with
    | .done v => return v
    | .skip lines => exec caching call here rest lines

/-- The arguments of a call, and the defaults of those that are missing. -/
def bindArguments (run : Closure → Logging Value) (here : Activation) (args : List Value) :
    Logging Unit := do
  let dealing ← silent (Running.deal here.closure args)
  for (r, v) in dealing.values do
    silent (Running.setRegister here.address r v)
  if let some (r, items) := dealing.rest then
    let v ← silent (Running.allocating (Allocating.list items))
    silent (Running.setRegister here.address r v)
  for (r, index) in dealing.defaults do
    let default ← silent
      (Running.ofExcept ((here.closure.template.nested index).mapError .fault))
    let c ← silent (Running.newClosure default here.address)
    let v ← run c
    silent (Running.setRegister here.address r v)

end Logging

namespace Machine

open Logging

/-- Calls a procedure, given how closures are called. -/
def logWith (m : Machine) (run : Closure → List Value → Logging Value) (callee : Value)
    (args : List Value) : Logging Value :=
  match callee with
  | .closure c => run c args
  | v => silent (m.applyWith (fun _ _ => throw .unfinished) v args)

/-- Calls a closure while `remaining` more calls may be active. -/
def logClosure (m : Machine) : (remaining : Nat) → Closure → List Value → Logging Value
  | 0, c, args => do
    note .refused
    silent (m.callClosure 0 c args)
  | remaining + 1, c, args => inProcedure c.template.displayName <| activation do
    let here : Activation := ⟨← silent (Running.newFrame c), c⟩
    bindArguments (m.logClosure remaining · []) here args
    exec m.caching (m.logWith (m.logClosure remaining)) here c.template.code 0

/-- Calls any procedure. -/
def logApply (m : Machine) (callee : Value) (args : List Value) : Logging Value :=
  m.logWith (m.logClosure m.depth) callee args

/-- Runs the template of a program. -/
def logExecute (m : Machine) (t : Template) : Logging Value := do
  m.logClosure m.depth (← silent (Running.newClosure t none)) []

end Machine

end RegisterScheme
