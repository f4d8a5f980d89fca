import RegisterScheme.Native.Call

/-! What a program can change while it runs: the registers of its frames and the cells of its
globals. A frame is known by its address and stays as long as a closure may need it. -/

namespace RegisterScheme

/-- The cells of the globals, each with the name that it is for. A cell is made when its name is
first used, and may be empty; its address never changes. -/
structure Globals where
  cells : Array (String × Option Value)

namespace Globals

def empty : Globals := ⟨#[]⟩

def address? (g : Globals) (name : String) : Option Nat :=
  g.cells.findIdx? fun cell => cell.1 == name

/-- The address of the cell for a name, which is made if there is none. -/
def touch (g : Globals) (name : String) : Nat × Globals :=
  match g.address? name with
  | some address => (address, g)
  | none => (g.cells.size, ⟨g.cells.push (name, none)⟩)

/-- The value in a cell, if it holds one. -/
def read? (g : Globals) (address : Nat) : Option Value :=
  g.cells[address]?.bind (·.2)

def write (g : Globals) (address : Nat) (v : Value) : Globals :=
  ⟨g.cells.modify address fun cell => (cell.1, some v)⟩

def find? (g : Globals) (name : String) : Option Value :=
  (g.address? name).bind g.read?

def set (g : Globals) (name : String) (v : Value) : Globals :=
  let (address, g) := g.touch name
  g.write address v

def size (g : Globals) : Nat := g.cells.size

/-- How many cells there are, empty ones among them. -/
def summary (g : Globals) : String :=
  s!"Namespace \x7b cells: {g.size} \x7d"

/-- The globals with values, by name. -/
def bindings (g : Globals) : List (String × Value) :=
  (g.cells.toList.filterMap fun (name, v) => v.map fun v => (name, v)).mergeSort
    fun a b => a.1 ≤ b.1

/-- The globals that hold natives under their own names. -/
def ofNatives (natives : List Native) : Globals :=
  natives.foldl (fun g n => g.set n.name (.native n)) empty

def standard : Globals :=
  ofNatives (StandardNative.all.map .standard)

end Globals

/-- An activation of a closure. -/
structure Frame where
  closure : Closure
  registers : Array Value

/-- What a closure has found out about its variables: the cells of globals by the literals that
name them, and the frames of captured variables by slot. -/
structure Cache where
  cells : List (Nat × Nat)
  owners : List (Nat × Nat)

namespace Cache

def empty : Cache := ⟨[], []⟩

def rememberCell (c : Cache) (index address : Nat) : Cache :=
  { c with cells := (index, address) :: c.cells }

def rememberOwner (c : Cache) (slot address : Nat) : Cache :=
  { c with owners := (slot, address) :: c.owners }

end Cache

structure Store where
  frames : Array Frame
  globals : Globals
  /-- The caches of the closures, by address. -/
  caches : Array Cache
  /-- The identity of the next object. -/
  nextObject : Nat

def Store.ofGlobals (g : Globals) : Store := ⟨#[], g, #[], 0⟩

/-- A computation over the store, which keeps its changes when it fails. -/
abbrev Running := EStateM Failure Store

namespace Running

def fault {α : Type} (f : Fault) : Running α := throw (.fault f)

/-- Errors of a computation get a place if they have none. -/
def located {α : Type} (place : Option Location) (act : Running α) : Running α :=
  tryCatch act fun f => throw (f.located place)

/-- Runtime errors of a computation record a procedure that was active. -/
def inProcedure {α : Type} (name : String) (act : Running α) : Running α :=
  tryCatch act fun f => throw (f.inProcedure name)

def ofExcept {α : Type} (r : Except Failure α) : Running α :=
  match r with
  | .ok a => return a
  | .error f => throw f

/-- Makes objects in the store. -/
def allocating {α : Type} (act : Allocating α) : Running α := fun s =>
  match act.run s.nextObject with
  | .ok (a, next) => .ok a { s with nextObject := next }
  | .error f => .error f s

/-- A closure that is no other one. -/
def newClosure (t : Template) (parent : Option Nat) : Running Closure := fun s =>
  .ok ⟨s.caches.size, t, parent⟩ { s with caches := s.caches.push .empty }

/-- The address of a new frame, with nil in all registers. -/
def newFrame (c : Closure) : Running Nat := fun s =>
  .ok s.frames.size { s with
    frames := s.frames.push ⟨c, Array.replicate c.template.frameSize .nil⟩ }

def frame (address : Nat) : Running Frame := do
  match (← get).frames[address]? with
  | some f => return f
  | none => fault (.noSuchFrame address)

def getRegister (address register : Nat) : Running Value := do
  let f ← frame address
  match f.registers[register]? with
  | some v => return v
  | none => fault (.noSuchRegister register f.closure.template.displayName)

def setRegister (address register : Nat) (v : Value) : Running Unit := do
  let f ← frame address
  if register < f.registers.size then
    modify fun s => { s with
      frames := s.frames.modify address fun f =>
        { f with registers := f.registers.setIfInBounds register v } }
  else fault (.noSuchRegister register f.closure.template.displayName)

/-- The registers from one on, up to another, can be taken together. -/
def checkSlice (address first past : Nat) : Running Unit := do
  let f ← frame address
  if first ≤ past ∧ past ≤ f.registers.size then return
  else fault (.noSuchSlice first past f.closure.template.displayName)

/-- The address of the cell for a name. -/
def cell (name : String) : Running Nat := fun s =>
  let (address, globals) := s.globals.touch name
  .ok address { s with globals := globals }

/-- The value in a cell, nil if it is empty. -/
def readCell (address : Nat) : Running Value :=
  return ((← get).globals.read? address).getD .nil

def writeCell (address : Nat) (v : Value) : Running Unit :=
  modify fun s => { s with globals := s.globals.write address v }

def cache (c : Closure) : Running Cache :=
  return ((← get).caches[c.address]?).getD .empty

def updateCache (c : Closure) (f : Cache → Cache) : Running Unit :=
  modify fun s => { s with caches := s.caches.modify c.address f }

/-- The frame so many closures further out than a given one. -/
def outward : Nat → Option Nat → Running (Option Nat)
  | 0, address => return address
  | _ + 1, none => return none
  | n + 1, some address => do outward n (← frame address).closure.parent

end Running

end RegisterScheme
