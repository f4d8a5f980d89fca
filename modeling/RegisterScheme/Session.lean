import RegisterScheme.Host.Signature
import RegisterScheme.Machine.Run
import RegisterScheme.Program

/-! A session: programs that follow each other and share their globals. A program that defines
the name of a primitive takes it from the programs after it, which see the new global. -/

namespace RegisterScheme

structure Session where
  options : ReadOptions
  machine : Machine
  primitives : Primitives
  store : Store

/-- How many calls may be active at a time if nothing else is said. -/
def standardCallLimit : Nat := 128

def Machine.standard : Machine :=
  ⟨Host.ofProcedures [], some standardCallLimit, true⟩

namespace Session

def start (options : ReadOptions) (machine : Machine) : Session :=
  ⟨options, machine, .standard, .ofGlobals .standard⟩

/-- The label of texts that are evaluated at once. -/
def evaluationOrigin : String := "<eval>"

/-- The outcome of a computation over the store. The store keeps its changes in any case. -/
def run {α : Type} (s : Session) (act : Running α) : Except Failure α × Session :=
  match act s.store with
  | .ok a store => (.ok a, { s with store := store })
  | .error f store => (.error f, { s with store := store })

/-- The template of a text; primitives that it redefines are gone. A text that fails changes
nothing. -/
def compile (s : Session) (origin text : String) : Except Failure Template × Session :=
  match Program.ofText s.options s.primitives s.store.nextObject origin text with
  | .ok p => (.ok p.template, { s with
      primitives := p.shadowed.foldl Primitives.erase s.primitives
      store := { s.store with nextObject := p.nextObject } })
  | .error f => (.error f, s)

def execute (s : Session) (t : Template) : Except Failure Value × Session :=
  s.run (s.machine.execute t)

def apply (s : Session) (callee : Value) (args : List Value) : Except Failure Value × Session :=
  s.run (s.machine.apply callee args)

/-- The value of the last form of a text. -/
def eval (s : Session) (text : String) : Except Failure Value × Session :=
  match s.compile evaluationOrigin text with
  | (.ok t, s) => s.execute t
  | (.error f, s) => (.error f, s)

def lookup (s : Session) (name : String) : Option Value := s.store.globals.find? name

def withGlobals (s : Session) (g : Globals) : Session :=
  { s with store := { s.store with globals := g } }

def define (s : Session) (name : String) (v : Value) : Session :=
  s.withGlobals (s.store.globals.set name v)

/-- Defines natives under their own names. -/
def register (s : Session) (natives : List Native) : Session :=
  natives.foldl (fun s n => s.define n.name (.native n)) s

end Session

end RegisterScheme
