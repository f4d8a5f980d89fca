import RegisterScheme.Native.Call

/-! Procedures of a host with typed parameters. Arguments are converted from left to right, and
those of a tail before the procedure runs. -/

namespace RegisterScheme

/-- What a parameter takes from an argument. -/
structure Parameter where
  Carrier : Type
  read : Value → Except Failure Carrier

namespace Parameter

def value : Parameter := ⟨Value, .ok⟩

def integer : Parameter := ⟨Int64, Value.toInteger⟩

def number : Parameter := ⟨Float, Value.toFloat⟩

def boolean : Parameter := ⟨Bool, Value.toBoolean⟩

def character : Parameter := ⟨Char, Value.toCharacter⟩

def pair : Parameter := ⟨Value × Value, Value.toPair⟩

def vector : Parameter := ⟨List Value, Value.toItems⟩

def text : Parameter := ⟨String, Value.toText⟩

end Parameter

/-- Parameters in order, perhaps with a tail of any length. -/
inductive Signature where
  | done
  | next (p : Parameter) (s : Signature)
  | tail (p : Parameter)

namespace Signature

/-- The procedures with a signature. -/
def Body : Signature → Type
  | done => Allocating Value
  | next p s => p.Carrier → s.Body
  | tail p => List p.Carrier → Allocating Value

def count : Signature → Nat
  | done | tail _ => 0
  | next _ s => s.count + 1

def arity (s : Signature) : Arity :=
  if hasTail s then .atLeast s.count else .exactly s.count
where
  hasTail : Signature → Bool
    | done => false
    | next _ s => hasTail s
    | tail _ => true

/-- The arguments one after the other; `expected` is for the case that they run out. -/
def feed (expected : Arity) (got : Nat) :
    (s : Signature) → s.Body → List Value → Allocating Value
  | done, body, _ => body
  | next p s, body, v :: vs => do feed expected got s (body (← p.read v)) vs
  | next _ _, _, [] => Allocating.fail (.arity expected got none none)
  | tail p, body, vs => do body (← vs.mapM fun v => liftM (p.read v))

/-- A procedure on plain values. It checks the number of arguments by itself. -/
def apply (s : Signature) (body : s.Body) (args : List Value) : Allocating Value :=
  if s.arity.accepts args.length then s.feed s.arity args.length body args
  else Allocating.fail (.arity s.arity args.length none none)

end Signature

structure HostProcedure where
  name : String
  arity : Arity
  body : List Value → Allocating Value

namespace HostProcedure

/-- The arity is that of the parameters. -/
def typed (name : String) (s : Signature) (body : s.Body) : HostProcedure :=
  ⟨name, s.arity, s.apply body⟩

/-- The arity is given, since a bound cannot be read off a tail. -/
def variadic (name : String) (arity : Arity) (s : Signature) (body : s.Body) : HostProcedure :=
  ⟨name, arity, s.apply body⟩

end HostProcedure

/-- A host that offers the given procedures, numbered from zero. -/
def Host.ofProcedures (procedures : List HostProcedure) : Host := fun number args =>
  match procedures[number]? with
  | some p => p.body args
  | none => Allocating.fail (.fault (.noSuchNative number))

/-- The natives of such a host, by name. -/
def hostNatives (procedures : List HostProcedure) : List Native :=
  procedures.mapIdx fun number p => .host number p.name p.arity

end RegisterScheme
