import RegisterScheme.Scope.Basic

/-! The scopes around a place of the program, innermost first, and what a name means there.

A name bound in the innermost scope means that binding. A variable of a scope further out is
captured by every scope between. A global of a scope further out becomes one here too. Any other
name is a primitive or else a new global. -/

namespace RegisterScheme

structure ScopeChain where
  primitives : Primitives
  /-- Innermost first. -/
  scopes : List Scope
  /-- The identity of the next quoted object. -/
  nextObject : Nat
deriving Repr

/-- What a name means. -/
inductive Resolution where
  | primitive (primitive : Primitive)
  | localVariable (register : Register) (slot : Nat)
  | global (slot : Nat)
  | captured (slot : Nat)
deriving DecidableEq, Repr

/-- A computation over the chain, which keeps its changes when it fails. -/
abbrev Resolving := EStateM Failure ScopeChain

/-- The greatest distance of a captured variable. -/
def maxDistance : Nat := 255

namespace ScopeChain

def start (primitives : Primitives) (nextObject : Nat) : ScopeChain :=
  ⟨primitives, [], nextObject⟩

def depth (c : ScopeChain) : Nat := c.scopes.length

/-- Whether the innermost scope is that of the whole program. -/
def isTopLevel (c : ScopeChain) : Bool := c.depth == 1

/-- The nearest scope that binds a name, as its distance, with the slot and the binding. -/
def findIn (name : String) : List Scope → Option (Nat × Nat × Binding)
  | [] => none
  | s :: outer =>
    match s.find? name with
    | some (slot, b) => some (0, slot, b)
    | none => (findIn name outer).map fun (distance, found) => (distance + 1, found)

/-- The primitive that a name denotes, if no scope binds it otherwise. -/
def primitive? (c : ScopeChain) (name : String) : Option Primitive :=
  match findIn name c.scopes with
  | some (_, _, ⟨_, .primitive p⟩) => some p
  | some _ => none
  | none => c.primitives.find? name

/-- Records a variable as captured in the `n` innermost scopes, the outermost of them first.
It lies in a register of the frame `owner` scopes further out than the innermost. The answer
is the slot in the innermost scope; scopes done before a failure keep the capture. -/
def capture (name : String) (register : Register) :
    (n owner : Nat) → List Scope → Except Error Nat × List Scope
  | n + 1, owner, s :: outer =>
    match capture name register n (owner - 1) outer with
    | (.error e, outer) => (.error e, s :: outer)
    | (.ok _, outer) =>
      if maxDistance < owner then (.error (.overrun (.captureDistance name)), s :: outer)
      else
        match s.define name (.variable (.captured owner register)) none with
        | .error e => (.error e, s :: outer)
        | .ok (slot, s) => (.ok slot, s :: outer)
  | _, _, scopes => (.ok 0, scopes)

end ScopeChain

namespace Resolving

open ScopeChain

def fault {α : Type} (f : Fault) : Resolving α := throw (.fault f)

def push : Resolving Unit :=
  modify fun c => { c with scopes := .empty :: c.scopes }

/-- Finishes the innermost scope. -/
def pop : Resolving Scope := do
  let c ← get
  match c.scopes with
  | s :: outer =>
    set { c with scopes := outer }
    return s
  | [] => fault .chainUnderflow

def current : Resolving Scope := do
  match (← get).scopes with
  | s :: _ => return s
  | [] => fault .emptyChain

/-- Changes the innermost scope, unless the change fails. -/
def update {α : Type} (f : Scope → Except Error (α × Scope)) : Resolving α := do
  let c ← get
  match c.scopes with
  | [] => fault .emptyChain
  | s :: outer =>
    match f s with
    | .ok (a, s) =>
      set { c with scopes := s :: outer }
      return a
    | .error e => throw (.error e)

def primitive? (name : String) : Resolving (Option Primitive) :=
  return (← get).primitive? name

def defineArgument (name : String) (parameter : ParameterKind) (location : Option Location) :
    Resolving (Nat × Register) :=
  update (·.defineArgument name parameter location)

def defineLocal (name : String) (location : Option Location) : Resolving (Nat × Register) :=
  update (·.defineLocal name location)

def allocateRegister : Resolving Register := update Scope.allocate

def shadowPrimitive (name : String) : Resolving Unit :=
  update fun s => .ok ((), s.shadow name)

/-- The slot of a global in the innermost scope, bound there if it was not. -/
def bindGlobal (name : String) : Resolving Nat := do
  let s ← current
  match s.find? name with
  | some (slot, ⟨_, .variable .global⟩) => return slot
  | some _ => throw (.malformed (.alreadyBoundLocally name) none none)
  | none => update (·.define name (.variable .global) none)

/-- The slot of a variable of a scope further out, captured by the scopes between. -/
def captureFrom (name : String) (distance owner : Nat) (register : Register) :
    Resolving Resolution := do
  let c ← get
  let (slot, scopes) := capture name register distance owner c.scopes
  set { c with scopes := scopes }
  match slot with
  | .ok slot => return .captured slot
  | .error e => throw (.error e)

/-- What a name means in the innermost scope, with the globals and captures that this takes. -/
def resolve (name : String) : Resolving Resolution := do
  let c ← get
  match findIn name c.scopes with
  | none =>
    if c.scopes.isEmpty then fault .noScope
    else
      match c.primitives.find? name with
      | some p => return .primitive p
      | none => return .global (← bindGlobal name)
  | some (distance, slot, b) =>
    match b.kind, distance with
    | .primitive p, _ => return .primitive p
    | .variable .global, 0 => return .global slot
    | .variable .global, _ => return .global (← bindGlobal name)
    | .variable (.argument r _), 0 | .variable (.localVariable r), 0 =>
      return .localVariable r slot
    | .variable (.captured _ _), 0 => return .captured slot
    | .variable (.argument r _), _ | .variable (.localVariable r), _ =>
      captureFrom name distance distance r
    | .variable (.captured further r), _ =>
      if c.depth ≤ distance + further then fault (.capturePastOutermost name)
      else captureFrom name distance (distance + further) r

end Resolving

end RegisterScheme
