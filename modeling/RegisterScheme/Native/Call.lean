import RegisterScheme.Value.Arithmetic

/-! What native procedures do. They take values and make objects, but see neither the globals
nor the frames of the program that calls them. -/

namespace RegisterScheme

/-- A computation that numbers the objects it makes. -/
abbrev Allocating := StateT Nat (Except Failure)

namespace Allocating

def fail {α : Type} (f : Failure) : Allocating α := throw f

def raise {α : Type} (cause : RuntimeError.Cause) : Allocating α := throw (.runtime cause)

/-- The first of so many new identities. -/
def reserve (n : Nat) : Allocating Nat := do
  let first ← get
  set (first + n)
  return first

def cons (car cdr : Value) : Allocating Value := do
  return .pair (← reserve 1) car cdr

/-- Values as a new list in front of a tail. -/
def listWithTail (items : List Value) (tail : Value) : Allocating Value := do
  return .listFrom (← reserve items.length) tail items

def list (items : List Value) : Allocating Value := listWithTail items .nil

def vector (items : List Value) : Allocating Value := do
  return .vector (← reserve 1) items

end Allocating

namespace StandardNative

open Allocating

/-- An operation over values from left to right. -/
def fold (op : Arithmetic) (first : Value) (rest : List Value) : Allocating Value :=
  liftM (rest.foldlM op.apply first)

/-- Whether each value and the next compare as they should, up to the first that do not. The
operands change places if `swap`. -/
def chain (op : Comparison) (swap : Bool) (first : Value) : List Value → Except Failure Bool
  | [] => .ok true
  | v :: vs => do
    if ← (if swap then op.holds v first else op.holds first v) then chain op swap v vs
    else return false

def comparison (op : Comparison) (swap : Bool) (args : List Value) : Allocating Value := do
  match args with
  | [] => return .boolean true
  | first :: rest => return .boolean (← chain op swap first rest)

/-- The items of all lists but the last, in front of that. -/
def appendLists (args : List Value) : Allocating Value := do
  match args.getLast? with
  | none => return .nil
  | some last =>
    let items ← args.dropLast.mapM fun v => liftM v.toListItems
    listWithTail items.flatten last

def isWhole : Value → Bool
  | .atom (.integer _) => true
  | .atom (.float x) => ((Binary.ofFloat? x).map Binary.isInteger).getD false
  | _ => false

def vectorItem (v index : Value) : Allocating Value := do
  let items ← v.toItems
  let i ← index.toInteger
  let item? := if i < 0 then none else items[i.toInt.toNat]?
  match item? with
  | some item => return item
  | none => Allocating.raise (.indexOutOfRange i items.length)

/-- How `error` shows its arguments: strings without quotes. -/
def messagePart : Value → String
  | .atom (.string s) => s
  | v => v.text

def message (args : List Value) : String :=
  if args.isEmpty then "error" else " ".intercalate (args.map messagePart)

/-- What a standard procedure gives for arguments of the right number. -/
def run (n : StandardNative) (args : List Value) : Allocating Value := do
  match n, args with
  | .add, args => fold .add (.integer 0) args
  | .multiply, args => fold .multiply (.integer 1) args
  | .subtract, [x] => Arithmetic.negate x
  | .subtract, x :: xs => fold .subtract x xs
  | .divide, [x] => Arithmetic.divide.apply (.integer 1) x
  | .divide, x :: xs => fold .divide x xs
  | .modulo, [x, y] => Arithmetic.modulo.apply x y
  | .remainder, [x, y] => Arithmetic.remainder.apply x y
  | .equalNumbers, args => comparison .equalNumbers false args
  | .less, args => comparison .less false args
  | .greater, args => comparison .less true args
  | .lessOrEqual, args => comparison .lessOrEqual false args
  | .greaterOrEqual, args => comparison .lessOrEqual true args
  | .car, [v] => return (← v.toPair).1
  | .cdr, [v] => return (← v.toPair).2
  | .cons, [x, y] => Allocating.cons x y
  | .list, args => Allocating.list args
  | .append, args => appendLists args
  | .length, [v] => return .integer (Int64.ofNat (← v.toListItems).length)
  | .isNull, [v] => return .boolean v.isNil
  | .isPair, [v] => return .boolean (v matches .pair _ _ _)
  | .isList, [v] => return .boolean v.isList
  | .not, [v] => return .boolean (!v.isTruthy)
  | .isNumber, [v] => return .boolean v.isNumber
  | .isInteger, [v] => return .boolean (isWhole v)
  | .isSymbol, [v] => return .boolean (v matches .atom (.symbol _))
  | .isString, [v] => return .boolean (v matches .atom (.string _))
  | .isProcedure, [v] => return .boolean v.isProcedure
  | .isSame, [x, y] | .isEquivalent, [x, y] => return .boolean (x.eqv y)
  | .isEqual, [x, y] => return .boolean (x.equal y)
  | .vector, args => Allocating.vector args
  | .vectorRef, [v, i] => vectorItem v i
  | .vectorLength, [v] => return .integer (Int64.ofNat (← v.toItems).length)
  | .listToVector, [v] => do Allocating.vector (← v.toListItems)
  | .vectorToList, [v] => do Allocating.list (← v.toItems)
  | .raise, args => Allocating.raise (.raised (message args))
  | n, args => fail (.arity n.arity args.length none none)

end StandardNative

/-- What the procedures of a host do, by their numbers. -/
abbrev Host := Nat → List Value → Allocating Value

/-- The number of arguments is checked before anything else. -/
def Native.call (host : Host) (n : Native) (args : List Value) : Allocating Value :=
  if n.arity.accepts args.length then
    match n with
    | .standard n => n.run args
    | .host number _ _ => host number args
  else Allocating.fail (.arity n.arity args.length (some n.name) none)

end RegisterScheme
