import RegisterScheme.Machine.Run
import RegisterScheme.Proofs.Evaluation.World

/-! The meaning of resolved expressions, by direct evaluation: operands from left to right, each
before the next, and procedures by their bodies. A call ends in its value or in the failure of
the first step that fails. -/

namespace RegisterScheme

namespace Evaluating

/-- What an operator does with the values of all its operands. Sums and products start from the
left; a single operand is added to zero, multiplied with one, negated or inverted. Comparisons stop
at the first neighbours that do not compare. -/
def operate (op : Operator) (vs : List Value) : Evaluating Value := do
  let fold (op : Arithmetic) (x : Value) (xs : List Value) := ofExcept (xs.foldlM op.apply x)
  let compare (op : Comparison) (swap : Bool) (x : Value) (xs : List Value) : Evaluating Value :=
    return .boolean (← ofExcept (StandardNative.chain op swap x xs))
  match op, vs with
  | .add, [] => return .integer 0
  | .multiply, [] => return .integer 1
  | .add, [x] => fold .add (.integer 0) [x]
  | .multiply, [x] => fold .multiply (.integer 1) [x]
  | .subtract, [x] => ofExcept (Arithmetic.negate x)
  | .divide, [x] => fold .divide (.integer 1) [x]
  | .add, x :: xs => fold .add x xs
  | .multiply, x :: xs => fold .multiply x xs
  | .subtract, x :: xs => fold .subtract x xs
  | .divide, x :: xs => fold .divide x xs
  | .modulo, [x, y] => fold .modulo x [y]
  | .remainder, [x, y] => fold .remainder x [y]
  | .equalNumbers, x :: xs => compare .equalNumbers false x xs
  | .equivalent, x :: xs => compare .equivalent false x xs
  | .less, x :: xs => compare .less false x xs
  | .lessOrEqual, x :: xs => compare .lessOrEqual false x xs
  | .greater, x :: xs => compare .less true x xs
  | .greaterOrEqual, x :: xs => compare .lessOrEqual true x xs
  | .cons, [x, y] => allocating (Allocating.cons x y)
  | .car, [x] => return (← ofExcept x.toPair).1
  | .cdr, [x] => return (← ofExcept x.toPair).2
  | .isNull, [x] => return .boolean (x.eqv .nil)
  | .not, [x] => return .boolean !x.isTruthy
  | op, _ => fault (.noSuchOperand op.name)

section

variable (call : Value → List Value → Evaluating Value) (here : Nat) (scope : Scope)

mutual

/-- The value of an expression in an activation, given how procedures are called. Where it is not
wanted, constants and variables are passed over and no procedure is made of a lambda expression. -/
def evaluate (wanted : Bool) : Expr → Evaluating Value
  | .literal q _ => return if wanted then .ofQuotation q else .unspecified
  | .reference v _ => do if wanted then read (← place here scope v) else return .unspecified
  | .assignment v e _ => do
    let x ← evaluate true e
    write (← place here scope v) x
    return .unspecified
  | .branch test consequent alternative _ => do
    if (← evaluate true test).isTruthy then evaluate true consequent
    else alternativeValue alternative
  | .cond clauses otherwise _ => clausesValue (alternativeValue otherwise) clauses
  | .operation .and es _ => junction false es
  | .operation .or es _ => junction true es
  | .operation op es location => do
    let vs ← values es
    located location (operate op vs)
  | .call callee es location => do
    let f ← evaluate true callee
    let vs ← values es
    located location (call f vs)
  | .lambda f _ => do
    if wanted then return .closure (← newClosure f (some here)) else return .unspecified
  | .sequence items _ => sequence wanted items

def values : List Expr → Evaluating (List Value)
  | [] => return []
  | e :: es => do
    let v ← evaluate true e
    return v :: (← values es)

/-- Nil if there is no alternative. -/
def alternativeValue : Option Expr → Evaluating Value
  | some e => evaluate true e
  | none => return .nil

/-- The value of the first clause whose test holds, and of its test if it has no body. -/
def clausesValue (otherwise : Evaluating Value) : List (Clause Expr) → Evaluating Value
  | [] => otherwise
  | ⟨test, none⟩ :: cs => do
    let v ← evaluate true test
    if v.isTruthy then return v else clausesValue otherwise cs
  | ⟨test, some body⟩ :: cs => do
    let v ← evaluate true test
    if v.isTruthy then evaluate true body else clausesValue otherwise cs

/-- The first value of the given truth, or else the last. -/
def junction (stop : Bool) : List Expr → Evaluating Value
  | [] => return .boolean (!stop)
  | [e] => evaluate true e
  | e :: es => do
    let v ← evaluate true e
    if v.isTruthy == stop then return v else junction stop es

/-- Only the value of the last expression counts. -/
def sequence (wanted : Bool) : List Expr → Evaluating Value
  | [] => return .unspecified
  | [e] => evaluate wanted e
  | e :: es => do
    let _ ← evaluate false e
    sequence wanted es

end

theorem sequence_cons (wanted : Bool) (e e' : Expr) (es : List Expr) :
    sequence call here scope wanted (e :: e' :: es) =
      evaluate call here scope false e >>= fun _ =>
        sequence call here scope wanted (e' :: es) := by
  rw [sequence]
  simp

end

/-- Makes variables of the arguments in a new activation, then computes the defaults of those that
are missing in it, one after the other. -/
def bindArguments (run : Closure → Evaluating Value) (here : Nat) (f : Function)
    (args : List Value) : Evaluating Unit := do
  match Dealing.ofArguments f.formals args with
  | .error misfit =>
    throw (.arity f.parameters.arity args.length (some (f.displayName ++ misfit.text)) none)
  | .ok dealing =>
    for (r, v) in dealing.values do
      write (.register here r) v
    if let some (r, items) := dealing.rest then
      write (.register here r) (← allocating (Allocating.list items))
    for (r, default) in dealing.defaults do
      write (.register here r) (← run (← newClosure default (some here)))

end Evaluating

namespace Machine

open Evaluating

/-- Calls a procedure, given how closures are called. -/
def evaluateWith (m : Machine) (run : Closure → List Value → Evaluating Value) (callee : Value)
    (args : List Value) : Evaluating Value :=
  match callee with
  | .closure c => run c args
  | .native n => allocating (n.call m.host args)
  | v => throw (.runtime (.notProcedure v.shown))

/-- Evaluates the body of a closure while `remaining` more calls may be active. -/
def evaluateClosure (m : Machine) : (remaining : Nat) → Closure → List Value → Evaluating Value
  | 0, _, _ =>
    match m.callLimit with
    | some limit => throw (.runtime (.callDepth limit))
    | none => throw .unfinished
  | remaining + 1, c, args => do
    let f ← procedure c
    inProcedure f.displayName do
      let here ← enter c
      bindArguments (m.evaluateClosure remaining · []) here f args
      evaluate (m.evaluateWith (m.evaluateClosure remaining)) here f.scope true f.body

/-- Calls any procedure. -/
def evaluateCall (m : Machine) (callee : Value) (args : List Value) : Evaluating Value :=
  m.evaluateWith (m.evaluateClosure m.depth) callee args

/-- Evaluates a resolved program. -/
def evaluate (m : Machine) (f : Function) : Evaluating Value := do
  m.evaluateClosure m.depth (← newClosure f none) []

end Machine

end RegisterScheme
