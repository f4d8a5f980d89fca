import RegisterScheme.Expr.Basic
import RegisterScheme.Scope.Chain
import RegisterScheme.Sexpr.Basic

/-! Names in expressions: what a reference means, what a definition defines, and how a procedure
gets a scope of its own. -/

namespace RegisterScheme

namespace Resolving

/-- Errors of a computation get a place if they have none. -/
def located {α : Type} (place : Option Location) (act : Resolving α) : Resolving α :=
  tryCatch act fun f => throw (f.located place)

/-- A form that is not as it should be. -/
def invalid {α : Type} (cause : Malformed.Cause) (s : Sexpr) : Resolving α :=
  throw (.malformed cause (some s.text) s.location)

def checkArity (name : String) (arity : Arity) (operands : List Sexpr) (s : Sexpr) :
    Resolving Unit :=
  if arity.accepts operands.length then pure ()
  else throw (.arity arity operands.length (some name) s.location)

/-- A computation in a new scope, which is finished even if the computation fails. -/
def inScope {α : Type} (act : Resolving α) : Resolving (α × Scope) := do
  push
  let a ← tryCatch act fun f => do
    let _ ← pop
    throw f
  let s ← pop
  return (a, s)

/-- A quotation of a datum, with new objects. -/
def quote (d : Datum) : Resolving Quotation := do
  let c ← get
  set { c with nextObject := c.nextObject + d.objects }
  return ⟨c.nextObject, d⟩

def literal (d : Datum) (s : Sexpr) : Resolving Expr :=
  return .literal (← quote d) s.location

/-- A global by its name, at the place of an expression. -/
def global (name : String) (s : Sexpr) : Resolving VariableRef :=
  return .global (← located s.location (bindGlobal name))

/-- The variable that a name refers to. An operator as a value is the procedure that the global
of the same name holds. -/
def variableRef (name : String) (s : Sexpr) : Resolving VariableRef := do
  match ← located s.location (resolve name) with
  | .localVariable r _ => return .localVariable r
  | .global slot => return .global slot
  | .captured slot => return .captured slot
  | .primitive (.operator op) =>
    if op.hasProcedure then global name s else invalid (.specialFormAsValue name) s
  | .primitive (.form _) => invalid (.specialFormAsValue name) s

/-- The variable that a definition writes: a global of the program, or else a local. A
definition of the program takes a primitive its meaning. -/
def definitionTarget (name : String) (s : Sexpr) : Resolving VariableRef := do
  let c ← get
  if c.isTopLevel then
    let target ← global name s
    if (c.primitives.find? name).isSome then shadowPrimitive name
    return target
  else
    match (← current).find? name with
    | some (_, ⟨_, .variable (.localVariable r)⟩) => return .localVariable r
    | some (_, ⟨_, .variable (.argument _ _)⟩) => invalid (.alreadyParameter name) s
    | some _ => invalid (.definedAfterUse name) s
    | none =>
      let (_, r) ← defineLocal name s.location
      return .localVariable r

end Resolving

end RegisterScheme
