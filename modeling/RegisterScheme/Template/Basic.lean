import RegisterScheme.Datum
import RegisterScheme.Instruction.Basic

/-! Compiled procedures: instructions, a pool of literals, which holds the procedures nested in
them too, and descriptions of their variables. -/

namespace RegisterScheme

/-- A datum of the program. Its pairs and vectors are the objects from `first` on, so two
quotations never share one and each is the same objects whenever it is evaluated. -/
structure Quotation where
  first : Nat
  datum : Datum

inductive Literal (τ : Type) where
  | quotation (q : Quotation)
  | unspecified
  | template (t : τ)

structure Variable where
  name : String
  kind : VariableKind
  /-- The literal that computes the default of a parameter. -/
  initializer : Option Nat
deriving DecidableEq, Repr

/-- An instruction and the place it was made from. -/
structure Line where
  instruction : Instruction
  location : Option Location
deriving DecidableEq, Repr

structure Template where
  name : Option String
  code : List Line
  literals : List (Literal Template)
  slots : List Variable
  required : Nat
  optional : Nat
  keys : Nat
  /-- The register of the list of the other arguments. -/
  rest : Option Register
  frameSize : Nat
  /-- The first register that no argument or local has. -/
  tempBase : Nat

namespace Template

def displayName (t : Template) : String := t.name.getD "<anonymous>"

def arity (t : Template) : Arity :=
  if t.rest.isSome || 0 < t.keys then .atLeast t.required
  else if t.optional = 0 then .exactly t.required
  else .between t.required (t.required + t.optional)

/-- The parameters of a kind with their registers, in the order of their declaration. -/
def parameters (t : Template) (kind : ParameterKind) : List (Variable × Register) :=
  t.slots.filterMap fun v =>
    match v.kind with
    | .argument r k => if k = kind then some (v, r) else none
    | _ => none

/-- A procedure or template with its name, if it has one. -/
def angled (word : String) (name : Option String) : String :=
  match name with
  | some name => s!"#<{word} {name}>"
  | none => s!"#<{word}>"

end Template

namespace Literal

def text : Literal Template → String
  | quotation q => q.datum.text
  | unspecified => "#<unspecified>"
  | template t => Template.angled "template" t.name

def listing : Literal Template → String
  | quotation q => q.datum.listing
  | unspecified => "Unspecified"
  | template t => Template.angled "template" t.name

end Literal

/-- The template at an index of the pool. -/
def Template.nested (t : Template) (index : Nat) : Except Fault Template :=
  match t.literals[index]? with
  | some (.template nested) => .ok nested
  | some literal => .error (.notTemplate index t.displayName s!"Some({literal.listing})")
  | none => .error (.notTemplate index t.displayName "None")

end RegisterScheme
