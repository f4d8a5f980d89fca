import RegisterScheme.Scope.Basic
import RegisterScheme.Template.Basic

/-! Expressions after resolution: a variable is a register of the frame or a slot of the scope,
and every derived form is spelled out in the forms below. -/

namespace RegisterScheme

/-- A variable seen from the procedure that mentions it. -/
inductive VariableRef where
  | localVariable (register : Register)
  | global (slot : Nat)
  | captured (slot : Nat)
deriving DecidableEq, Repr

/-- A clause of a conditional. Without a body its value is that of the test. -/
structure Clause (ε : Type) where
  test : ε
  body : Option ε

/-- An optional or keyword parameter; the default is a procedure without parameters, closed
over the frame of the procedure it belongs to. -/
structure OptionalParameter (φ : Type) where
  name : String
  slot : Nat
  register : Register
  default : Option φ

structure Parameters (φ : Type) where
  required : Nat
  optional : List (OptionalParameter φ)
  rest : Option Register
  keys : List (OptionalParameter φ)

namespace Parameters

def none {φ : Type} : Parameters φ := ⟨0, [], .none, []⟩

def arity {φ : Type} (p : Parameters φ) : Arity :=
  if p.rest.isSome || !p.keys.isEmpty then .atLeast p.required
  else if p.optional.isEmpty then .exactly p.required
  else .between p.required (p.required + p.optional.length)

end Parameters

mutual

inductive Expr where
  | literal (q : Quotation) (location : Option Location)
  | reference (target : VariableRef) (location : Option Location)
  /-- Assignment and definition. Writing a global makes it if there is none. -/
  | assignment (target : VariableRef) (value : Expr) (location : Option Location)
  | branch (test consequent : Expr) (alternative : Option Expr) (location : Option Location)
  | cond (clauses : List (Clause Expr)) (otherwise : Option Expr) (location : Option Location)
  | operation (op : Operator) (operands : List Expr) (location : Option Location)
  | call (callee : Expr) (arguments : List Expr) (location : Option Location)
  | lambda (f : Function) (location : Option Location)
  /-- Evaluated in order for effect, the last for its value. -/
  | sequence (items : List Expr) (location : Option Location)

/-- A procedure with its finished scope. -/
structure Function where
  name : Option String
  parameters : Parameters Function
  scope : Scope
  body : Expr
  location : Option Location

end

namespace Expr

def location : Expr → Option Location
  | literal _ l | reference _ l | assignment _ _ l | branch _ _ _ l | cond _ _ l
  | operation _ _ l | call _ _ l | lambda _ l | sequence _ l => l

/-- Literals and variables: nothing happens when they are evaluated. -/
def isSimple : Expr → Bool
  | literal _ _ | reference _ _ => true
  | _ => false

mutual

/-- Whether the value of the expression is that of an assignment. -/
def endsInAssignment : Expr → Bool
  | assignment _ _ _ => true
  | sequence items _ => lastEndsInAssignment items
  | _ => false

def lastEndsInAssignment : List Expr → Bool
  | [] => false
  | [e] => e.endsInAssignment
  | _ :: es => lastEndsInAssignment es

end

end Expr

mutual

/-- How deep parts lie in an expression; one without parts has height one. -/
def Expr.height : Expr → Nat
  | .literal _ _ | .reference _ _ => 1
  | .assignment _ value _ => value.height + 1
  | .branch test consequent alternative _ =>
    max test.height (max consequent.height (Expr.heightOfOption alternative)) + 1
  | .cond clauses otherwise _ =>
    max (Expr.heightOfClauses clauses) (Expr.heightOfOption otherwise) + 1
  | .operation _ operands _ => Expr.heightOfList operands + 1
  | .call callee arguments _ => max callee.height (Expr.heightOfList arguments) + 1
  | .lambda f _ => f.height + 1
  | .sequence items _ => Expr.heightOfList items + 1

def Expr.heightOfList : List Expr → Nat
  | [] => 0
  | e :: es => max e.height (Expr.heightOfList es)

def Expr.heightOfOption : Option Expr → Nat
  | none => 0
  | some e => e.height

def Expr.heightOfClauses : List (Clause Expr) → Nat
  | [] => 0
  | ⟨test, body⟩ :: cs =>
    max (max test.height (Expr.heightOfOption body)) (Expr.heightOfClauses cs)

def Function.height : Function → Nat
  | ⟨_, ⟨_, optional, _, keys⟩, _, body, _⟩ =>
    max (Function.heightOfDefaults optional) (max (Function.heightOfDefaults keys) body.height) + 1

def Function.heightOfDefaults : List (OptionalParameter Function) → Nat
  | [] => 0
  | ⟨_, _, _, none⟩ :: ps => Function.heightOfDefaults ps
  | ⟨_, _, _, some f⟩ :: ps => max f.height (Function.heightOfDefaults ps)

end

end RegisterScheme
