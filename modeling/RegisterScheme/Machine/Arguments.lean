import RegisterScheme.Value.Basic

/-! How the arguments of a call are dealt out to parameters: by position first; what is left
makes the list of the rest, and pairs of keywords and values. -/

namespace RegisterScheme

/-- A parameter as callers see it, with what computes its default. -/
structure Formal (δ : Type) where
  name : String
  register : Register
  default : Option δ

/-- The parameters of a procedure in the order in which they take arguments. -/
structure Formals (δ : Type) where
  required : Nat
  positional : List (Formal δ)
  takesKeys : Bool
  keys : List (Formal δ)
  rest : Option Register

/-- Defaults are known by the literals that compute them. -/
def Template.formals (t : Template) : Formals Nat :=
  let formal : Variable × Register → Formal Nat := fun (v, r) => ⟨v.name, r, v.initializer⟩
  ⟨t.required, (t.parameters .required ++ t.parameters .optional).map formal, 0 < t.keys,
    (t.parameters .key).map formal, t.rest⟩

/-- The arguments in their registers, and the defaults still to be computed. -/
structure Dealing (δ : Type) where
  values : List (Register × Value)
  /-- What goes into the register of the rest, as a list. -/
  rest : Option (Register × List Value)
  /-- Registers with what computes their values, in order. -/
  defaults : List (Register × δ)

/-- Why arguments do not fit. -/
inductive Misfit where
  | count
  | unpaired
  | notKeyword (text : String)
  | unknownKeyword (keyword : String)
deriving DecidableEq, Repr

/-- What a message says after the name of the procedure. -/
def Misfit.text : Misfit → String
  | count => ""
  | unpaired => ": keyword arguments must come in pairs"
  | notKeyword text => s!": expected a keyword, got {text}"
  | unknownKeyword keyword => s!": unknown keyword :{keyword}"

namespace Dealing

variable {δ : Type}

/-- Parameters in order take arguments as long as there are some; later ones get their
defaults. The third part is what is left over. -/
def positional : List (Formal δ) → List Value →
    List (Register × Value) × List (Register × δ) × List Value
  | p :: ps, v :: vs =>
    let (values, defaults, extra) := positional ps vs
    ((p.register, v) :: values, defaults, extra)
  | p :: ps, [] =>
    let (values, defaults, extra) := positional ps []
    (values, (p.default.map fun d => (p.register, d)).toList ++ defaults, extra)
  | [], vs => ([], [], vs)

/-- The name of a keyword, without its colon. -/
def keyword? : Value → Option String
  | .atom (.symbol s) =>
    match s.toList with
    | ':' :: cs => some (String.ofList cs)
    | _ => none
  | _ => none

/-- The values of keywords by the registers of their parameters. -/
def keyed (keys : List (Formal δ)) :
    List Value → Except Misfit (List (Register × Value))
  | [] => .ok []
  | [_] => .error .unpaired
  | k :: v :: rest =>
    match keyword? k with
    | none => .error (.notKeyword k.text)
    | some name =>
      match keys.find? fun p => p.name == name with
      | none => .error (.unknownKeyword name)
      | some p => do return (p.register, v) :: (← keyed keys rest)

/-- Every key parameter has a mark for whether its value has been given. The number of the first
parameter past the last mark that a keyword names, if all keywords before it are names as well. -/
def unmarked? (keys : List (Formal δ)) (marks : Nat) : List Value → Option Nat
  | k :: _ :: rest =>
    match (keyword? k).bind fun name => keys.findIdx? fun p => p.name == name with
    | some index => if index < marks then unmarked? keys marks rest else some index
    | none => none
  | _ => none

/-- The first value given for a register counts. -/
def firstValues : List (Register × Value) → List (Register × Value)
  | [] => []
  | (r, v) :: rest => (r, v) :: (firstValues rest).filter fun p => p.1 != r

/-- The defaults of the keys without a value. -/
def missing (keys : List (Formal δ)) (given : List (Register × Value)) : List (Register × δ) :=
  keys.filterMap fun p =>
    if given.any fun g => g.1 == p.register then none else p.default.map fun d => (p.register, d)

/-- A call fits if every required parameter has an argument and nothing is left over that no
parameter takes. -/
def ofArguments (formals : Formals δ) (args : List Value) : Except Misfit (Dealing δ) := do
  if args.length < formals.required then throw .count
  let (values, defaults, extra) := positional formals.positional args
  let rest := formals.rest.map fun r => (r, extra)
  if formals.takesKeys then
    if extra.length % 2 ≠ 0 then throw .unpaired
    let given := firstValues (← keyed formals.keys extra)
    return ⟨values ++ given, rest, defaults ++ missing formals.keys given⟩
  else if formals.rest.isNone && !extra.isEmpty then throw .count
  else return ⟨values, rest, defaults⟩

end Dealing

/-- The first key parameter without a mark whose value is given to a template, which has as many
marks as it says that it has keys. -/
def Template.unmarked? (t : Template) (args : List Value) : Option Nat :=
  let extra := (Dealing.positional t.formals.positional args).2.2
  if t.required ≤ args.length ∧ 0 < t.keys ∧ extra.length % 2 = 0 then
    Dealing.unmarked? t.formals.keys t.keys extra
  else none

end RegisterScheme
