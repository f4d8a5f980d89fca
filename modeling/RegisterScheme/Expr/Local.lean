import RegisterScheme.Expr.Procedure

/-! Local variables: the four ways to bind them, each as calls of procedures. -/

namespace RegisterScheme.Resolving

/-- A name with its initial value, if it has one. -/
structure LocalBinding where
  name : String
  init : Option Sexpr
  origin : Sexpr

def localBinding (item : Sexpr) : Resolving LocalBinding :=
  match item with
  | .identifier name _ => return ⟨name, none, item⟩
  | .list [name] _ => return ⟨← parameterName name, none, item⟩
  | .list [name, init] _ => return ⟨← parameterName name, some init, item⟩
  | item => invalid .bindingShape item

def localBindings (s : Sexpr) : Resolving (List LocalBinding) :=
  match s with
  | .list items _ => items.mapM localBinding
  | s => invalid .bindingsShape s

def initialValue (expand : Expand) (b : LocalBinding) : Resolving Expr :=
  match b.init with
  | some init => expand init
  | none => literal .nil b.origin

/-- The bound names as the parameters of a procedure. -/
def declareBindings (bindings : List LocalBinding) : Resolving (Parameters Function) := do
  for b in bindings do
    let _ ← defineArgument b.name .required b.origin.location
  return { Parameters.none with required := bindings.length }

/-- A call of a procedure with the bound names as parameters. -/
def bindAndCall (expand : Expand) (bindings : List LocalBinding) (location : Option Location)
    (build : Resolving Expr) : Resolving Expr := do
  let arguments ← bindings.mapM (initialValue expand)
  let f ← procedure none location (declareBindings bindings) build
  return .call (.lambda f location) arguments location

/-- The value of a definition, which gives its name to a procedure written out there. -/
def namedValue (expand : Expand) (name : String) (s : Sexpr) : Resolving Expr := do
  match s with
  | .list (.identifier head _ :: ps :: form :: forms) location =>
    if (← primitive? head) = some (.form .lambda) then
      let (items, tail) ← parameterItems ps
      return .lambda (← lambda expand (some name) items tail (form :: forms) location) location
    else expand s
  | s => expand s

/-- A loop: a procedure that can call itself by name, called with the initial values. -/
def namedLet (expand : Expand) (name : String) (nameForm : Sexpr) (bindings : List LocalBinding)
    (forms : List Sexpr) (location : Option Location) : Resolving Expr := do
  let arguments ← bindings.mapM (initialValue expand)
  let wrapper ← procedure none location (return .none) do
    let target ← definitionTarget name nameForm
    let loop ← procedure (some name) location (declareBindings bindings)
      (body expand forms location)
    return .sequence [.assignment target (.lambda loop location) location,
      .reference target nameForm.location] location
  return .call (.call (.lambda wrapper location) [] location) arguments location

/-- Bindings each of which sees those before it. -/
def letStar (expand : Expand) (forms : List Sexpr) (location : Option Location) :
    List LocalBinding → Resolving Expr
  | b :: b' :: bs => bindAndCall expand [b] location (letStar expand forms location (b' :: bs))
  | bindings => bindAndCall expand bindings location (body expand forms location)

/-- Bindings that see each other. -/
def letrec (expand : Expand) (bindings : List LocalBinding) (forms : List Sexpr)
    (location : Option Location) : Resolving Expr :=
  bindAndCall expand [] location do
    let targets ← bindings.mapM fun b => definitionTarget b.name b.origin
    let assignments ← (bindings.zip targets).mapM fun (b, target) => do
      let value ← match b.init with
        | some init => namedValue expand b.name init
        | none => literal .nil b.origin
      return Expr.assignment target value b.origin.location
    return .sequence (assignments ++ [← body expand forms location]) location

end RegisterScheme.Resolving
