import RegisterScheme.Expr.Variables

/-! Procedures: their parameter lists and their bodies. Everything here is relative to the
resolution `expand` of the expressions inside. -/

namespace RegisterScheme.Resolving

/-- The resolution of an expression in the innermost scope. -/
abbrev Expand := Sexpr → Resolving Expr

/-- Expressions in order; a single one stands for itself. -/
def sequence (expand : Expand) (forms : List Sexpr) (location : Option Location) :
    Resolving Expr :=
  match forms with
  | [form] => expand form
  | forms => return .sequence (← forms.mapM expand) location

/-- The name that a definition introduces, alone or in front of parameters. -/
def definedName? : Sexpr → Option String
  | .identifier name _ => some name
  | .list (head :: _) _ | .dotted (head :: _) _ _ => head.identifier?
  | _ => none

mutual

/-- Makes locals of the names that the forms of a body define, also inside `begin`. -/
def declareDefinitions : List Sexpr → Resolving Unit
  | [] => return
  | form :: forms => do
    declareDefinition form
    declareDefinitions forms

def declareDefinition : Sexpr → Resolving Unit
  | .list (.identifier head _ :: operands) location => do
    match ← primitive? head with
    | some (.form .define) =>
      match operands.head?.bind definedName? with
      | some name => let _ ← defineLocal name location
      | none => return
    | some (.form .begin) => declareDefinitions operands
    | _ => return
  | _ => return

end

/-- The body of a procedure: its own definitions are locals from its start. -/
def body (expand : Expand) (forms : List Sexpr) (location : Option Location) :
    Resolving Expr := do
  declareDefinitions forms
  sequence expand forms location

def parameterName (s : Sexpr) : Resolving String :=
  match s with
  | .identifier name _ => return name
  | s => invalid .parameterName s

/-- The items of a parameter list, and what stands behind its dot. -/
def parameterItems (s : Sexpr) : Resolving (List Sexpr × Option Sexpr) :=
  match s with
  | .identifier _ _ => return ([], some s)
  | .list items _ => return (items, none)
  | .dotted items tail _ => return (items, some tail)
  | s => invalid .parameterList s

/-- A procedure in a scope of its own, whose parameters are declared before its body. -/
def procedure (name : Option String) (location : Option Location)
    (declare : Resolving (Parameters Function)) (build : Resolving Expr) :
    Resolving Function := do
  let ((parameters, body), scope) ← inScope do
    let parameters ← declare
    let body ← build
    return (parameters, body)
  return ⟨name, parameters, scope, body, location⟩

/-- A default value: a procedure without parameters. -/
def defaultValue (expand : Expand) (form item : Sexpr) : Resolving Function :=
  procedure none item.location (return .none) (body expand [form] item.location)

/-- The part of a parameter list after a marker. -/
inductive Section where
  | required
  | optional
  | rest
  | keys
deriving DecidableEq, Repr

/-- The section that a marker begins, if it may stand in the current one. -/
def Section.next? (marker : String) (s : Section) : Option Section :=
  match marker, s with
  | "&optional", .required => some .optional
  | "&rest", .required | "&rest", .optional => some .rest
  | "&key", .required | "&key", .optional | "&key", .rest => some .keys
  | _, _ => none

def isMarker (name : String) : Bool :=
  name == "&optional" || name == "&rest" || name == "&key"

/-- A name, or a name and a default, which sees only the parameters before it. -/
def optionalParameter (expand : Expand) (kind : ParameterKind) (item : Sexpr) :
    Resolving (OptionalParameter Function) := do
  let (name, default) ← match item with
    | .identifier name _ => pure (name, none)
    | .list [name, form] _ =>
      let name ← parameterName name
      pure (name, some (← defaultValue expand form item))
    | .list parts location =>
      throw (.arity (.exactly 2) parts.length (some "optional parameter") location)
    | item => invalid .optionalParameter item
  let (slot, register) ← defineArgument name kind item.location
  return ⟨name, slot, register, default⟩

def restParameter (item : Sexpr) : Resolving Register := do
  let name ← parameterName item
  let (_, register) ← defineArgument name .rest item.location
  return register

/-- A parameter of the current section. -/
def parameter (expand : Expand) (s : Section) (p : Parameters Function) (item : Sexpr) :
    Resolving (Parameters Function) := do
  match s with
  | .required =>
    let name ← parameterName item
    let _ ← defineArgument name .required item.location
    return { p with required := p.required + 1 }
  | .optional =>
    return { p with optional := p.optional ++ [← optionalParameter expand .optional item] }
  | .rest =>
    if p.rest.isSome then invalid .manyRestParameters item
    else return { p with rest := some (← restParameter item) }
  | .keys => return { p with keys := p.keys ++ [← optionalParameter expand .key item] }

/-- An item of a parameter list: a marker or a parameter. -/
def parameterItem (expand : Expand) (s : Section) (p : Parameters Function) (item : Sexpr) :
    Resolving (Section × Parameters Function) := do
  match item.identifier?.filter isMarker with
  | some marker =>
    match s.next? marker with
    | none => invalid (.misplacedMarker marker) item
    | some next =>
      if s = .rest && p.rest.isNone then invalid .restWithoutName item else return (next, p)
  | none => return (s, ← parameter expand s p item)

/-- The parameters of a list of items and a name for the other arguments behind a dot. -/
def parameters (expand : Expand) (items : List Sexpr) (tail : Option Sexpr) :
    Resolving (Parameters Function) := do
  let (s, p) ← items.foldlM (fun (s, p) item => parameterItem expand s p item)
    (Section.required, Parameters.none)
  if s = .rest && p.rest.isNone then
    match items.getLast? with
    | some last => invalid .restWithoutName last
    | none => throw (.malformed .restWithoutName none none)
  else
    match tail with
    | none => return p
    | some tail =>
      if p.rest.isSome || s = .keys then invalid .dottedAfterMarker tail
      else return { p with rest := some (← restParameter tail) }

/-- A procedure with a parameter list and a body. -/
def lambda (expand : Expand) (name : Option String) (items : List Sexpr) (tail : Option Sexpr)
    (forms : List Sexpr) (location : Option Location) : Resolving Function :=
  procedure name location (parameters expand items tail) (body expand forms location)

end RegisterScheme.Resolving
