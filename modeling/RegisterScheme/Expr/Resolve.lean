import RegisterScheme.Expr.Local
import RegisterScheme.Expr.Quasi

/-! The resolution of expressions: what each special form stands for, and the programs that
expressions make. -/

namespace RegisterScheme

namespace Resolving

def clauses (expand : Expand) : List Sexpr → Resolving (List (Clause Expr) × Option Expr)
  | [] => return ([], none)
  | clause :: rest => do
    match clause with
    | .list (.identifier "else" _ :: forms) location =>
      if !rest.isEmpty then invalid .elseNotLast clause
      else if forms.isEmpty then invalid .elseWithoutBody clause
      else return ([], some (← sequence expand forms location))
    | .list (test :: forms) location =>
      let test ← expand test
      let body ← if forms.isEmpty then pure none
        else some <$> sequence expand forms location
      let (more, otherwise) ← clauses expand rest
      return (⟨test, body⟩ :: more, otherwise)
    | clause => invalid .clauseShape clause

def define (expand : Expand) (operands : List Sexpr) (s : Sexpr) : Resolving Expr := do
  let name := SpecialForm.define.name
  let location := s.location
  match operands with
  | [] => throw (.arity (.atLeast 1) 0 (some name) location)
  | target :: forms =>
    match target with
    | .identifier variableName _ =>
      checkArity name (.between 1 2) operands s
      let variableRef ← definitionTarget variableName target
      let value ← match forms with
        | form :: _ => namedValue expand variableName form
        | [] => literal .nil s
      return .assignment variableRef value location
    | .list (head :: items) _ => header name head items none forms
    | .dotted (head :: items) tail _ => header name head items (some tail) forms
    | target => invalid .definitionTarget target
where
  /-- A procedure under the name at the head of its parameters. -/
  header (name : String) (head : Sexpr) (items : List Sexpr) (tail : Option Sexpr)
      (forms : List Sexpr) : Resolving Expr := do
    checkArity name (.atLeast 2) operands s
    let procedureName ← parameterName head
    let target ← definitionTarget procedureName head
    let f ← lambda expand (some procedureName) items tail forms s.location
    return .assignment target (.lambda f s.location) s.location

def assign (expand : Expand) (target value s : Sexpr) : Resolving Expr := do
  match target with
  | .identifier name _ =>
    if let some (.form _) ← primitive? name then invalid (.assignedSpecialForm name) s
    else
      let variableRef ← variableRef name target
      return .assignment variableRef (← expand value) s.location
  | target => invalid .assignmentTarget target

/-- The name at the head of the parameters is only for display. -/
def namedLambda (expand : Expand) (ps : Sexpr) (forms : List Sexpr)
    (location : Option Location) : Resolving Expr := do
  match ← parameterItems ps with
  | ([], _) => invalid .namelessProcedure ps
  | (head :: items, tail) =>
    let name ← parameterName head
    return .lambda (← lambda expand (some name) items tail forms location) location

def letForm (expand : Expand) (first : Sexpr) (rest operands : List Sexpr) (s : Sexpr) :
    Resolving Expr := do
  match first.identifier? with
  | none => bindAndCall expand (← localBindings first) s.location (body expand rest s.location)
  | some name =>
    checkArity "named let" (.atLeast 3) operands s
    match rest with
    | bindings :: forms =>
      namedLet expand name first (← localBindings bindings) forms s.location
    | [] => throw (.arity (.atLeast 3) operands.length (some "named let") s.location)

def conditional (expand : Expand) (negated : Bool) (test : Sexpr) (forms : List Sexpr)
    (location : Option Location) : Resolving Expr := do
  let test ← expand test
  let test := if negated then .operation .not [test] location else test
  let consequent ← sequence expand forms location
  return .branch test consequent none location

/-- How many operands a special form takes. The missing ones are checked form by form. -/
def formArity : SpecialForm → Arity
  | .quote | .quasiquote => .exactly 1
  | .if => .between 2 3
  | .lambda | .namedLambda | .let | .letStar | .letrec | .when | .unless => .atLeast 2
  | .assign => .exactly 2
  | .define | .cond | .begin | .unquote | .unquoteSplicing => .any

/-- A special form, under the name that it has at its head. -/
def specialForm (expand : Expand) (form : SpecialForm) (name : String) (operands : List Sexpr)
    (s : Sexpr) : Resolving Expr := do
  let location := s.location
  checkArity name (formArity form) operands s
  match form, operands with
  | .quote, [datum] => literal datum.toDatum s
  | .quasiquote, [template] => quasi expand template 1
  | .unquote, _ | .unquoteSplicing, _ => invalid (.outsideQuasiquote name) s
  | .if, test :: consequent :: alternative =>
    let test ← expand test
    let consequent ← expand consequent
    let alternative ← alternative.head?.mapM expand
    return .branch test consequent alternative location
  | .cond, operands =>
    let (clauses, otherwise) ← clauses expand operands
    return .cond clauses otherwise location
  | .lambda, ps :: forms =>
    let (items, tail) ← parameterItems ps
    return .lambda (← lambda expand none items tail forms location) location
  | .namedLambda, ps :: forms => namedLambda expand ps forms location
  | .define, operands => define expand operands s
  | .assign, [target, value] => assign expand target value s
  | .begin, forms => return .sequence (← forms.mapM expand) location
  | .let, first :: rest => letForm expand first rest operands s
  | .letStar, bindings :: forms => do
    letStar expand forms location (← localBindings bindings)
  | .letrec, bindings :: forms => do
    letrec expand (← localBindings bindings) forms location
  | .when, test :: forms => conditional expand false test forms location
  | .unless, test :: forms => conditional expand true test forms location
  | form, operands => throw (.arity (formArity form) operands.length (some name) location)

/-- A compound expression: a special form, an operation, or a call. -/
def compound (expand : Expand) (head : Sexpr) (operands : List Sexpr) (s : Sexpr) :
    Resolving Expr := do
  let primitive ← match head.identifier? with
    | some name => (·.map fun p => (name, p)) <$> primitive? name
    | none => pure none
  match primitive with
  | some (name, .form form) => specialForm expand form name operands s
  | some (_, .operator op) =>
    checkArity op.name op.arity operands s
    return .operation op (← operands.mapM expand) s.location
  | none =>
    let callee ← expand head
    return .call callee (← operands.mapM expand) s.location

/-- One expression, given the resolution of those inside it. -/
def expandWith (expand : Expand) (s : Sexpr) : Resolving Expr :=
  match s with
  | .literal a _ => literal (.atom a) s
  | .vector _ _ => literal s.toDatum s
  | .identifier name location => return .reference (← variableRef name s) location
  | .list [] _ => literal .nil s
  | .list (head :: operands) _ => compound expand head operands s
  | .dotted _ _ _ => invalid .improperExpression s

/-- The resolution of expressions of at most a given height. -/
def expandWithin : Nat → Sexpr → Resolving Expr
  | 0, _ => fault .nesting
  | height + 1, s => expandWith (expandWithin height) s

/-- The resolution of an expression in the innermost scope. -/
def expand (s : Sexpr) : Resolving Expr := expandWithin s.height s

/-- The forms of a program as the body of a procedure without parameters, whose definitions
make globals. -/
def program (forms : List Sexpr) : Resolving Function := do
  let location := forms.head?.bind Sexpr.location
  let (body, scope) ← inScope
    (sequence (expandWithin (Sexpr.heightOfItems forms)) forms location)
  return ⟨none, .none, scope, body, location⟩

end Resolving

/-- A resolved program, and the identity of the next quoted object after it. -/
def Function.ofProgram (primitives : Primitives) (nextObject : Nat) (forms : List Sexpr) :
    Except Failure (Function × Nat) :=
  match Resolving.program forms (.start primitives nextObject) with
  | .ok f c => .ok (f, c.nextObject)
  | .error e _ => .error e

end RegisterScheme
