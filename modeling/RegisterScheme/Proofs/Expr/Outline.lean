import RegisterScheme.Expr.Resolve

/-! What a program makes global, told from its forms alone. A walk over the program goes into every
form but procedures, in the order of its resolution, and keeps account of the names that have become
globals: from there on they are no primitives, so that what else is a special form depends on them. -/

namespace RegisterScheme

open Resolving

/-- What is known of a program up to some place outside its procedures. -/
structure Outline where
  primitives : Primitives
  /-- The names that have become globals. -/
  globals : List String
  /-- The names that definitions have made globals. -/
  defined : List String

/-- A walk over one expression. -/
abbrev Walk := Sexpr → Outline → Outline

namespace Outline

def start (primitives : Primitives) : Outline := ⟨primitives, [], []⟩

def primitive? (o : Outline) (name : String) : Option Primitive :=
  if name ∈ o.globals then none else o.primitives.find? name

def mention (name : String) (o : Outline) : Outline :=
  if name ∈ o.globals then o else { o with globals := o.globals ++ [name] }

def define (name : String) (o : Outline) : Outline :=
  { o.mention name with defined := o.defined ++ [name] }

def inOrder (walk : Walk) (forms : List Sexpr) (o : Outline) : Outline :=
  forms.foldl (fun o form => walk form o) o

/-- The level mark that heads a form of two items. -/
def mark? (o : Outline) : Sexpr → Option QuoteMark
  | .identifier name _ =>
    match o.primitive? name with
    | some (.form .quasiquote) => some .quasiquote
    | some (.form .unquote) => some .unquote
    | some (.form .unquoteSplicing) => some .unquoteSplicing
    | _ => none
  | _ => none

def spliced? (o : Outline) (level : Nat) : Sexpr → Option Sexpr
  | .list [head, arg] _ =>
    if level == 1 && o.mark? head == some .unquoteSplicing then some arg else none
  | _ => none

mutual

/-- The parts of a template that are evaluated. -/
def quasi (walk : Walk) : Sexpr → (level : Nat) → Outline → Outline
  | template, level, o =>
    if !hasUnquote o.mark? template level then o
    else
      match template with
      | .list [head, arg] _ =>
        match o.mark? head with
        | some mark =>
          if mark = .quasiquote then quasi walk arg (level + 1) o
          else if level = 1 then walk arg o
          else quasi walk arg (level - 1) o
        | none => quasiItems walk true id [head, arg] level o
      | .list items _ => quasiItems walk true id items level o
      | .dotted items tail _ => quasiItems walk false (quasi walk tail level) items level o
      | .vector items _ => (quasiItems walk true id items level o).mention "list->vector"
      | _ => o

/-- From the last item on, as the lists they make are built. -/
def quasiItems (walk : Walk) (dotted : Bool) (last : Outline → Outline) :
    List Sexpr → (level : Nat) → Outline → Outline
  | [], _, o => last o
  | item :: rest, level, o =>
    let isTail := dotted && level == 1 && o.mark? item == some .unquote
    match isTail, rest with
    | true, [e] => walk e o
    | _, _ =>
      let o := quasiItems walk dotted last rest level o
      match o.spliced? level item with
      | some e => (walk e o).mention "append"
      | none => quasi walk item level o

end

def clauses (walk : Walk) : List Sexpr → Outline → Outline
  | .list (.identifier "else" _ :: forms) _ :: _, o => inOrder walk forms o
  | .list forms _ :: rest, o => clauses walk rest (inOrder walk forms o)
  | _, o => o

/-- The value of a definition, unless it is a procedure written out. -/
def value (walk : Walk) (s : Sexpr) (o : Outline) : Outline :=
  match s with
  | .list (.identifier head _ :: _ :: _ :: _) _ =>
    if o.primitive? head = some (.form .lambda) then o else walk s o
  | s => walk s o

/-- A definition of a variable, or of a procedure under the name at the head of its parameters. -/
def definition (walk : Walk) (operands : List Sexpr) (o : Outline) : Outline :=
  match operands with
  | .identifier name _ :: form :: _ => value walk form (o.define name)
  | target :: _ => (definedName? target).elim o o.define
  | [] => o

def initialForm? : Sexpr → Option Sexpr
  | .list [_, init] _ => some init
  | _ => none

/-- The initial values in a list of bindings. -/
def initialForms : Sexpr → List Sexpr
  | .list items _ => items.filterMap initialForm?
  | _ => []

/-- A special form. The bodies of those that make procedures are none of the program's own. -/
def specialForm (walk : Walk) (form : SpecialForm) (operands : List Sexpr) (o : Outline) :
    Outline :=
  match form, operands with
  | .quasiquote, [template] => quasi walk template 1 o
  | .if, forms | .begin, forms | .when, forms | .unless, forms => inOrder walk forms o
  | .cond, forms => clauses walk forms o
  | .define, operands => definition walk operands o
  | .assign, [.identifier name _, value] => walk value (o.mention name)
  | .let, .identifier _ _ :: bindings :: _ => inOrder walk (initialForms bindings) o
  | .let, bindings :: _ => inOrder walk (initialForms bindings) o
  | .letStar, .list (item :: _) _ :: _ => inOrder walk (initialForm? item).toList o
  | _, _ => o

def compound (walk : Walk) (head : Sexpr) (operands : List Sexpr) (o : Outline) : Outline :=
  match head.identifier?.bind o.primitive? with
  | some (.form form) => specialForm walk form operands o
  | some (.operator _) => inOrder walk operands o
  | none => inOrder walk (head :: operands) o

def walkWith (walk : Walk) : Walk
  | .identifier name _, o => o.mention name
  | .list (head :: operands) _, o => compound walk head operands o
  | _, o => o

/-- The walk over an expression of at most a given height. -/
def walkWithin : Nat → Walk
  | 0 => fun _ o => o
  | height + 1 => walkWith (walkWithin height)

/-- The walk over a program. -/
def ofProgram (primitives : Primitives) (forms : List Sexpr) : Outline :=
  inOrder (walkWithin (Sexpr.heightOfItems forms)) forms (start primitives)

end Outline

end RegisterScheme
