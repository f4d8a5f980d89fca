import RegisterScheme.Arity

/-! The names that the language gives a meaning of its own: special forms, and operators with
instructions of their own. -/

namespace RegisterScheme

inductive SpecialForm where
  | quote
  | quasiquote
  | unquote
  | unquoteSplicing
  | if
  | cond
  | lambda
  | namedLambda
  | define
  | assign
  | begin
  | let
  | letStar
  | letrec
  | when
  | unless
deriving DecidableEq, Repr

inductive Operator where
  | add
  | subtract
  | multiply
  | divide
  | modulo
  | remainder
  | equalNumbers
  | less
  | greater
  | lessOrEqual
  | greaterOrEqual
  | equivalent
  | cons
  | car
  | cdr
  | isNull
  | not
  | and
  | or
deriving DecidableEq, Repr

inductive Primitive where
  | form (form : SpecialForm)
  | operator (op : Operator)
deriving DecidableEq, Repr

namespace SpecialForm

def all : List SpecialForm :=
  [quote, quasiquote, unquote, unquoteSplicing, .if, cond, lambda, namedLambda, define, assign,
    begin, .let, letStar, letrec, .when, .unless]

def name : SpecialForm → String
  | quote => "quote"
  | quasiquote => "quasiquote"
  | unquote => "unquote"
  | unquoteSplicing => "unquote-splicing"
  | .if => "if"
  | cond => "cond"
  | lambda => "lambda"
  | namedLambda => "named-lambda"
  | define => "define"
  | assign => "set!"
  | begin => "begin"
  | .let => "let"
  | letStar => "let*"
  | letrec => "letrec"
  | .when => "when"
  | .unless => "unless"

def listing : SpecialForm → String
  | quote => "Quote"
  | quasiquote => "Quasiquote"
  | unquote => "Unquote"
  | unquoteSplicing => "UnquoteSplicing"
  | .if => "If"
  | cond => "Cond"
  | lambda => "Lambda"
  | namedLambda => "NamedLambda"
  | define => "Define"
  | assign => "Set"
  | begin => "Begin"
  | .let => "Let"
  | letStar => "LetStar"
  | letrec => "Letrec"
  | .when => "When"
  | .unless => "Unless"

end SpecialForm

namespace Operator

def all : List Operator :=
  [and, or, not, add, subtract, multiply, divide, modulo, remainder, equalNumbers, less, greater,
    lessOrEqual, greaterOrEqual, equivalent, cons, car, cdr, isNull]

def name : Operator → String
  | add => "+"
  | subtract => "-"
  | multiply => "*"
  | divide => "/"
  | modulo => "modulo"
  | remainder => "remainder"
  | equalNumbers => "="
  | less => "<"
  | greater => ">"
  | lessOrEqual => "<="
  | greaterOrEqual => ">="
  | equivalent => "eq?"
  | cons => "cons"
  | car => "car"
  | cdr => "cdr"
  | isNull => "null?"
  | not => "not"
  | and => "and"
  | or => "or"

def listing : Operator → String
  | add => "Add"
  | subtract => "Sub"
  | multiply => "Mul"
  | divide => "Div"
  | modulo => "Modulo"
  | remainder => "Remainder"
  | equalNumbers => "NumEq"
  | less => "Lt"
  | greater => "Gt"
  | lessOrEqual => "Le"
  | greaterOrEqual => "Ge"
  | equivalent => "Eq"
  | cons => "Cons"
  | car => "Car"
  | cdr => "Cdr"
  | isNull => "NullP"
  | not => "Not"
  | and => "And"
  | or => "Or"

/-- How many operands a form with the operator at its head takes. -/
def arity : Operator → Arity
  | add | multiply | and | or => .any
  | subtract | divide => .atLeast 1
  | equalNumbers | less | greater | lessOrEqual | greaterOrEqual => .atLeast 2
  | modulo | remainder | equivalent | cons => .exactly 2
  | car | cdr | isNull | not => .exactly 1

/-- Whether a native procedure has the same name. The two operators that may leave operands
unevaluated have none. -/
def hasProcedure : Operator → Bool
  | and | or => false
  | _ => true

end Operator

def Primitive.listing : Primitive → String
  | form f => s!"Form({f.listing})"
  | operator op => s!"Operator({op.listing})"

/-- The names that denote primitives outside every scope. The first entry for a name counts. -/
structure Primitives where
  entries : List (String × Primitive)
deriving DecidableEq, Repr

namespace Primitives

def none : Primitives := ⟨[]⟩

def standard : Primitives :=
  ⟨SpecialForm.all.map (fun f => (f.name, .form f)) ++
    Operator.all.map fun op => (op.name, .operator op)⟩

def find? (p : Primitives) (name : String) : Option Primitive :=
  p.entries.lookup name

def erase (p : Primitives) (name : String) : Primitives :=
  ⟨p.entries.filter fun e => e.1 != name⟩

def insert (p : Primitives) (name : String) (primitive : Primitive) : Primitives :=
  ⟨(name, primitive) :: (p.erase name).entries⟩

end Primitives

end RegisterScheme
