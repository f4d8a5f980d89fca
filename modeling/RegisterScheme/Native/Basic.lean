import RegisterScheme.Arity

/-! Native procedures by their names: the standard ones, and those of a host. What they do is
said where they are called. -/

namespace RegisterScheme

inductive StandardNative where
  | add
  | multiply
  | subtract
  | divide
  | equalNumbers
  | less
  | greater
  | lessOrEqual
  | greaterOrEqual
  | modulo
  | remainder
  | car
  | cdr
  | cons
  | list
  | append
  | length
  | isNull
  | isPair
  | isList
  | not
  | isNumber
  | isInteger
  | isSymbol
  | isString
  | isProcedure
  | isSame
  | isEquivalent
  | isEqual
  | vector
  | vectorRef
  | vectorLength
  | listToVector
  | vectorToList
  | raise
deriving DecidableEq, Repr

namespace StandardNative

def all : List StandardNative :=
  [add, multiply, subtract, divide, equalNumbers, less, greater, lessOrEqual, greaterOrEqual,
    modulo, remainder, car, cdr, cons, list, append, length, isNull, isPair, isList, not, isNumber,
    isInteger, isSymbol, isString, isProcedure, isSame, isEquivalent, isEqual, vector, vectorRef,
    vectorLength, listToVector, vectorToList, raise]

def name : StandardNative → String
  | add => "+"
  | multiply => "*"
  | subtract => "-"
  | divide => "/"
  | equalNumbers => "="
  | less => "<"
  | greater => ">"
  | lessOrEqual => "<="
  | greaterOrEqual => ">="
  | modulo => "modulo"
  | remainder => "remainder"
  | car => "car"
  | cdr => "cdr"
  | cons => "cons"
  | list => "list"
  | append => "append"
  | length => "length"
  | isNull => "null?"
  | isPair => "pair?"
  | isList => "list?"
  | not => "not"
  | isNumber => "number?"
  | isInteger => "integer?"
  | isSymbol => "symbol?"
  | isString => "string?"
  | isProcedure => "procedure?"
  | isSame => "eq?"
  | isEquivalent => "eqv?"
  | isEqual => "equal?"
  | vector => "vector"
  | vectorRef => "vector-ref"
  | vectorLength => "vector-length"
  | listToVector => "list->vector"
  | vectorToList => "vector->list"
  | raise => "error"

def arity : StandardNative → Arity
  | add | multiply | list | append | vector => .any
  | subtract | divide | raise => .atLeast 1
  | equalNumbers | less | greater | lessOrEqual | greaterOrEqual => .atLeast 2
  | modulo | remainder | cons | isSame | isEquivalent | isEqual | vectorRef => .exactly 2
  | _ => .exactly 1

end StandardNative

/-- A native procedure; those of a host are told apart by their number. -/
inductive Native where
  | standard (n : StandardNative)
  | host (number : Nat) (name : String) (arity : Arity)
deriving DecidableEq, Repr

namespace Native

def name : Native → String
  | standard n => n.name
  | host _ name _ => name

def arity : Native → Arity
  | standard n => n.arity
  | host _ _ arity => arity

/-- Two natives are the same procedure if they have the same number. -/
def same : Native → Native → Bool
  | standard m, standard n => m == n
  | host m _ _, host n _ _ => m == n
  | _, _ => false

end Native

end RegisterScheme
