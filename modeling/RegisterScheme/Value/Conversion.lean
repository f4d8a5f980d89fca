import RegisterScheme.Decimal.Read
import RegisterScheme.Text.Blank
import RegisterScheme.Value.Basic

/-! Values as what a procedure expects of them. -/

namespace RegisterScheme

/-- A value of another type than expected. -/
def wrongType {α : Type} (expected : String) (v : Value) : Except Failure α :=
  .error (.runtime (.wrongType expected v.shown))

/-- An operand of arithmetic. -/
inductive Number where
  | integer (n : Int64)
  | float (x : Float)

def Number.toFloat : Number → Float
  | integer n => n.toFloat
  | float x => x

namespace Value

def toInteger : Value → Except Failure Int64
  | .atom (.integer n) => .ok n
  | v => wrongType "integer" v

def toFloat : Value → Except Failure Float
  | .atom (.float x) => .ok x
  | .atom (.integer n) => .ok n.toFloat
  | v => wrongType "number" v

def toBoolean : Value → Except Failure Bool
  | .atom (.boolean b) => .ok b
  | v => wrongType "boolean" v

def toCharacter : Value → Except Failure Char
  | .atom (.character c) => .ok c
  | v => wrongType "character" v

def toPair : Value → Except Failure (Value × Value)
  | .pair _ car cdr => .ok (car, cdr)
  | v => wrongType "pair" v

def toItems : Value → Except Failure (List Value)
  | .vector _ items => .ok items
  | v => wrongType "vector" v

/-- The text of a string or a symbol. -/
def toText : Value → Except Failure String
  | .atom (.string s) | .atom (.symbol s) => .ok s
  | v => wrongType "string" v

def toListItems (v : Value) : Except Failure (List Value) :=
  match v.listItems? with
  | some items => .ok items
  | none => wrongType "list" v

/-- A number, or a string that reads as one between blanks. -/
def toNumber (v : Value) : Except Failure Number :=
  match v with
  | .atom (.integer n) => .ok (.integer n)
  | .atom (.float x) => .ok (.float x)
  | .atom (.string s) =>
    let cs := trimBlanks s.toList
    match Decimal.readFixnum? cs, Decimal.readFloat? cs with
    | some n, _ => .ok (.integer n)
    | none, some x => .ok (.float x)
    | none, none => wrongType "number" v
  | v => wrongType "number" v

end Value

end RegisterScheme
