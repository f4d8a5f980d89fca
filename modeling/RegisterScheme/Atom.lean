import RegisterScheme.Decimal.Layout
import RegisterScheme.Text.Quoted

/-! Atoms: the data without parts. -/

namespace RegisterScheme

inductive Atom where
  | nil
  | boolean (b : Bool)
  | integer (n : Int64)
  | float (x : Float)
  | character (c : Char)
  | string (s : String)
  /-- Symbols, and keywords with their colon. -/
  | symbol (name : String)

namespace Atom

def booleanText (b : Bool) : String := if b then "#t" else "#f"

/-- A character literal; the blanks and the null character have names. -/
def characterText (c : Char) : String :=
  match c with
  | ' ' => "#\\space"
  | '\n' => "#\\newline"
  | '\t' => "#\\tab"
  | '\r' => "#\\return"
  | '\x00' => "#\\nul"
  | c => "#\\" ++ c.toString

def integerText (n : Int64) : String := n.toInt.repr

/-- How an atom is written in a program. -/
def text : Atom → String
  | nil => "()"
  | boolean b => booleanText b
  | integer n => integerText n
  | float x => Decimal.writeExact x
  | character c => characterText c
  | string s => Quoted.literal s
  | symbol name => name

def typeName : Atom → String
  | nil => "nil"
  | boolean _ => "boolean"
  | integer _ => "integer"
  | float _ => "float"
  | character _ => "character"
  | string _ => "string"
  | symbol _ => "symbol"

/-- How an atom is shown in a listing, with the name of its kind. -/
def listing : Atom → String
  | nil => "Nil"
  | boolean b => s!"Bool({b})"
  | integer n => s!"Integer({n.toInt})"
  | float x => s!"Float({Decimal.Layout.marked.write x})"
  | character c => s!"Char({Quoted.listingCharacter c})"
  | string s => s!"String({Quoted.listingString s})"
  | symbol name => s!"Symbol({name})"

/-- Equality of the same kind of atom; floats compare as numbers. -/
def equal : Atom → Atom → Bool
  | nil, nil => true
  | boolean a, boolean b => a == b
  | integer a, integer b => a == b
  | float a, float b => a == b
  | character a, character b => a == b
  | string a, string b => a == b
  | symbol a, symbol b => a == b
  | _, _ => false

/-- As `equal`, but an integer may equal a float. -/
def equivalent : Atom → Atom → Bool
  | integer a, float b => a.toFloat == b
  | float a, integer b => b.toFloat == a
  | a, b => equal a b

def isTruthy : Atom → Bool
  | nil => false
  | boolean b => b
  | _ => true

/-- Atoms of one kind with the same content; floats compare by their bits. -/
def identical : Atom → Atom → Bool
  | float a, float b => a.toBits == b.toBits
  | a, b => equal a b

end Atom

end RegisterScheme
