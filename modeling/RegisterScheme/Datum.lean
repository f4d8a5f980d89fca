import RegisterScheme.Atom

/-! Data as programs write and quote it: atoms, pairs and vectors. -/

namespace RegisterScheme

inductive Datum where
  | atom (a : Atom)
  | pair (car cdr : Datum)
  | vector (items : List Datum)

namespace Datum

abbrev nil : Datum := .atom .nil

/-- The items in front of a last tail, which is nil for a proper list. -/
def listWithTail (items : List Datum) (tail : Datum) : Datum :=
  items.foldr pair tail

mutual

/-- The text of a datum. The pairs of a list share one pair of parentheses. -/
def chars : Datum → List Char
  | atom a => a.text.toList
  | pair car cdr => '(' :: car.chars ++ cdr.tailChars
  | vector items => '#' :: '(' :: itemChars items

/-- What follows the first item of a list, with its closing parenthesis. -/
def tailChars : Datum → List Char
  | atom .nil => [')']
  | atom a => ' ' :: '.' :: ' ' :: a.text.toList ++ [')']
  | pair car cdr => ' ' :: car.chars ++ cdr.tailChars
  | vector items => ' ' :: '.' :: ' ' :: '#' :: '(' :: itemChars items ++ [')']

/-- Items between blanks, with the closing parenthesis. -/
def itemChars : List Datum → List Char
  | [] => [')']
  | [d] => d.chars ++ [')']
  | d :: ds => d.chars ++ ' ' :: itemChars ds

end

def text (d : Datum) : String := String.ofList d.chars

def typeName : Datum → String
  | atom a => a.typeName
  | pair _ _ => "pair"
  | vector _ => "vector"

/-- An atom is listed with its kind, anything else as it is written. -/
def listing : Datum → String
  | atom a => a.listing
  | d => d.text

mutual

/-- How many pairs and vectors a datum is built from. -/
def objects : Datum → Nat
  | atom _ => 0
  | pair car cdr => car.objects + cdr.objects + 1
  | vector items => objectsOfItems items + 1

def objectsOfItems : List Datum → Nat
  | [] => 0
  | d :: ds => d.objects + objectsOfItems ds

end

end Datum

end RegisterScheme
