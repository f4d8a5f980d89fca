import RegisterScheme.Native.Basic
import RegisterScheme.Template.Basic

/-! What a running program holds. Pairs, vectors, closures and templates are objects: each has
an identity, which only equality looks at. -/

namespace RegisterScheme

/-- A template with the frame that was active where it was made a closure. The address tells
closures apart. -/
structure Closure where
  address : Nat
  template : Template
  parent : Option Nat

inductive Value where
  | atom (a : Atom)
  | pair (id : Nat) (car cdr : Value)
  | vector (id : Nat) (items : List Value)
  | closure (c : Closure)
  | template (id : Nat) (t : Template)
  | native (n : Native)
  /-- The value of what is evaluated for its effect. -/
  | unspecified

namespace Value

abbrev nil : Value := .atom .nil

abbrev boolean (b : Bool) : Value := .atom (.boolean b)

abbrev integer (n : Int64) : Value := .atom (.integer n)

abbrev float (x : Float) : Value := .atom (.float x)

def typeName : Value → String
  | atom a => a.typeName
  | pair _ _ _ => "pair"
  | vector _ _ => "vector"
  | closure _ => "procedure"
  | template _ _ => "template"
  | native _ => "native procedure"
  | unspecified => "unspecified"

/-- The text of a value that has no parts. -/
def wholeText : Value → String
  | atom a => a.text
  | closure c => Template.angled "procedure" c.template.name
  | template _ t => Template.angled "template" t.name
  | native n => s!"#<native {n.name}>"
  | unspecified => "#<unspecified>"
  | pair _ _ _ | vector _ _ => ""

mutual

/-- The text of a value. The pairs of a list share one pair of parentheses. -/
def chars : Value → List Char
  | pair _ car cdr => '(' :: car.chars ++ cdr.tailChars
  | vector _ items => '#' :: '(' :: itemChars items
  | v => v.wholeText.toList

/-- What follows the first item of a list, with its closing parenthesis. -/
def tailChars : Value → List Char
  | atom .nil => [')']
  | pair _ car cdr => ' ' :: car.chars ++ cdr.tailChars
  | vector _ items => ' ' :: '.' :: ' ' :: '#' :: '(' :: itemChars items ++ [')']
  | v => ' ' :: '.' :: ' ' :: v.wholeText.toList ++ [')']

/-- Items between blanks, with the closing parenthesis. -/
def itemChars : List Value → List Char
  | [] => [')']
  | [v] => v.chars ++ [')']
  | v :: vs => v.chars ++ ' ' :: itemChars vs

end

def text (v : Value) : String := String.ofList v.chars

def listing : Value → String
  | atom a => a.listing
  | unspecified => "Unspecified"
  | v => v.text

def shown (v : Value) : Shown := ⟨v.typeName, v.text⟩

/-- All values but nil and false count as true. -/
def isTruthy : Value → Bool
  | atom a => a.isTruthy
  | _ => true

def isNil : Value → Bool
  | atom .nil => true
  | _ => false

def isNumber : Value → Bool
  | atom (.integer _) | atom (.float _) => true
  | _ => false

def isProcedure : Value → Bool
  | closure _ | native _ => true
  | _ => false

/-- The items of a proper list. -/
def listItems? : Value → Option (List Value)
  | atom .nil => some []
  | pair _ car cdr => (listItems? cdr).map (car :: ·)
  | _ => none

def isList (v : Value) : Bool := v.listItems?.isSome

mutual

/-- Equality of structure; procedures and templates are equal to themselves alone, and so is
a pair at least. The unspecified value equals nothing. -/
def equal : Value → Value → Bool
  | atom a, atom b => a.equal b
  | pair i a b, pair j c d => i == j || (a.equal c && b.equal d)
  | vector _ as, vector _ bs => equalItems as bs
  | closure c, closure d => c.address == d.address
  | template i _, template j _ => i == j
  | native m, native n => m.same n
  | _, _ => false

def equalItems : List Value → List Value → Bool
  | [], [] => true
  | a :: as, b :: bs => a.equal b && equalItems as bs
  | _, _ => false

end

/-- Equality of numbers, whatever their types, and of other atoms; identity of objects. -/
def eqv : Value → Value → Bool
  | atom a, atom b => a.equivalent b
  | pair i _ _, pair j _ _ => i == j
  | vector i _, vector j _ => i == j
  | unspecified, unspecified => true
  | v, w => v.equal w

mutual

/-- A datum whose objects are those from a number on. -/
def ofDatum (first : Nat) : Datum → Value
  | .atom a => .atom a
  | .pair car cdr =>
    .pair first (ofDatum (first + 1) car) (ofDatum (first + 1 + car.objects) cdr)
  | .vector items => .vector first (ofData (first + 1) items)

def ofData (first : Nat) : List Datum → List Value
  | [] => []
  | d :: ds => ofDatum first d :: ofData (first + d.objects) ds

end

def ofQuotation (q : Quotation) : Value := ofDatum q.first q.datum

/-- Values in front of a tail, as new pairs from a number on. -/
def listFrom (first : Nat) (tail : Value) : List Value → Value
  | [] => tail
  | v :: vs => .pair first v (listFrom (first + 1) tail vs)

end Value

end RegisterScheme
