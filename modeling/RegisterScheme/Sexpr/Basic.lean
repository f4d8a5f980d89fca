import RegisterScheme.Datum
import RegisterScheme.Location

/-! Expressions as trees with places. A node made for an empty text has no place. -/

namespace RegisterScheme

inductive Sexpr where
  | literal (a : Atom) (location : Option Location)
  | identifier (name : String) (location : Option Location)
  | list (items : List Sexpr) (location : Option Location)
  /-- A list with a last tail, which is no list itself. -/
  | dotted (items : List Sexpr) (tail : Sexpr) (location : Option Location)
  | vector (items : List Sexpr) (location : Option Location)

namespace Sexpr

def location : Sexpr → Option Location
  | literal _ l | identifier _ l | list _ l | dotted _ _ l | vector _ l => l

def identifier? : Sexpr → Option String
  | identifier name _ => some name
  | _ => none

def isIdentifier (s : Sexpr) : Bool := s.identifier?.isSome

/-- Atoms, vectors and the empty list stand for themselves. -/
def isLiteral : Sexpr → Bool
  | literal _ _ | vector _ _ | list [] _ => true
  | _ => false

/-- Forms and applications. -/
def isCompound : Sexpr → Bool
  | list (_ :: _) _ => true
  | _ => false

def listItems? : Sexpr → Option (List Sexpr)
  | list items _ => some items
  | _ => none

mutual

/-- The datum that a quotation of the expression stands for. -/
def toDatum : Sexpr → Datum
  | literal a _ => .atom a
  | identifier name _ => .atom (.symbol name)
  | list items _ => .listWithTail (toData items) .nil
  | dotted items tail _ => .listWithTail (toData items) tail.toDatum
  | vector items _ => .vector (toData items)

def toData : List Sexpr → List Datum
  | [] => []
  | s :: ss => s.toDatum :: toData ss

end

mutual

def chars : Sexpr → List Char
  | literal a _ => a.text.toList
  | identifier name _ => name.toList
  | list items _ => '(' :: itemChars items ++ [')']
  | dotted items tail _ => '(' :: itemChars items ++ ' ' :: '.' :: ' ' :: tail.chars ++ [')']
  | vector items _ => '#' :: '(' :: itemChars items ++ [')']

/-- Items between blanks. -/
def itemChars : List Sexpr → List Char
  | [] => []
  | [s] => s.chars
  | s :: ss => s.chars ++ ' ' :: itemChars ss

end

def text (s : Sexpr) : String := String.ofList s.chars

/-- The expression with its place, for listings. -/
def listing (s : Sexpr) : String :=
  match s.location with
  | some l => s!"Syntax({s.text} @ {l.text})"
  | none => s!"Syntax({s.text})"

mutual

/-- Equality of everything but the places. -/
def equal : Sexpr → Sexpr → Bool
  | literal a _, literal b _ => a.equal b
  | identifier a _, identifier b _ => a == b
  | list as _, list bs _ => equalItems as bs
  | dotted as a _, dotted bs b _ => equalItems as bs && a.equal b
  | vector as _, vector bs _ => equalItems as bs
  | _, _ => false

def equalItems : List Sexpr → List Sexpr → Bool
  | [], [] => true
  | a :: as, b :: bs => a.equal b && equalItems as bs
  | _, _ => false

end

mutual

/-- How deep parts lie in an expression; one without parts has height one. -/
def height : Sexpr → Nat
  | literal _ _ | identifier _ _ => 1
  | list items _ | vector items _ => heightOfItems items + 1
  | dotted items tail _ => max (heightOfItems items) tail.height + 1

def heightOfItems : List Sexpr → Nat
  | [] => 0
  | s :: ss => max s.height (heightOfItems ss)

end

end Sexpr

end RegisterScheme
