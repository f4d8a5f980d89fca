import RegisterScheme.Sexpr.Basic
import RegisterScheme.Token.Lexer

/-! From tokens to expressions. The reader keeps the forms that are still open, innermost first,
and takes one token at a time, so what it has read never depends on what follows. -/

namespace RegisterScheme

/-- A form that is still open. It knows the depth of the data inside it, and holds its items
last first. -/
inductive OpenForm where
  /-- After a quote mark; `begun` once a datum comment stands behind the mark. -/
  | quoted (mark : QuoteMark) (location : Location) (depth : Nat) (begun : Bool)
  /-- After a datum comment, whose datum is left out. -/
  | comment (depth : Nat)
  | list (bracket : Bracket) (location : Location) (depth : Nat) (items : List Sexpr)
  /-- After the dot of a list. -/
  | dot (bracket : Bracket) (location : Location) (depth : Nat) (items : List Sexpr)
      (dot : Location)
  /-- After the datum behind the dot. -/
  | tail (bracket : Bracket) (location : Location) (depth : Nat) (items : List Sexpr)
      (tail : Sexpr)
  | vector (location : Location) (depth : Nat) (items : List Sexpr)

structure Reader where
  /-- The finished data, last first. -/
  done : List Sexpr
  /-- The open forms, innermost first. -/
  pending : List OpenForm

namespace Reader

def start : Reader := ⟨[], []⟩

/-- The depth of the next datum. -/
def depth (r : Reader) : Nat :=
  match r.pending with
  | [] => 0
  | .quoted _ _ d _ :: _ | .comment d :: _ | .list _ _ d _ :: _ | .dot _ _ d _ _ :: _
  | .tail _ _ d _ _ :: _ | .vector _ d _ :: _ => d

def fail {α : Type} (cause : Malformed.Cause) (location : Option Location) :
    Except Malformed α :=
  .error ⟨cause, none, location⟩

/-- A list in front of a tail. A tail that is a list itself goes on with its items. -/
def joined (items : List Sexpr) (tail : Sexpr) (location : Location) : Sexpr :=
  match tail with
  | .list more _ => .list (items ++ more) (some location)
  | .dotted more last _ => .dotted (items ++ more) last (some location)
  | tail => .dotted items tail (some location)

/-- A finished datum goes into the innermost open form and may finish it. -/
def complete (done : List Sexpr) (s : Sexpr) : List OpenForm → Reader
  | [] => ⟨s :: done, []⟩
  | .quoted mark location _ _ :: outer =>
    let place := some location
    complete done (.list [.identifier mark.name place, s] place) outer
  | .comment _ :: outer => ⟨done, outer⟩
  | .list b location d items :: outer => ⟨done, .list b location d (s :: items) :: outer⟩
  | .dot b location d items _ :: outer => ⟨done, .tail b location d items s :: outer⟩
  | .tail b location d items tail :: outer => ⟨done, .tail b location d items tail :: outer⟩
  | .vector location d items :: outer => ⟨done, .vector location d (s :: items) :: outer⟩

def opened (r : Reader) (form : OpenForm) : Reader :=
  { r with pending := form :: r.pending }

/-- Data lie no deeper than allowed. -/
def checkDepth (limit : Nat) (r : Reader) (location : Option Location) : Except Malformed Unit :=
  if r.depth < limit then .ok () else fail (.nestedBeyond limit) location

/-- A token with which a datum begins. -/
def begin (limit : Nat) (r : Reader) (t : Token) : Except Malformed Reader := do
  if let .tail .. :: _ := r.pending then
    .error ⟨.manyAfterDot, some t.kind.text, some t.location⟩
  else
    r.checkDepth limit (some t.location)
    match t.kind with
    | .opening b => return r.opened (.list b t.location (r.depth + 1) [])
    | .openVector => return r.opened (.vector t.location (r.depth + 1) [])
    | .mark m => return r.opened (.quoted m t.location (r.depth + 1) false)
    | .literal a => return complete r.done (.literal a (some t.location)) r.pending
    | .identifier name => return complete r.done (.identifier name (some t.location)) r.pending
    | .closing b => fail (.unexpectedClosing b) (some t.location)
    | .dot => fail .misplacedDot (some t.location)
    | .datumComment => return r.opened (.comment (r.depth + 1))

/-- A closing bracket. -/
def close (limit : Nat) (r : Reader) (t : Token) (closed : Bracket) : Except Malformed Reader :=
  let matching (opened : Bracket) (s : Sexpr) (outer : List OpenForm) :
      Except Malformed Reader :=
    if opened = closed then .ok (complete r.done s outer)
    else fail (.mismatched opened closed) (some t.location)
  match r.pending with
  | .list b location _ items :: outer =>
    matching b (.list items.reverse (some location)) outer
  | .tail b location _ items tail :: outer =>
    matching b (joined items.reverse tail location) outer
  | .vector location _ items :: outer =>
    matching .round (.vector items.reverse (some location)) outer
  | .dot _ _ _ _ dot :: _ => fail .nothingAfterDot (some dot)
  | _ => begin limit r t

def dot (limit : Nat) (r : Reader) (t : Token) : Except Malformed Reader :=
  match r.pending with
  | .list _ _ _ [] :: _ => fail .leadingDot (some t.location)
  | .list b location d items :: outer =>
    .ok { r with pending := .dot b location d items t.location :: outer }
  | .vector .. :: _ => fail .dotInVector (some t.location)
  | .dot _ _ _ _ dot :: _ => fail .nothingAfterDot (some dot)
  | _ => begin limit r t

/-- A datum comment. Among the items of a form the datum it covers lies at their depth;
elsewhere it lies one deeper than the datum that is still to come. -/
def comment (limit : Nat) (r : Reader) (t : Token) : Except Malformed Reader :=
  match r.pending with
  | [] => .ok (r.opened (.comment 1))
  | .quoted mark location d _ :: outer => do
    r.checkDepth limit (some t.location)
    return { r with pending := .comment (d + 1) :: .quoted mark location d true :: outer }
  | .comment _ :: _ => begin limit r t
  | _ => .ok (r.opened (.comment r.depth))

def step (limit : Nat) (r : Reader) (t : Token) : Except Malformed Reader :=
  match t.kind with
  | .closing b => r.close limit t b
  | .dot => r.dot limit t
  | .datumComment => r.comment limit t
  | _ => r.begin limit t

/-- The finished data, if no form is open. -/
def finish (limit : Nat) (last : Option Location) (r : Reader) : Except Malformed (List Sexpr) :=
  match r.pending with
  | [] => .ok r.done.reverse
  | .list b location _ _ :: _ => fail (.endOfInput (.list b)) (some location)
  | .vector location _ _ :: _ => fail (.endOfInput .vector) (some location)
  | .dot _ location _ _ _ :: _ | .tail _ location _ _ _ :: _ =>
    fail (.endOfInput .dottedList) (some location)
  | .quoted mark location _ false :: _ => fail (.endOfInput (.quoted mark)) (some location)
  | .quoted _ _ _ true :: _ => fail (.endOfInput .datum) last
  | .comment _ :: _ => do
    r.checkDepth limit none
    fail (.endOfInput .datum) last

def lastLocation (tokens : List Token) : Option Location :=
  tokens.getLast?.map Token.location

end Reader

namespace Sexpr

/-- All the data of a text. -/
def readAll (limit : Nat) (tokens : List Token) : Except Malformed (List Sexpr) :=
  tokens.foldlM (Reader.step limit) .start >>= Reader.finish limit (Reader.lastLocation tokens)

/-- As `Reader.step`, but nothing except comments may follow the first datum. -/
def stepOne (limit : Nat) (r : Reader) (t : Token) : Except Malformed Reader :=
  match r, t.kind with
  | ⟨_ :: _, []⟩, .datumComment => r.step limit t
  | ⟨_ :: _, []⟩, kind => .error ⟨.inputAfterDatum, some kind.text, some t.location⟩
  | _, _ => r.step limit t

/-- The only datum of a text. -/
def readOne (tokens : List Token) : Except Malformed Sexpr := do
  let limit := ReadOptions.standard.maxDepth
  let last := Reader.lastLocation tokens
  let r ← tokens.foldlM (stepOne limit) .start
  match ← r.finish limit last with
  | s :: _ => return s
  | [] => Reader.fail (.endOfInput .datum) last

end Sexpr

end RegisterScheme
