/-! Places in a source text. Lines and columns count from one, columns in characters;
the offset counts bytes of UTF-8 from zero. -/

namespace RegisterScheme

structure Position where
  line : Nat
  column : Nat
  offset : Nat
deriving DecidableEq, Repr

namespace Position

def start : Position := ⟨1, 1, 0⟩

/-- The position after one character; a newline ends its line. -/
def next (p : Position) (c : Char) : Position :=
  if c = '\n' then ⟨p.line + 1, 1, p.offset + c.utf8Size⟩
  else ⟨p.line, p.column + 1, p.offset + c.utf8Size⟩

def advance (p : Position) (cs : List Char) : Position :=
  cs.foldl next p

@[simp] theorem advance_nil (p : Position) : p.advance [] = p := rfl

@[simp] theorem advance_cons (p : Position) (c : Char) (cs : List Char) :
    p.advance (c :: cs) = (p.next c).advance cs := rfl

theorem advance_append (p : Position) (cs ds : List Char) :
    p.advance (cs ++ ds) = (p.advance cs).advance ds :=
  List.foldl_append

end Position

/-- A position together with the label of its text, such as a file name. -/
structure Location extends Position where
  origin : String
deriving DecidableEq, Repr

def Location.text (l : Location) : String :=
  s!"{l.origin}:{l.line}:{l.column}"

end RegisterScheme
