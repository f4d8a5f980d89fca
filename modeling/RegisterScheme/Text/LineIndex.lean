import RegisterScheme.Location

/-! The lines of a text by the bytes where they begin. A byte offset is turned into a line, by a binary
search, and a column, by counting the characters from where the line begins. -/

namespace RegisterScheme

/-- The offsets behind the newlines of a text, which itself begins at an offset. -/
def lineStarts : List Char → Nat → List Nat
  | [], _ => []
  | c :: cs, offset =>
    if c = '\n' then (offset + 1) :: lineStarts cs (offset + 1)
    else lineStarts cs (offset + c.utf8Size)

/-- How many items satisfy a property that holds of the first ones and of no later one. It is known to
hold below `lo`, and to fail from `hi` on. -/
def partitionPoint {α : Type} (p : α → Bool) (items : Array α) (lo hi : Nat)
    (h : hi ≤ items.size) : Nat :=
  if hlt : lo < hi then
    let middle := lo + (hi - lo) / 2
    if p items[middle] then partitionPoint p items (middle + 1) hi h
    else partitionPoint p items lo middle (by omega)
  else lo
termination_by hi - lo

/-- A text behind its first bytes, if these are whole characters. -/
def dropBytes? : List Char → Nat → Option (List Char)
  | cs, 0 => some cs
  | [], _ => none
  | c :: cs, n => if c.utf8Size ≤ n then dropBytes? cs (n - c.utf8Size) else none

/-- The first bytes of a text, if these are whole characters. -/
def takeBytes? : List Char → Nat → Option (List Char)
  | _, 0 => some []
  | [], _ => none
  | c :: cs, n => if c.utf8Size ≤ n then (takeBytes? cs (n - c.utf8Size)).map (c :: ·) else none

def bytesBetween? (cs : List Char) (first last : Nat) : Option (List Char) :=
  if first ≤ last then (dropBytes? cs first).bind (takeBytes? · (last - first)) else none

/-- A number in 32 bits; what does not fit becomes the largest. -/
def saturated (n : Nat) : Nat :=
  if n < 0x100000000 then n else 0xffffffff

structure LineIndex where
  origin : String
  text : List Char
  starts : Array Nat

namespace LineIndex

def ofText (origin text : String) : LineIndex :=
  ⟨origin, text.toList, (0 :: lineStarts text.toList 0).toArray⟩

/-- The place of a byte. -/
def locate (index : LineIndex) (offset : Nat) : Location :=
  let line := partitionPoint (· ≤ offset) index.starts 0 index.starts.size (Nat.le_refl _) - 1
  let column := (bytesBetween? index.text (index.starts.getD line 0) offset).elim 0 List.length
  ⟨⟨saturated (line + 1), saturated (column + 1), offset⟩, index.origin⟩

end LineIndex

end RegisterScheme
