import RegisterScheme.Template.Builder

/-! Code that fits: registers lie in the frame, indices in the pool of literals and in the list of
variables, and jumps lead forward to a line of the code or right behind it. -/

namespace RegisterScheme

/-- What the instructions of a procedure may refer to. -/
structure Room where
  frameSize : Nat
  literals : List (Literal Template)
  /-- The kinds of the variables, by slot. -/
  kinds : List VariableKind

def Template.room (t : Template) : Room := ⟨t.frameSize, t.literals, t.slots.map Variable.kind⟩

namespace Room

/-- A room with more registers and literals. -/
structure Within (r s : Room) : Prop where
  frameSize : r.frameSize ≤ s.frameSize
  literals : r.literals <+: s.literals
  kinds : r.kinds = s.kinds

theorem Within.refl (r : Room) : r.Within r := ⟨Nat.le_refl _, List.prefix_rfl, rfl⟩

theorem Within.trans {r s t : Room} (h : r.Within s) (h' : s.Within t) : r.Within t :=
  ⟨Nat.le_trans h.frameSize h'.frameSize, h.literals.trans h'.literals, h.kinds.trans h'.kinds⟩

theorem Within.getElem? {r s : Room} (h : r.Within s) {i : Nat} {l : Literal Template}
    (hl : r.literals[i]? = some l) : s.literals[i]? = some l := by
  obtain ⟨rest, hrest⟩ := h.literals
  obtain ⟨hi, -⟩ := List.getElem?_eq_some_iff.mp hl
  rw [← hrest, List.getElem?_append_left hi, hl]

/-- The literal at an index is a value. -/
def Constant (r : Room) (index : Nat) : Prop :=
  (∃ q, r.literals[index]? = some (.quotation q)) ∨ r.literals[index]? = some .unspecified

/-- The literal at an index names a global. -/
def Name (r : Room) (index : Nat) : Prop :=
  ∃ first name, r.literals[index]? = some (.quotation ⟨first, .atom (.symbol name)⟩)

/-- The literal at an index is a template. -/
def Nested (r : Room) (index : Nat) : Prop := ∃ t, r.literals[index]? = some (.template t)

/-- The variable in a slot is captured. -/
def Captured (r : Room) (slot : Nat) : Prop :=
  ∃ distance register, r.kinds[slot]? = some (.captured distance register)

/-- An operand that can be read. -/
def Holds (r : Room) (half : Nat) : Prop :=
  match Operand.ofHalf half with
  | .register q => q < r.frameSize
  | .constant index => r.Constant index

end Room

theorem Room.Within.holds {r s : Room} (h : r.Within s) {half : Nat} (hh : r.Holds half) :
    s.Holds half := by
  unfold Room.Holds at hh ⊢
  split at hh
  · exact Nat.lt_of_lt_of_le hh h.frameSize
  · exact hh.imp (fun ⟨q, hq⟩ => ⟨q, h.getElem? hq⟩) h.getElem?

namespace Instruction

/-- The registers that an instruction reads and writes directly. -/
def registers (i : Instruction) : List Nat :=
  match i.opcode with
  | .move | .negate | .not | .car | .cdr | .testSet => [i.a, i.b]
  | .loadConstant | .loadBoolean | .test | .getCaptured | .setCaptured | .getGlobal | .setGlobal
  | .add | .subtract | .multiply | .divide | .modulo | .remainder | .cons | .closure => [i.a]
  | .loadNil => List.range' i.a (i.b + 1 - i.a)
  | .call => i.a :: List.range' (i.a + 1) (i.b - 1)
  | .return => if i.b = 2 then [i.a] else []
  | .jump | .equivalent | .equalNumbers | .less | .lessOrEqual => []

/-- The halves that an instruction reads as a register or a literal. -/
def halves (i : Instruction) : List Nat :=
  match i.opcode with
  | .add | .subtract | .multiply | .divide | .modulo | .remainder | .cons
  | .equivalent | .equalNumbers | .less | .lessOrEqual => [i.b, i.c]
  | _ => []

/-- Everything that an instruction refers to is there and of the right kind. -/
structure Fits (i : Instruction) (r : Room) : Prop where
  registers : ∀ q ∈ i.registers, q < r.frameSize
  halves : ∀ half ∈ i.halves, r.Holds half
  constant : i.opcode = .loadConstant → r.Constant i.field
  name : i.opcode = .getGlobal ∨ i.opcode = .setGlobal → r.Name i.field
  captured : i.opcode = .getCaptured ∨ i.opcode = .setCaptured → r.Captured i.b
  nested : i.opcode = .closure → r.Nested i.field
  forward : i.opcode = .jump → 0 ≤ i.displacement
  /-- Nil goes into one register at least. -/
  ordered : i.opcode = .loadNil → i.a.val ≤ i.b
  /-- The procedure is counted with its arguments. -/
  counted : i.opcode = .call → 1 ≤ i.b

theorem Fits.mono {i : Instruction} {r s : Room} (hi : i.Fits r) (h : r.Within s) : i.Fits s where
  registers q hq := Nat.lt_of_lt_of_le (hi.registers q hq) h.frameSize
  halves half hh := h.holds (hi.halves half hh)
  constant ho := (hi.constant ho).imp (fun ⟨q, hq⟩ => ⟨q, h.getElem? hq⟩) h.getElem?
  name ho := by
    obtain ⟨first, name, hn⟩ := hi.name ho
    exact ⟨first, name, h.getElem? hn⟩
  captured ho := by
    obtain ⟨distance, register, hc⟩ := hi.captured ho
    exact ⟨distance, register, h.kinds ▸ hc⟩
  nested ho := by
    obtain ⟨t, ht⟩ := hi.nested ho
    exact ⟨t, h.getElem? ht⟩
  forward := hi.forward
  ordered := hi.ordered
  counted := hi.counted

/-- How many of the next lines an instruction may skip. -/
def reach (i : Instruction) : Nat :=
  match i.opcode with
  | .jump => i.displacement.toNat
  | .equivalent | .equalNumbers | .less | .lessOrEqual | .test | .testSet => 1
  | .loadBoolean => if i.c = 0 then 0 else 1
  | _ => 0

end Instruction

namespace Code

/-- Nothing leads further than so many lines behind the code. -/
def Flows (after : Nat) : Code → Prop
  | [] => True
  | line :: rest => line.instruction.reach ≤ rest.length + after ∧ Flows after rest

theorem Flows.append {n m : Nat} {xs ys : Code} (hx : Flows n xs) (hy : Flows m ys)
    (h : n ≤ ys.length + m) : Flows m (xs ++ ys) := by
  induction xs with
  | nil => exact hy
  | cons line rest ih =>
    refine ⟨?_, ih hx.2⟩
    have hl : (rest ++ ys).length = rest.length + ys.length := List.length_append
    have := hx.1
    change _ ≤ (rest ++ ys).length + m
    omega

/-- Code that fits a room and ends at its last line, or so many lines behind it. -/
structure Fits (code : Code) (after : Nat) (r : Room) : Prop where
  lines : ∀ line ∈ code, line.instruction.Fits r
  flows : Flows after code

variable {n m : Nat} {xs ys : Code} {r s : Room}

theorem fits_nil : Fits [] n r := ⟨by simp, trivial⟩

theorem fits_line {line : Line} (h : line.instruction.Fits r) (hr : line.instruction.reach ≤ n) :
    Fits [line] n r :=
  ⟨by simpa using h, by simpa using hr, trivial⟩

theorem Fits.mono (hx : Fits xs n r) (h : r.Within s) : Fits xs n s :=
  ⟨fun line hl => (hx.lines line hl).mono h, hx.flows⟩

theorem Fits.append (hx : Fits xs n r) (hy : Fits ys m r) (h : n ≤ ys.length + m) :
    Fits (xs ++ ys) m r where
  lines line hl := (List.mem_append.mp hl).elim (hx.lines line) (hy.lines line)
  flows := hx.flows.append hy.flows h

/-- Code that ends earlier than it might. -/
theorem Fits.weaken (hx : Fits xs n r) (h : n ≤ m) : Fits xs m r := by
  have hnil : Fits (xs ++ []) m r := hx.append fits_nil (by simpa using h)
  rwa [List.append_nil] at hnil

end Code

end RegisterScheme
