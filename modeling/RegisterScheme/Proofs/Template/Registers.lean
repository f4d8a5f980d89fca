import RegisterScheme.Proofs.Template.Encoding
import RegisterScheme.Proofs.Template.Room
import RegisterScheme.Proofs.Simulation.Pieces

/-! The registers that code writes, and those that it uses at all. -/

namespace RegisterScheme

namespace Opcode

/-- One value goes to a register, and it comes from none. -/
def loads : Opcode → Bool
  | loadConstant | loadBoolean | getCaptured | getGlobal | closure => true
  | _ => false

/-- The value in one register makes that in another. -/
def moves : Opcode → Bool
  | move | negate | not | testSet | car | cdr => true
  | _ => false

/-- The value in a register leaves the frame, or is only looked at. -/
def stores : Opcode → Bool
  | setCaptured | setGlobal | test => true
  | _ => false

/-- Two operands make a value. -/
def combines : Opcode → Bool
  | add | subtract | multiply | divide | modulo | remainder | cons => true
  | _ => false

def compares : Opcode → Bool
  | equivalent | equalNumbers | less | lessOrEqual => true
  | _ => false

end Opcode

namespace Operand

/-- If the operand is a register, it is one of the first. -/
def Below (size : Nat) (half : Nat) : Prop := ∀ q, ofHalf half = register q → q < size

theorem below_register {r : Register} {size : Nat} (h : r.val < size) :
    Below size (register r).half := by
  intro q hq
  rw [ofHalf_register r.isLt] at hq
  cases hq
  exact h

theorem below_constant {index size : Nat} {o : Operand} (h : constant? index = some o) :
    Below size o.half := by
  obtain ⟨rfl, hindex⟩ := constant?_eq_some h
  intro q hq
  rw [ofHalf_constant hindex] at hq
  cases hq

theorem Below.mono {m n half : Nat} (h : Below m half) (hmn : m ≤ n) : Below n half :=
  fun q hq => Nat.lt_of_lt_of_le (h q hq) hmn

end Operand

namespace Instruction

/-- The registers of its own frame that an instruction writes. A captured variable lies in a frame
further out, and a call writes no more than its result. -/
def writes (i : Instruction) : List Nat :=
  match i.opcode with
  | .loadNil => List.range' i.a (i.b + 1 - i.a)
  | .setCaptured | .setGlobal | .equivalent | .equalNumbers | .less | .lessOrEqual | .test | .jump
  | .return => []
  | _ => [i.a]

/-- An instruction reads or writes a register. -/
def Uses (i : Instruction) (q : Nat) : Prop :=
  q ∈ i.registers ∨ ∃ half ∈ i.halves, Operand.ofHalf half = .register q

/-- All that is written may be written, and all that is used is one of the first registers. -/
structure Confined (may : Nat → Prop) (size : Nat) (i : Instruction) : Prop where
  writes : ∀ q ∈ i.writes, may q
  uses : ∀ q, i.Uses q → q < size

/-- The registers and operands of an instruction, written out. -/
structure Touches (i : Instruction) (writes registers halves : List Nat) : Prop where
  writes : i.writes = writes
  registers : i.registers = registers
  halves : i.halves = halves

variable {i : Instruction} {may : Nat → Prop} {size : Nat}

theorem Touches.confined {ws rs hs : List Nat} (h : i.Touches ws rs hs) (hws : ∀ q ∈ ws, may q)
    (hrs : ∀ q ∈ rs, q < size) (hhs : ∀ half ∈ hs, Operand.Below size half) :
    i.Confined may size := by
  refine ⟨by rwa [h.writes], fun q hq => ?_⟩
  unfold Uses at hq
  rw [h.registers, h.halves] at hq
  rcases hq with hq | ⟨half, hmem, hq⟩
  · exact hrs q hq
  · exact hhs half hmem q hq

theorem touches_of_loads (h : i.opcode.loads) : i.Touches [i.a] [i.a] [] := by
  constructor <;> simp only [writes, registers, halves] <;>
    cases ho : i.opcode <;> simp_all [Opcode.loads]

theorem touches_of_moves (h : i.opcode.moves) : i.Touches [i.a] [i.a, i.b] [] := by
  constructor <;> simp only [writes, registers, halves] <;>
    cases ho : i.opcode <;> simp_all [Opcode.moves]

theorem touches_of_stores (h : i.opcode.stores) : i.Touches [] [i.a] [] := by
  constructor <;> simp only [writes, registers, halves] <;>
    cases ho : i.opcode <;> simp_all [Opcode.stores]

theorem touches_of_combines (h : i.opcode.combines) : i.Touches [i.a] [i.a] [i.b, i.c] := by
  constructor <;> simp only [writes, registers, halves] <;>
    cases ho : i.opcode <;> simp_all [Opcode.combines]

theorem touches_of_compares (h : i.opcode.compares) : i.Touches [] [] [i.b, i.c] := by
  constructor <;> simp only [writes, registers, halves] <;>
    cases ho : i.opcode <;> simp_all [Opcode.compares]

theorem touches_of_jump (h : i.opcode = .jump) : i.Touches [] [] [] := by
  constructor <;> simp only [writes, registers, halves, h]

theorem touches_of_call (h : i.opcode = .call) :
    i.Touches [i.a] (i.a :: List.range' (i.a + 1) (i.b - 1)) [] := by
  constructor <;> simp only [writes, registers, halves, h]

theorem touches_of_loadNil (h : i.opcode = .loadNil) (hb : i.b = i.a) :
    i.Touches [i.a] [i.a] [] := by
  have hone : List.range' i.a.val (i.a + 1 - i.a) = [i.a.val] := by
    rw [Nat.add_sub_cancel_left]
    rfl
  constructor <;> simp only [writes, registers, halves, h, hb, hone]

theorem Confined.mono {n : Nat} (h : i.Confined may size) (hn : size ≤ n) : i.Confined may n :=
  ⟨h.writes, fun q hq => Nat.lt_of_lt_of_le (h.uses q hq) hn⟩

end Instruction

namespace Code

/-- Code all of whose instructions are. -/
def Confined (may : Nat → Prop) (size : Nat) (code : Code) : Prop :=
  ∀ line ∈ code, line.instruction.Confined may size

variable {may : Nat → Prop} {size lines : Nat} {xs ys : Code} {pieces : List Code}

theorem confined_nil : Confined may size [] := fun _ h => nomatch h

theorem confined_line {line : Line} (h : line.instruction.Confined may size) :
    Confined may size [line] := List.forall_mem_singleton.mpr h

theorem Confined.mono {n : Nat} (h : xs.Confined may size) (hn : size ≤ n) : xs.Confined may n :=
  fun line hl => (h line hl).mono hn

theorem Confined.append (hx : xs.Confined may size) (hy : ys.Confined may size) :
    (xs ++ ys).Confined may size := List.forall_mem_append.mpr ⟨hx, hy⟩

theorem confined_flatten (h : ∀ piece ∈ pieces, Confined may size piece) :
    Confined may size pieces.flatten := by
  intro line hline
  obtain ⟨piece, hpiece, hline⟩ := List.mem_flatten.mp hline
  exact h piece hpiece line hline

theorem Jump.confined (h : xs.Jump lines) : xs.Confined may size := by
  obtain ⟨i, location, rfl, hop, -⟩ := h
  exact confined_line ((Instruction.touches_of_jump hop).confined nofun nofun nofun)

theorem Exits.confined {last code : Code} (h : Exits last pieces code)
    (hp : ∀ piece ∈ pieces, Confined may size piece) (hl : last.Confined may size) :
    code.Confined may size := by
  induction h with
  | last => exact hl
  | piece jump _ ih =>
    obtain ⟨hpiece, hp⟩ := List.forall_mem_cons.mp hp
    exact hpiece.append (jump.confined.append (ih hp))

end Code

end RegisterScheme
