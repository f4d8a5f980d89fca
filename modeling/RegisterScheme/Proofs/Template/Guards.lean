import RegisterScheme.Proofs.Simulation.Pieces

/-! Tests with the jumps that they guard. A test skips the next line or not, and that line is a jump;
jumps and skipping booleans lead forward, and never to a jump that belongs to a test. -/

namespace RegisterScheme

/-- Tests and comparisons. -/
def Opcode.isTest : Opcode → Bool
  | .equivalent | .equalNumbers | .less | .lessOrEqual | .test | .testSet => true
  | _ => false

/-- How many of the next lines a jump leads over, or a boolean that skips one. -/
def Instruction.leap? (i : Instruction) : Option Int :=
  match i.opcode with
  | .jump => some i.displacement
  | .loadBoolean => if i.c = 0 then none else some 1
  | _ => none

namespace Code

/-- The lines of a procedure: each test has its jump, leaps stay inside and land on no jump that
belongs to a test, and only the last line returns. -/
structure Guarded (code : Code) : Prop where
  tests : ∀ (i : Nat) line, code[i]? = some line → line.instruction.opcode.isTest →
    ∃ jump, code[i + 1]? = some jump ∧ jump.instruction.opcode = .jump
  forward : ∀ line ∈ code, line.instruction.opcode = .jump → 0 ≤ line.instruction.displacement
  leaps : ∀ (i : Nat) line d, code[i]? = some line → line.instruction.leap? = some d →
    ∃ target : Nat, (target : Int) = i + 1 + d ∧ target < code.length ∧
      ∀ above, code[target - 1]? = some above → above.instruction.opcode.isTest = false
  returns : ∃ lines last, code = lines ++ [last] ∧ last.instruction.opcode = .return ∧
    ∀ line ∈ lines, line.instruction.opcode ≠ .return

/-- The line after so many is not behind a test. -/
def Open (code : Code) (n : Nat) : Prop :=
  ∀ line, 0 < n → code[n - 1]? = some line → line.instruction.opcode.isTest = false

end Code

/-- What is behind an instruction is as the instruction needs it. -/
structure Instruction.Joins (i : Instruction) (behind : Code) : Prop where
  tests : i.opcode.isTest → ∃ jump rest, behind = jump :: rest ∧ jump.instruction.opcode = .jump
  leaps : ∀ d, i.leap? = some d → ∃ n : Nat, d = n ∧ n < behind.length ∧ behind.Open n
  stays : i.opcode ≠ .return

namespace Code

/-- Code in front of other code, which its last lines may need. -/
def Joins : Code → Code → Prop
  | [], _ => True
  | line :: rest, next => line.instruction.Joins (rest ++ next) ∧ Joins rest next

/-- Code that joins whatever comes next. -/
def Whole (code : Code) : Prop := ∀ next, next ≠ [] → code.Joins next

/-- Code that may end in a test, or lead over one more line, and needs a jump next. -/
def Exiting (code : Code) : Prop :=
  ∀ exit next, exit.instruction.opcode = .jump → next ≠ [] → code.Joins (exit :: next)

variable {xs ys next : Code} {i : Nat} {line : Line}

theorem joins_append : (xs ++ ys).Joins next ↔ xs.Joins (ys ++ next) ∧ ys.Joins next := by
  induction xs with
  | nil => simp [Joins]
  | cons line rest ih =>
    rw [List.cons_append, Joins, Joins, ih, List.append_assoc, and_assoc]

theorem joins_singleton : Joins [line] next ↔ line.instruction.Joins next := by
  simp [Joins]

theorem Joins.getElem (h : xs.Joins next) (hi : xs[i]? = some line) :
    line.instruction.Joins (xs.drop (i + 1) ++ next) := by
  induction xs generalizing i with
  | nil => simp at hi
  | cons first rest ih =>
    cases i with
    | zero =>
      simp only [List.getElem?_cons_zero, Option.some.injEq] at hi
      subst hi
      exact h.1
    | succ i =>
      rw [List.getElem?_cons_succ] at hi
      exact ih h.2 hi

theorem whole_nil : Whole [] := fun _ _ => trivial

theorem Whole.append (hx : Whole xs) (hy : Whole ys) : Whole (xs ++ ys) := by
  intro next hne
  have hmore : ys ++ next ≠ [] := by simp [hne]
  exact joins_append.mpr ⟨hx _ hmore, hy _ hne⟩

theorem whole_flatten {pieces : List Code} (h : ∀ piece ∈ pieces, Whole piece) :
    Whole pieces.flatten := by
  induction pieces with
  | nil => exact whole_nil
  | cons piece pieces ih =>
    have hpieces := List.forall_mem_cons.mp h
    exact hpieces.1.append (ih hpieces.2)

/-- The last line of code that joins anything is no test. -/
theorem Whole.isTest_getLast (h : Whole xs) (hl : xs.getLast? = some line) :
    line.instruction.opcode.isTest = false := by
  rw [List.getLast?_eq_getElem?] at hl
  have hlt := (List.getElem?_eq_some_iff.mp hl).1
  cases ht : line.instruction.opcode.isTest with
  | false => rfl
  | true =>
    -- In front of a line that is no jump it could not be one.
    have hjoins := (h [⟨⟨.move, .zero, 0⟩, none⟩] (List.cons_ne_nil _ _)).getElem hl
    obtain ⟨jump, rest, hjump, hop⟩ := hjoins.tests ht
    rw [List.drop_eq_nil_of_le (by omega), List.nil_append] at hjump
    obtain ⟨rfl, -⟩ := List.cons.inj hjump
    cases hop

theorem open_append (h : ∀ line, xs.getLast? = some line → line.instruction.opcode.isTest = false)
    (next : Code) : (xs ++ next).Open xs.length := by
  intro line hpos hline
  rw [List.getElem?_append_left (by omega)] at hline
  exact h line (by rw [List.getLast?_eq_getElem?, hline])

theorem Whole.open (h : Whole xs) (next : Code) : (xs ++ next).Open xs.length :=
  open_append (fun _ => h.isTest_getLast) next

/-- Behind a jump that follows some code. -/
theorem open_behind_jump {exit : Line} (h : exit.instruction.opcode = .jump) (next : Code) :
    (xs ++ exit :: next).Open (xs.length + 1) := by
  intro line _ hline
  rw [Nat.add_sub_cancel, List.getElem?_append_right (Nat.le_refl _), Nat.sub_self,
    List.getElem?_cons_zero, Option.some.injEq] at hline
  rw [← hline, h]
  rfl

end Code

namespace Instruction

variable {i : Instruction} {behind : Code}

theorem isTest_of_leap? {d : Int} (h : i.leap? = some d) : i.opcode.isTest = false := by
  unfold leap? at h
  split at h
  · rename_i hop
    rw [hop]
    rfl
  · rename_i hop
    rw [hop]
    rfl
  · cases h

/-- Most instructions need nothing behind them. -/
theorem joins_of_plain (ht : i.opcode.isTest = false) (hl : i.leap? = none)
    (hr : i.opcode ≠ .return) : i.Joins behind where
  tests h := by rw [ht] at h; cases h
  leaps d h := by rw [hl] at h; cases h
  stays := hr

theorem joins_of_test {jump : Line} {rest : Code} (ht : i.opcode.isTest)
    (hj : jump.instruction.opcode = .jump) : i.Joins (jump :: rest) where
  tests _ := ⟨jump, rest, rfl, hj⟩
  leaps d h := by rw [isTest_of_leap? h] at ht; cases ht
  stays h := by rw [h] at ht; cases ht

theorem joins_of_leap {n : Nat} (ht : i.opcode.isTest = false) (hr : i.opcode ≠ .return)
    (hl : i.leap? = some (n : Int)) (hn : n < behind.length) (ho : behind.Open n) :
    i.Joins behind where
  tests h := by rw [ht] at h; cases h
  leaps d h := by
    obtain rfl := Option.some.inj (hl.symm.trans h)
    exact ⟨n, rfl, hn, ho⟩
  stays := hr

end Instruction

namespace Code

variable {lines : Nat} {jump code last next : Code} {pieces : List Code}

theorem Jump.joins (h : jump.Jump lines) (hn : lines < next.length) (ho : next.Open lines) :
    jump.Joins next := by
  obtain ⟨i, location, rfl, hop, hd⟩ := h
  refine joins_singleton.mpr (Instruction.joins_of_leap ?_ ?_ ?_ hn ho)
  · simp [hop, Opcode.isTest]
  · simp [hop]
  · simp [Instruction.leap?, hop, hd]

theorem Exiting.joins_jump {piece next : Code} (h : Exiting piece) (hj : jump.Jump lines)
    (hne : next ≠ []) : piece.Joins (jump ++ next) := by
  obtain ⟨i, location, rfl, hop, -⟩ := hj
  exact h _ next hop hne

/-- Pieces that each end in a jump to the end of the last one. -/
theorem Exits.joins (h : Exits last pieces code) (hp : ∀ piece ∈ pieces, Exiting piece)
    (hl : ∀ line, last.getLast? = some line → line.instruction.opcode.isTest = false)
    (hne : next ≠ []) (hlast : last.Joins next) :
    code.Joins next ∧ ∀ line, code.getLast? = some line → line.instruction.opcode.isTest = false := by
  induction h with
  | last => exact ⟨hlast, hl⟩
  | @piece piece exit rest pieces jump _ ih =>
    have hpieces := List.forall_mem_cons.mp hp
    have hrest := ih hpieces.2
    have hnext : rest ++ next ≠ [] := by simp [hne]
    have hlt : rest.length < (rest ++ next).length := by
      have := List.length_pos_iff.mpr hne
      rw [List.length_append]
      omega
    constructor
    · refine joins_append.mpr ⟨?_, joins_append.mpr ⟨?_, hrest.1⟩⟩
      · rw [List.append_assoc]
        exact hpieces.1.joins_jump jump hnext
      · exact jump.joins hlt (open_append hrest.2 next)
    · intro line hline
      obtain ⟨i, location, rfl, hop, -⟩ := jump
      cases hlines : rest.getLast? with
      | none =>
        obtain rfl := List.getLast?_eq_none_iff.mp hlines
        rw [List.append_nil, List.getLast?_append, List.getLast?_singleton, Option.some_or,
          Option.some.injEq] at hline
        rw [← hline, hop]
        rfl
      | some l =>
        rw [List.getLast?_append, List.getLast?_append, hlines, Option.some_or, Option.some_or] at hline
        exact hrest.2 line (hlines.trans hline)

/-- A test, and behind it a jump over one piece and the jump at its end, to another piece. -/
theorem Exiting.branch {test toElse piece exit other : Code} (ht : Exiting test)
    (hj : toElse.Jump (piece.length + 1)) (hp : Whole piece) (he : exit.Jump other.length)
    (ho : Whole other) : Whole (test ++ toElse ++ piece ++ exit ++ other) := by
  intro next hne
  have hlength : exit.length = 1 := he.length
  have hpos := List.length_pos_iff.mpr hne
  simp only [joins_append, List.append_assoc]
  refine ⟨ht.joins_jump hj (by simp [hne]), ?_, hp _ (by simp [hne]), ?_, ho _ hne⟩
  · refine hj.joins (by simp only [List.length_append, hlength]; omega) ?_
    obtain ⟨i, location, rfl, hop, -⟩ := he
    exact open_behind_jump hop _
  · exact he.joins (by rw [List.length_append]; omega) (ho.open next)

/-- A test, and behind it a jump over one piece and the jump that is to come. -/
theorem Exiting.clause {test toNext piece : Code} (ht : Exiting test)
    (hj : toNext.Jump (piece.length + 1)) (hp : Whole piece) :
    Exiting (test ++ toNext ++ piece) := by
  intro exit next hop hne
  have hpos := List.length_pos_iff.mpr hne
  simp only [joins_append, List.append_assoc]
  refine ⟨ht.joins_jump hj (by simp), ?_, hp _ (List.cons_ne_nil _ _)⟩
  refine hj.joins ?_ (open_behind_jump hop next)
  rw [List.length_append, List.length_cons]
  omega

/-- Code in front of a return. -/
theorem Joins.guarded {line : Line} (h : code.Joins [line])
    (hr : line.instruction.opcode = .return) : Guarded (code ++ [line]) := by
  have hreturn {l : Line} {i : Nat} (hl : (code ++ [line])[i]? = some l)
      (hop : l.instruction.opcode ≠ .return) : code[i]? = some l := by
    rw [List.getElem?_append] at hl
    split at hl
    · exact hl
    · obtain rfl := List.mem_singleton.mp (List.mem_of_getElem? hl)
      exact absurd hr hop
  have hjoins {l : Line} {i : Nat} (hl : (code ++ [line])[i]? = some l)
      (hop : l.instruction.opcode ≠ .return) :
      l.instruction.Joins ((code ++ [line]).drop (i + 1)) := by
    have hcode := hreturn hl hop
    have hlt := (List.getElem?_eq_some_iff.mp hcode).1
    rw [List.drop_append_of_le_length (by omega)]
    exact h.getElem hcode
  constructor
  case tests =>
    intro i l hl ht
    have hop : l.instruction.opcode ≠ .return := by
      intro hop
      rw [hop] at ht
      cases ht
    obtain ⟨jump, rest, hdrop, hjump⟩ := (hjoins hl hop).tests ht
    refine ⟨jump, ?_, hjump⟩
    have hfirst := congrArg (·[0]?) hdrop
    simpa using hfirst
  case forward =>
    intro l hl hop
    obtain ⟨i, hi⟩ := List.mem_iff_getElem?.mp hl
    have hleap : l.instruction.leap? = some l.instruction.displacement := by
      simp [Instruction.leap?, hop]
    obtain ⟨n, hn, -⟩ := (hjoins hi (by simp [hop])).leaps _ hleap
    rw [hn]
    exact Int.natCast_nonneg n
  case leaps =>
    intro i l d hl hd
    have hop : l.instruction.opcode ≠ .return := by
      intro hop
      simp [Instruction.leap?, hop] at hd
    obtain ⟨n, rfl, hlt, hopen⟩ := (hjoins hl hop).leaps d hd
    rw [List.length_drop] at hlt
    refine ⟨i + 1 + n, by omega, by omega, fun above habove => ?_⟩
    by_cases hn : n = 0
    · -- The next line: what stands above it is the leap itself.
      subst hn
      obtain rfl : l = above := Option.some.inj (hl.symm.trans habove)
      exact Instruction.isTest_of_leap? hd
    · refine hopen above (by omega) ?_
      rw [List.getElem?_drop]
      rwa [show i + 1 + (n - 1) = i + 1 + n - 1 by omega]
  case returns =>
    refine ⟨code, line, rfl, hr, fun l hl => ?_⟩
    obtain ⟨i, hi⟩ := List.mem_iff_getElem?.mp hl
    exact (h.getElem hi).stays

end Code

end RegisterScheme
