import Mathlib.Order.Filter.AtTopBot.Basic
import RegisterScheme.Machine.Run
import RegisterScheme.Proofs.Outcome

/-! The machine as a loop over line numbers. Nothing in it keeps a run from going on for ever: jumps
lead in either direction, and calls are counted up to the limit, if there is one. Only a clock cuts
it off. If the machine ends with a value or an error, the loop ends in the same way as soon as the
clock is large enough. -/

namespace RegisterScheme

open Filter

/-- Where control goes after a line: to some line, or out of the procedure. -/
inductive Control where
  | goto (line : Int)
  | done (v : Value)

def Continuation.control (line : Int) : Continuation → Control
  | .skip lines => .goto (line + 1 + lines)
  | .done v => .done v

/-- The line of a number, if the code has one. -/
def Template.line? (t : Template) (line : Int) : Option Line :=
  if line < 0 then none else t.code[line.toNat]?

namespace Running

/-- One turn of the loop. A jump goes by its displacement, whatever the sign. -/
def turn (caching : Bool) (call : Value → List Value → Running Value) (here : Activation)
    (line : Int) (i : Instruction) : Running Control :=
  if i.opcode = .jump then return .goto (line + 1 + i.displacement)
  else do return (← step caching call here i).control line

/-- The loop from a line on, cut off after so many turns. -/
def loop (caching : Bool) (call : Value → List Value → Running Value) (here : Activation) :
    (turns : Nat) → (line : Int) → Running Value
  | 0, _ => throw .unfinished
  | turns + 1, line =>
    match here.closure.template.line? line with
    | none => fault (.pastLastInstruction here.closure.template.displayName)
    | some ⟨i, location⟩ => do
      match ← located location (turn caching call here line i) with
      | .done v => return v
      | .goto next => loop caching call here turns next

/-- What the loop does after a turn. -/
def afterTurn (caching : Bool) (call : Value → List Value → Running Value) (here : Activation)
    (turns : Nat) : Control → Running Value
  | .done v => return v
  | .goto next => loop caching call here turns next

end Running

namespace Machine

open Running

/-- A call while so many others are active. -/
def loopClosure (m : Machine) : (clock active : Nat) → Closure → List Value → Running Value
  | 0, _, _, _ => throw .unfinished
  | clock + 1, active, c, args =>
    match m.callLimit.filter (· ≤ active) with
    | some limit => throw (.runtime (.callDepth limit))
    | none => inProcedure c.template.displayName do
      let here : Activation := ⟨← newFrame c, c⟩
      bindArguments (m.loopClosure clock (active + 1) · []) here args
      loop m.caching (m.applyWith (m.loopClosure clock (active + 1))) here clock 0

/-- Calls any procedure, in loops. -/
def loopApply (m : Machine) (clock : Nat) (callee : Value) (args : List Value) : Running Value :=
  m.applyWith (m.loopClosure clock 0) callee args

/-- Runs the template of a program, in loops. -/
def loopExecute (m : Machine) (clock : Nat) (t : Template) : Running Value := do
  m.loopClosure clock 0 (← newClosure t none) []

end Machine

/-- A computation has ended with an answer or an error. -/
def Ended {α : Type} : EStateM.Result Failure Store α → Prop
  | .ok _ _ => True
  | .error e _ => e.IsError

/-- If a computation ends, then others are the same once their clock is large enough. -/
def Approaches {α : Type} (x : Nat → Running α) (y : Running α) : Prop :=
  ∀ s, Ended (y s) → ∀ᶠ clock in atTop, x clock s = y s

namespace Approaches

variable {α β : Type} {x : Nat → Running α} {y : Running α}

theorem const (y : Running α) : Approaches (fun _ => y) y := fun _ _ => .of_forall fun _ => rfl

theorem of_failure {e : Failure} (h : ¬ e.IsError) : Approaches x (throw e) :=
  fun _ he => absurd he h

theorem bind {f : Nat → α → Running β} {g : α → Running β} (hx : Approaches x y)
    (hf : ∀ a, Approaches (f · a) (g a)) :
    Approaches (fun clock => x clock >>= f clock) (y >>= g) := by
  intro s he
  cases hy : y s with
  | ok a s' =>
    rw [bind_of_ok hy] at he ⊢
    filter_upwards [hx s (by rw [hy]; trivial), hf a s' he] with clock hclock hrest
    rw [bind_of_ok (hclock.trans hy), hrest]
  | error e s' =>
    rw [bind_of_error hy] at he ⊢
    filter_upwards [hx s (by rwa [hy])] with clock hclock
    exact bind_of_error (hclock.trans hy)

/-- Failures that are caught, changed and thrown again. -/
theorem rethrow {change : Failure → Failure} (hc : ∀ e, (change e).IsError → e.IsError)
    (hx : Approaches x y) :
    Approaches (fun clock => tryCatch (x clock) fun e => throw (change e))
      (tryCatch y fun e => throw (change e)) := by
  intro s he
  cases hy : y s with
  | ok a s' =>
    rw [tryCatch_of_ok hy]
    filter_upwards [hx s (by rw [hy]; trivial)] with clock hclock
    exact tryCatch_of_ok (hclock.trans hy)
  | error e s' =>
    rw [tryCatch_of_error hy] at he ⊢
    filter_upwards [hx s (by rw [hy]; exact hc e he)] with clock hclock
    exact tryCatch_of_error (hclock.trans hy)

theorem located (place : Option Location) (hx : Approaches x y) :
    Approaches (fun clock => Running.located place (x clock)) (Running.located place y) :=
  hx.rethrow fun e h => by cases e <;> exact h

theorem inProcedure (name : String) (hx : Approaches x y) :
    Approaches (fun clock => Running.inProcedure name (x clock)) (Running.inProcedure name y) :=
  hx.rethrow fun e h => by cases e <;> exact h

theorem forIn {γ : Type} {f : Nat → γ → β → Running (ForInStep β)}
    {g : γ → β → Running (ForInStep β)} (h : ∀ c b, Approaches (f · c b) (g c b)) (l : List γ)
    (b : β) : Approaches (fun clock => ForIn.forIn l b (f clock)) (ForIn.forIn l b g) := by
  induction l generalizing b with
  | nil => exact .const _
  | cons c l ih =>
    simp only [List.forIn_cons]
    refine (h c b).bind fun next => ?_
    cases next with
    | done b => exact .const _
    | yield b => exact ih b

theorem congr {x' : Nat → Running α} (h : ∀ᶠ clock in atTop, x clock = x' clock)
    (hx : Approaches x' y) : Approaches x y := by
  intro s he
  filter_upwards [h, hx s he] with clock hsame hclock
  rw [hsame, hclock]

/-- The first tick of the clock may be spent. -/
theorem succ {x : Nat → Running α} (h : Approaches (fun clock => x (clock + 1)) y) :
    Approaches x y := by
  intro s he
  obtain ⟨least, hleast⟩ := eventually_atTop.mp (h s he)
  refine eventually_atTop.mpr ⟨least + 1, fun clock hclock => ?_⟩
  obtain ⟨before, rfl⟩ := Nat.exists_eq_add_of_lt hclock
  exact hleast (least + before) (Nat.le_add_right _ _)

end Approaches

namespace Running

variable {caching : Bool} {calls : Nat → Value → List Value → Running Value}
  {call : Value → List Value → Running Value} {here : Activation}

/-- Only calls depend on how procedures are called. -/
theorem step_congr {i : Instruction} (hi : i.opcode ≠ .call)
    (call' : Value → List Value → Running Value) :
    step caching call' here i = step caching call here i := by
  unfold step
  cases ho : i.opcode <;> first | rfl | exact absurd ho hi

theorem step_approaches (h : ∀ v args, Approaches (calls · v args) (call v args))
    (i : Instruction) :
    Approaches (fun clock => step caching (calls clock) here i) (step caching call here i) := by
  by_cases hi : i.opcode = .call
  · unfold step
    simp only [hi]
    refine .bind (.const _) fun callee => .bind (.const _) fun arguments =>
      .bind (h callee arguments) fun v => ?_
    exact .const _
  · have hsame (clock : Nat) : step caching (calls clock) here i = step caching call here i :=
      step_congr hi (calls clock)
    simp only [hsame]
    exact .const _

theorem located_map {α β : Type} (place : Option Location) (x : Running α) (f : α → β) :
    located place (do return f (← x)) = (do return f (← located place x)) := by
  funext s
  cases hx : x s with
  | ok a s' =>
    have hlocated : located place x s = .ok a s' := tryCatch_of_ok hx
    rw [bind_of_ok hlocated]
    exact tryCatch_of_ok (bind_of_ok hx)
  | error e s' =>
    have hlocated : located place x s = .error (e.located place) s' := tryCatch_of_error hx
    rw [bind_of_error hlocated]
    exact tryCatch_of_error (bind_of_error hx)

theorem loop_succ {line : Int} {i : Instruction} {location : Option Location}
    (h : here.closure.template.line? line = some ⟨i, location⟩) (turns : Nat) :
    loop caching call here (turns + 1) line =
      located location (turn caching call here line i) >>=
        afterTurn caching call here turns := by
  rw [loop, h]
  rfl

/-- The loop at a line goes on as the code from that line on does. A clock that is still larger than
the rest of the code is large enough for all turns, since the machine takes no jump back. -/
theorem loop_approaches (h : ∀ v args, Approaches (calls · v args) (call v args))
    {rest : List Line} {first : Nat} (hrest : here.closure.template.code.drop first = rest)
    (skip : Nat) {turns : Nat → Nat} (ht : ∀ᶠ clock in atTop, rest.length < turns clock) :
    Approaches (fun clock => loop caching (calls clock) here (turns clock) (first + skip : Nat))
      (exec caching call here rest skip) := by
  induction rest generalizing first skip turns with
  | nil => exact .of_failure id
  | cons line rest ih =>
    obtain ⟨hline, hdrop⟩ : here.closure.template.code[first]? = some line ∧
        here.closure.template.code.drop (first + 1) = rest := by
      refine ⟨?_, ?_⟩
      · rw [← List.head?_drop, hrest, List.head?_cons]
      · rw [← List.tail_drop, hrest, List.tail_cons]
    cases skip with
    | succ skip =>
      have hlong : ∀ᶠ clock in atTop, rest.length < turns clock := by
        filter_upwards [ht] with clock hclock
        exact Nat.lt_of_succ_lt hclock
      have hgo := ih hdrop skip hlong
      rwa [Nat.add_right_comm] at hgo
    | zero =>
      obtain ⟨i, location⟩ := line
      have hat : here.closure.template.line? (first : Nat) = some ⟨i, location⟩ := by
        rw [Template.line?, if_neg (Int.not_lt.mpr (Int.natCast_nonneg first)), Int.toNat_natCast,
          hline]
      have hlong : ∀ᶠ clock in atTop, rest.length < turns clock - 1 := by
        filter_upwards [ht] with clock hclock
        exact Nat.lt_sub_of_add_lt hclock
      -- the rest of the loop, once control has left this line
      have hgo (lines : Nat) : Approaches
          (fun clock => loop caching (calls clock) here (turns clock - 1) (first + 1 + lines : Int))
          (exec caching call here rest lines) := by
        exact_mod_cast ih hdrop lines hlong
      have hturn : ∀ᶠ clock in atTop,
          loop caching (calls clock) here (turns clock) (first : Nat) =
            located location (turn caching (calls clock) here first i) >>=
              afterTurn caching (calls clock) here (turns clock - 1) := by
        filter_upwards [ht] with clock hclock
        obtain ⟨before, hbefore⟩ := Nat.exists_eq_succ_of_ne_zero (Nat.ne_zero_of_lt hclock)
        rw [hbefore]
        exact loop_succ hat before
      refine .congr hturn ?_
      rw [exec]
      by_cases hi : i.opcode = .jump
      · simp only [turn, step, hi, if_true]
        by_cases hd : i.displacement < 0
        · rw [if_pos hd]
          exact .of_failure id
        · rw [if_neg hd]
          have hjump := hgo i.displacement.toNat
          rwa [Int.toNat_of_nonneg (Int.not_lt.mp hd)] at hjump
      · simp only [turn, if_neg hi, located_map, bind_assoc]
        refine ((step_approaches h i).located location).bind fun next => ?_
        cases next with
        | done v => exact .const _
        | skip lines => exact hgo lines

theorem bindArguments_approaches {runs : Nat → Closure → Running Value} {run : Closure → Running Value}
    (h : ∀ c, Approaches (runs · c) (run c)) (here : Activation) (args : List Value) :
    Approaches (fun clock => bindArguments (runs clock) here args) (bindArguments run here args) := by
  unfold bindArguments
  refine .bind (.const _) fun dealing => ?_
  refine .bind (.const _) fun _ => ?_
  have hdefault (p : Register × Nat) (u : PUnit) : Approaches
      (fun clock => do
        let default ← ofExcept ((here.closure.template.nested p.2).mapError .fault)
        setRegister here.address p.1 (← runs clock (← newClosure default here.address))
        return ForInStep.yield u)
      (do
        let default ← ofExcept ((here.closure.template.nested p.2).mapError .fault)
        setRegister here.address p.1 (← run (← newClosure default here.address))
        return ForInStep.yield u) :=
    .bind (.const _) fun default => .bind (.const _) fun c => .bind (h c) fun v => .const _
  have hdefaults := (Approaches.forIn hdefault dealing.defaults ⟨⟩).bind fun _ => .const (pure ())
  cases dealing.rest with
  | none => exact hdefaults
  | some rest => exact .bind (.const _) fun _ => .bind (.const _) fun _ => hdefaults

end Running

namespace Machine

open Running

variable {m : Machine}

theorem applyWith_approaches {runs : Nat → Closure → List Value → Running Value}
    {run : Closure → List Value → Running Value}
    (h : ∀ c args, Approaches (runs · c args) (run c args)) (callee : Value) (args : List Value) :
    Approaches (fun clock => m.applyWith (runs clock) callee args) (m.applyWith run callee args) := by
  cases callee with
  | closure c => exact h c args
  | native | atom | unspecified | pair | vector | template => exact .const _

/-- Calls that are counted up to the limit are those that are counted down from it. -/
theorem loopClosure_approaches {limit : Nat} (hl : m.callLimit = some limit) {active remaining : Nat}
    (h : active + remaining = limit) (c : Closure) (args : List Value) :
    Approaches (fun clock => m.loopClosure clock active c args) (m.callClosure remaining c args) := by
  induction remaining generalizing active c args with
  | zero =>
    obtain rfl : active = limit := h
    refine .succ ?_
    have hrefused (clock : Nat) : m.loopClosure (clock + 1) active c args =
        throw (.runtime (.callDepth active)) := by
      rw [loopClosure, hl, Option.filter_some, if_pos (decide_eq_true (Nat.le_refl active))]
    rw [callClosure, hl]
    simp only [hrefused]
    exact .const _
  | succ remaining ih =>
    refine .succ ?_
    have hadmitted : m.callLimit.filter (· ≤ active) = none := by
      rw [hl, Option.filter_eq_none_iff]
      rintro _ ⟨⟩
      simp only [decide_eq_true_eq]
      omega
    simp only [loopClosure, callClosure, hadmitted]
    have hcall := @ih (active + 1) (by omega)
    refine .inProcedure _ (.bind (.const _) fun address => ?_)
    refine .bind (bindArguments_approaches (hcall · []) _ args) fun _ => ?_
    exact loop_approaches (applyWith_approaches hcall) List.drop_zero 0
      (eventually_gt_atTop c.template.code.length)

end Machine

end RegisterScheme
