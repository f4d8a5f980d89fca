import RegisterScheme.Proofs.Simulation.Variables

/-! How a call fills the registers of its parameters, stage by stage: arguments, the list of the
rest, and then the defaults, each computed in the frame as it is by then. -/

namespace RegisterScheme

/-- Enough marks for the keys are enough for all keywords. -/
theorem Dealing.unmarked?_eq_none {δ : Type} {keys : List (Formal δ)} {marks : Nat}
    (h : keys.length ≤ marks) : (args : List Value) → unmarked? keys marks args = none
  | [] => rfl
  | [_] => rfl
  | k :: v :: rest => by
    rw [unmarked?]
    cases hi : (keyword? k).bind fun name => keys.findIdx? fun p => p.name == name with
    | none => rfl
    | some index =>
      obtain ⟨name, -, hindex⟩ := Option.bind_eq_some_iff.mp hi
      have hlt : index < keys.length := (List.findIdx?_eq_some_iff_findIdx_eq.mp hindex).1
      exact (if_pos (Nat.lt_of_lt_of_le hlt h)).trans (unmarked?_eq_none h rest)

theorem Template.unmarked?_eq_none {t : Template} (h : (t.parameters .key).length ≤ t.keys)
    (args : List Value) : t.unmarked? args = none := by
  have hkeys : t.formals.keys.length ≤ t.keys := by rwa [formals, List.length_map]
  rw [unmarked?]
  split
  · exact Dealing.unmarked?_eq_none hkeys _
  · rfl

namespace Running

/-- Values go into their registers. -/
def fill (address : Nat) : List (Register × Value) → Running Unit
  | [] => return
  | (r, v) :: rest => do
    setRegister address r v
    fill address rest

def fillRest (address : Nat) : Option (Register × List Value) → Running Unit
  | none => return
  | some (r, items) => do setRegister address r (← allocating (Allocating.list items))

def fillDefaults (run : Closure → Running Value) (here : Activation) :
    List (Register × Nat) → Running Unit
  | [] => return
  | (r, index) :: rest => do
    let default ← ofExcept ((here.closure.template.nested index).mapError .fault)
    setRegister here.address r (← run (← newClosure default here.address))
    fillDefaults run here rest

theorem forIn_fill (address : Nat) (values : List (Register × Value)) :
    (do for (r, v) in values do setRegister address r v) = fill address values := by
  induction values with
  | nil => rfl
  | cons p values ih =>
    rw [fill, ← ih]
    simp

theorem forIn_fillDefaults (run : Closure → Running Value) (here : Activation)
    (defaults : List (Register × Nat)) :
    (do
      for (r, index) in defaults do
        let default ← ofExcept ((here.closure.template.nested index).mapError .fault)
        setRegister here.address r (← run (← newClosure default here.address))) =
      fillDefaults run here defaults := by
  induction defaults with
  | nil => rfl
  | cons p defaults ih =>
    rw [fillDefaults, ← ih]
    simp

variable {run : Closure → Running Value} {here : Activation} {args : List Value}

theorem deal_of_error {c : Closure} {misfit : Misfit} (hk : c.template.unmarked? args = none)
    (h : Dealing.ofArguments c.template.formals args = .error misfit) :
    deal c args = throw (.arity c.template.arity args.length
      (some (c.template.displayName ++ misfit.text)) none) := by
  rw [deal, hk, h]

theorem deal_of_ok {c : Closure} {x : Dealing Nat} (hk : c.template.unmarked? args = none)
    (h : Dealing.ofArguments c.template.formals args = .ok x) : deal c args = pure x := by
  rw [deal, hk, h]

theorem bindArguments_eq : bindArguments run here args = (do
    let x ← deal here.closure args
    fill here.address x.values
    fillRest here.address x.rest
    fillDefaults run here x.defaults) := by
  rw [bindArguments]
  congr 1
  funext x
  rw [← forIn_fill, ← forIn_fillDefaults]
  obtain ⟨values, rest, defaults⟩ := x
  cases rest with
  | none => simp [fillRest]
  | some p => simp [fillRest]

theorem bindArguments_of_error {misfit : Misfit}
    (hk : here.closure.template.unmarked? args = none)
    (h : Dealing.ofArguments here.closure.template.formals args = .error misfit) :
    bindArguments run here args = throw (.arity here.closure.template.arity args.length
      (some (here.closure.template.displayName ++ misfit.text)) none) := by
  rw [bindArguments_eq, deal_of_error hk h]
  rfl

theorem bindArguments_of_ok {x : Dealing Nat} (hk : here.closure.template.unmarked? args = none)
    (h : Dealing.ofArguments here.closure.template.formals args = .ok x) :
    bindArguments run here args = (do
      fill here.address x.values
      fillRest here.address x.rest
      fillDefaults run here x.defaults) := by
  rw [bindArguments_eq, deal_of_ok hk h, pure_bind]

end Running

end RegisterScheme
