import RegisterScheme.Proofs.Evaluation.Evaluate
import RegisterScheme.Proofs.Simulation.Outcome
import RegisterScheme.Proofs.Simulation.Variables
import RegisterScheme.Proofs.Template.Room

/-! Pieces of the code of a procedure. A piece does what a part of an expression means, and ends
with some of the lines behind it to be skipped. -/

namespace RegisterScheme

namespace Running

/-- Code up to its end, from some line on. -/
def through (caching : Bool) (call : Value → List Value → Running Value) (here : Activation) :
    Code → (skip : Nat) → Running Continuation
  | [], skip => return .skip skip
  | _ :: rest, skip + 1 => through caching call here rest skip
  | line :: rest, 0 => do
    match ← located line.location (step caching call here line.instruction) with
    | .done v => return .done v
    | .skip lines => through caching call here rest lines

variable {caching : Bool} {call : Value → List Value → Running Value} {here : Activation}

theorem through_append (xs ys : Code) (skip : Nat) :
    through caching call here (xs ++ ys) skip = through caching call here xs skip >>= fun k =>
      match k with
      | .done v => return .done v
      | .skip lines => through caching call here ys lines := by
  induction xs generalizing skip with
  | nil => simp only [List.nil_append, through, pure_bind]
  | cons line rest ih =>
    cases skip with
    | succ skip => exact ih skip
    | zero =>
      simp only [List.cons_append, through, bind_assoc]
      refine bind_congr fun k => ?_
      cases k with
      | done v => simp only [pure_bind]
      | skip lines => exact ih lines

theorem exec_append (xs ys : Code) (skip : Nat) :
    exec caching call here (xs ++ ys) skip = through caching call here xs skip >>= fun k =>
      match k with
      | .done v => return v
      | .skip lines => exec caching call here ys lines := by
  induction xs generalizing skip with
  | nil => simp only [List.nil_append, through, pure_bind]
  | cons line rest ih =>
    cases skip with
    | succ skip => exact ih skip
    | zero =>
      simp only [List.cons_append, through, exec, bind_assoc]
      refine bind_congr fun k => ?_
      cases k with
      | done v => simp only [pure_bind]
      | skip lines => exact ih lines

theorem through_skipped (xs ys : Code) (n : Nat) :
    through caching call here (xs ++ ys) (xs.length + n) = through caching call here ys n := by
  induction xs with
  | nil => rw [List.nil_append, List.length_nil, Nat.zero_add]
  | cons line rest ih =>
    rw [List.length_cons, Nat.add_right_comm]
    exact ih

theorem located_of_ok {α : Type} {act : Running α} {s s' : Store} {a : α}
    (h : act s = .ok a s') (place : Option Location) : located place act s = .ok a s' :=
  tryCatch_of_ok h

end Running

/-- Where code of a procedure runs, with the scopes around it, and what calls do. -/
structure Setting (scope : Scope) (outer : List Scope) where
  machine : Machine
  natives : Nat → Prop
  call : Value → List Value → Running Value
  evaluateCall : Value → List Value → Evaluating Value
  here : Activation
  tempBase_eq : here.closure.template.tempBase = scope.registers
  calls : ∀ (w : World) (s : Store), s.Agrees natives w → ∀ callee args,
    callee.BuiltFrom w.Known natives → (∀ v ∈ args, v.BuiltFrom w.Known natives) →
    Simulates machine natives (fun _ _ => True) w s (evaluateCall callee args) (call callee args)
      fun v u w' _ => u = v ∧ v.BuiltFrom w'.Known natives

namespace Setting

variable {scope : Scope} {outer : List Scope} (σ : Setting scope outer)

def template : Template := σ.here.closure.template

def room : Room := σ.template.room

/-- The states in which the procedure may run. -/
structure Ready (w : World) (s : Store) : Prop where
  agrees : s.Agrees σ.natives w
  known : ∃ f, w.KnownAs σ.here.closure f outer ∧ f.scope = scope
  environment : ∃ e, w.environments[σ.here.address]? = some e ∧ e.closure = σ.here.closure

/-- A register of the frame holds a value. -/
def Holds (s : Store) (r : Nat) (v : Value) : Prop := s.register? σ.here.address r = some v

def Built (w : World) (v : Value) : Prop := v.BuiltFrom w.Known σ.natives

/-- Of the frame only the temporaries in a set need to be kept, of other frames all. -/
def kept (P : Nat → Prop) : Nat → Nat → Prop :=
  fun a i => a = σ.here.address → scope.registers ≤ i → P i

abbrev Moves (P : Nat → Prop) (w : World) (s : Store) (w' : World) (s' : Store) : Prop :=
  RegisterScheme.Moves σ.natives (σ.kept P) w s w' s'

def run (code : Code) (skip : Nat) : Running Continuation :=
  Running.through σ.machine.caching σ.call σ.here code skip

/-- A piece of code does what a part of evaluation does, and then leads so many lines behind its
end. -/
def Runs {α : Type} (P : Nat → Prop) (w : World) (s : Store) (x : Evaluating α) (code : Code)
    (skip : Nat) (Q : α → Nat → World → Store → Prop) : Prop :=
  Simulates σ.machine σ.natives (σ.kept P) w s x (σ.run code skip) fun a k w' s' =>
    ∃ n, k = .skip n ∧ Q a n w' s'

variable {σ} {P P' : Nat → Prop} {w w' : World} {s s' : Store} {r : Nat} {v : Value}

theorem Built.grows (h : σ.Built w v) (hg : w.Grows w') : σ.Built w' v :=
  h.mono fun _ hc => hc.grows hg

theorem Ready.moves {K : Nat → Nat → Prop} (h : σ.Ready w s)
    (hm : RegisterScheme.Moves σ.natives K w s w' s') : σ.Ready w' s' where
  agrees := hm.agrees
  known := by
    obtain ⟨f, hf, hs⟩ := h.known
    exact ⟨f, hf.grows hm.grows, hs⟩
  environment := by
    obtain ⟨e, he, hc⟩ := h.environment
    obtain ⟨e', he', hc'⟩ := hm.grows.environments _ e he
    exact ⟨e', he', hc'.trans hc⟩

theorem Ready.encloses (h : σ.Ready w s) :
    w.Encloses (some σ.here.address) (scope :: outer) := by
  obtain ⟨f, hf, rfl⟩ := h.known
  obtain ⟨e, he, hc⟩ := h.environment
  exact hf.encloses he hc

theorem Ready.isSome (h : σ.Ready w s) (hr : r < σ.room.frameSize) :
    (s.register? σ.here.address r).isSome := by
  obtain ⟨e, he, hc⟩ := h.environment
  exact h.agrees.register_isSome he (hc ▸ hr)

/-- Registers of variables hold their values. -/
theorem Ready.holds_variable (h : σ.Ready w s) {e : Environment}
    (he : w.environments[σ.here.address]? = some e) {r : Register}
    (hr : r.val < scope.registers) : σ.Holds s r (e.values r) := by
  obtain ⟨e', he', hc⟩ := h.environment
  obtain rfl : e = e' := Option.some.inj (he.symm.trans he')
  exact h.agrees.variable_eq he (by rw [hc, σ.tempBase_eq]; exact hr)

/-- Temporaries that are kept hold what they held. -/
theorem Holds.moves (h : σ.Holds s r v) (hw : σ.Ready w s) (hm : σ.Moves P w s w' s')
    (hr : scope.registers ≤ r) (hP : P r) : σ.Holds s' r v := by
  obtain ⟨e, he, hc⟩ := hw.environment
  refine (hm.kept _ e r he ?_ fun _ _ => hP).trans h
  rwa [hc, σ.tempBase_eq]

theorem getRegister_eq (h : σ.Holds s r v) :
    Running.getRegister σ.here.address r s = .ok v s :=
  Running.getRegister_eq h

theorem run_append (xs ys : Code) (n : Nat) :
    σ.run (xs ++ ys) n = σ.run xs n >>= fun k =>
      match k with
      | .done v => return .done v
      | .skip lines => σ.run ys lines :=
  Running.through_append xs ys n

theorem run_skipped (xs ys : Code) (n : Nat) :
    σ.run (xs ++ ys) (xs.length + n) = σ.run ys n :=
  Running.through_skipped xs ys n

/-- One line whose instruction does not fail. -/
theorem run_line {i : Instruction} {k : Continuation} (location : Option Location)
    (h : Running.step σ.machine.caching σ.call σ.here i s = .ok k s') :
    σ.run [⟨i, location⟩] 0 s = .ok k s' := by
  change (Running.located location (Running.step σ.machine.caching σ.call σ.here i) >>= _) s = _
  rw [bind_of_ok (Running.located_of_ok h location)]
  cases k with
  | done v => rfl
  | skip n => rfl

namespace Runs

variable {α β : Type} {x : Evaluating α} {f : α → Evaluating β} {xs ys : Code} {n : Nat}
  {Q R : α → Nat → World → Store → Prop} {S : β → Nat → World → Store → Prop}

theorem mono {T : Nat → Prop} (h : σ.Runs P w s x xs n Q)
    (hP : ∀ i, scope.registers ≤ i → T i → P i)
    (hq : ∀ a k w' s', σ.Moves P w s w' s' → Q a k w' s' → R a k w' s') :
    σ.Runs T w s x xs n R :=
  Simulates.mono h (fun _ i hk ha hi => hP i hi (hk ha hi)) fun a _ w' s' hm ⟨k, hk, hQ⟩ =>
    ⟨k, hk, hq a k w' s' hm hQ⟩

theorem imp (h : σ.Runs P w s x xs n Q)
    (hq : ∀ a k w' s', σ.Moves P w s w' s' → Q a k w' s' → R a k w' s') :
    σ.Runs P w s x xs n R :=
  h.mono (fun _ _ hi => hi) hq

/-- The answer is the one that evaluation gives. -/
theorem evaluated (h : σ.Runs P w s x xs n Q) :
    σ.Runs P w s x xs n fun a k w' s' => x w = .ok a w' ∧ Q a k w' s' :=
  (Simulates.evaluated h).imp fun _ _ _ _ _ ⟨hx, k, hk, hq⟩ => ⟨k, hk, hx, hq⟩

/-- One piece after the other. -/
theorem append (hx : σ.Runs P w s x xs n R)
    (hf : ∀ a k w' s', σ.Moves P w s w' s' → R a k w' s' → σ.Runs P w' s' (f a) ys k S) :
    σ.Runs P w s (x >>= f) (xs ++ ys) n S := by
  unfold Runs
  rw [run_append]
  refine Simulates.bind hx fun a k w' s' hm ⟨j, hk, hR⟩ => ?_
  subst hk
  exact hf a j w' s' hm hR

/-- A piece that has a counterpart, then one that only moves its value. -/
theorem finish (hx : σ.Runs P w s x xs n R)
    (hf : ∀ a k w' s', σ.Moves P w s w' s' → R a k w' s' → σ.Runs P w' s' (pure a) ys k Q) :
    σ.Runs P w s x (xs ++ ys) n Q := by
  have h : σ.Runs P w s (x >>= fun a => pure a) (xs ++ ys) n Q := hx.append hf
  rwa [bind_pure] at h

theorem nil {a : α} (ha : s.Agrees σ.natives w) (hq : Q a n w s) :
    σ.Runs P w s (pure a) [] n Q :=
  Simulates.pure ha ⟨n, rfl, hq⟩

/-- The same code for what is done with the answer alone. -/
theorem map (g : α → β) (hx : σ.Runs P w s x xs n R)
    (hq : ∀ a k w' s', σ.Moves P w s w' s' → R a k w' s' → S (g a) k w' s') :
    σ.Runs P w s (do return g (← x)) xs n S := by
  have h : σ.Runs P w s (do return g (← x)) (xs ++ []) n S := hx.append fun a k w' s' hm hR =>
    .nil hm.agrees (hq a k w' s' hm hR)
  rwa [List.append_nil] at h

theorem of_ok {a : α} {k : Nat} {v : World} {t : Store} (hx : x w = .ok a v)
    (hy : σ.run xs n s = .ok (.skip k) t) (hm : σ.Moves P w s v t) (hq : Q a k v t) :
    σ.Runs P w s x xs n Q :=
  Simulates.of_ok hx hy hm ⟨k, rfl, hq⟩

theorem skipped (h : σ.Runs P w s x ys n Q) : σ.Runs P w s x (xs ++ ys) (xs.length + n) Q := by
  unfold Runs
  rwa [run_skipped]

/-- One line for a step of evaluation that fails in the same way. -/
theorem line {i : Instruction} {location : Option Location}
    (h : Simulates σ.machine σ.natives (σ.kept P) w s x
      (Running.located location (Running.step σ.machine.caching σ.call σ.here i))
      fun a k w' s' => ∃ j, k = .skip j ∧ Q a j w' s') :
    σ.Runs P w s x [⟨i, location⟩] 0 Q := by
  have hrun : σ.run [⟨i, location⟩] 0 =
      Running.located location (Running.step σ.machine.caching σ.call σ.here i) := by
    change (Running.located location (Running.step σ.machine.caching σ.call σ.here i) >>=
      fun k => _) = _
    refine Eq.trans (bind_congr fun k => ?_) (bind_pure _)
    cases k <;> rfl
  unfold Runs
  rwa [hrun]

end Runs

end Setting

end RegisterScheme
