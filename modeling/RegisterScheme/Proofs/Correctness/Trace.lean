import RegisterScheme.Proofs.Correctness.Execution
import RegisterScheme.Proofs.Machine.Bare
import RegisterScheme.Proofs.Machine.Loop
import RegisterScheme.Proofs.Machine.Trace
import RegisterScheme.Program

/-! A runtime error says where it arose. Although its place and its stack are put together while it
passes from call to call, in the end they are those of the procedures that were active when it was
raised. -/

namespace RegisterScheme

/-- What becomes of a failure that passes through active procedures. -/
def Failure.passing (f : Failure) (active : List Active) : Failure :=
  active.foldl (fun f a => (f.located a.location).inProcedure a.name) f

theorem Failure.passing_append (f : Failure) (inner outer : List Active) :
    f.passing (inner ++ outer) = (f.passing inner).passing outer := List.foldl_append

/-- A runtime error keeps its cause. It gets the first place that there is, and all the names. -/
theorem Failure.passing_runtime (e : RuntimeError) (active : List Active) :
    (Failure.error (.runtime e)).passing active = .error (.runtime {
      cause := e.cause
      location := e.location <|> active.findSome? Active.location
      stack := e.stack ++ active.map Active.name }) := by
  induction active generalizing e with
  | nil => simp [Failure.passing]
  | cons a active ih =>
    have hstep : (Failure.error (.runtime e)).passing (a :: active) =
        (Failure.error (.runtime { e with
          location := e.location <|> a.location
          stack := e.stack ++ [a.name] })).passing active := rfl
    rw [hstep, ih]
    cases e.location <;> cases h : a.location <;> simp [h]

/-- Only a runtime error becomes one. -/
theorem Failure.passing_eq_runtime {f : Failure} {active : List Active} {e : RuntimeError}
    (h : f.passing active = .error (.runtime e)) : ∃ own, f = .error (.runtime own) := by
  induction active generalizing f with
  | nil => exact ⟨e, h⟩
  | cons a active ih =>
    obtain ⟨own, hown⟩ := ih h
    cases f with
    | error f =>
      cases f with
      | runtime f => exact ⟨f, rfl⟩
      | malformed | arity | overrun => cases hown
    | fault | unfinished => cases hown

/-- A failure as it can be raised: bare, or by a procedure of the host. -/
def Failure.Raw (host : Host) (f : Failure) : Prop := f.Bare ∨ host.Raises f

theorem Failure.located_none (f : Failure) : f.located none = f := by
  cases f with
  | error e => cases e <;> simp [Failure.located, Failure.mapError, Error.located]
  | fault | unfinished => rfl

/-- What has come of a raised failure: it has passed through the procedures that were called since,
but not through those before. -/
def Passed (host : Host) (outer : List Active) (r : Raised) (f : Failure) : Prop :=
  ∃ inner, r.active = inner ++ outer ∧ r.failure.Raw host ∧ f = r.failure.passing inner

/-- The same within a procedure that has added its place, but not its name. -/
def Placed (host : Host) (name : String) (outer : List Active) (r : Raised) (f : Failure) : Prop :=
  ∃ inner place, r.active = inner ++ ⟨name, place⟩ :: outer ∧ r.failure.Raw host ∧
    f = (r.failure.passing inner).located place

/-- A computation that knows what is active does what another does, but for how they fail. -/
def Traces {α : Type} (R : Raised → Failure → Prop) (x : Tracing α) (y : Running α) : Prop :=
  ∀ s, match y s with
    | .ok a t => x s = .ok a t
    | .error f t => ∃ r, x s = .error r t ∧ R r f

namespace Traces

variable {α β : Type} {R S : Raised → Failure → Prop} {x : Tracing α} {y : Running α}

theorem pure (a : α) : Traces R (Pure.pure a) (Pure.pure a) := fun _ => rfl

theorem bind {f : α → Tracing β} {g : α → Running β} (hx : Traces R x y)
    (hf : ∀ a, Traces R (f a) (g a)) : Traces R (x >>= f) (y >>= g) := by
  intro s
  have hs := hx s
  cases hy : y s with
  | ok a t =>
    rw [hy] at hs
    rw [bind_of_ok hy, bind_of_ok hs]
    exact hf a t
  | error e t =>
    rw [hy] at hs
    obtain ⟨r, hx, hr⟩ := hs
    rw [bind_of_error hy, bind_of_error hx]
    exact ⟨r, rfl, hr⟩

theorem forIn {γ : Type} {f : γ → β → Tracing (ForInStep β)} {g : γ → β → Running (ForInStep β)}
    (h : ∀ c b, Traces R (f c b) (g c b)) (l : List γ) (b : β) :
    Traces R (ForIn.forIn l b f) (ForIn.forIn l b g) := by
  induction l generalizing b with
  | nil => exact .pure b
  | cons c l ih =>
    simp only [List.forIn_cons]
    refine (h c b).bind fun next => ?_
    cases next with
    | done b => exact .pure b
    | yield b => exact ih b

/-- Failures of the machine are caught, changed and thrown again; those that know what was active
are left as they are. -/
theorem rethrow {change : Failure → Failure} (h : ∀ r f, R r f → S r (change f))
    (hx : Traces R x y) : Traces S x (tryCatch y fun f => throw (change f)) := by
  intro s
  have hs := hx s
  cases hy : y s with
  | ok a t =>
    rw [hy] at hs
    rw [tryCatch_of_ok hy]
    exact hs
  | error f t =>
    rw [hy] at hs
    obtain ⟨r, hx, hr⟩ := hs
    rw [tryCatch_of_error hy]
    exact ⟨r, hx, h r f hr⟩

variable {host : Host} {name : String} {outer : List Active}

theorem imp (h : ∀ r f, R r f → S r f) (hx : Traces R x y) : Traces S x y := by
  intro s
  have hs := hx s
  cases hy : y s with
  | ok a t =>
    rw [hy] at hs
    exact hs
  | error f t =>
    rw [hy] at hs
    obtain ⟨r, hx, hr⟩ := hs
    exact ⟨r, hx, h r f hr⟩

theorem within (h : Ends (Failure.Raw host) y fun _ => True) :
    Traces (Passed host outer) (Tracing.within outer y) y := by
  intro s
  unfold Tracing.within
  cases hy : y s with
  | ok a t => rfl
  | error f t => exact ⟨⟨f, outer⟩, rfl, [], rfl, h.of_error hy, rfl⟩

theorem of_bare (h : Ends Failure.Bare y fun _ => True) :
    Traces (Passed host outer) (Tracing.within outer y) y :=
  .within ⟨fun s => by
    cases hy : y s with
    | ok a t => trivial
    | error f t => exact .inl (h.of_error hy)⟩

/-- The place of the instruction is added to what fails there. -/
theorem located {place : Option Location}
    (h : Traces (Passed host (⟨name, place⟩ :: outer)) x y) :
    Traces (Placed host name outer) x (Running.located place y) :=
  h.rethrow fun _ _ ⟨inner, hactive, hraw, hf⟩ => ⟨inner, place, hactive, hraw, by rw [hf]⟩

/-- Before the code of a procedure is executed, there is no place. -/
theorem placed (h : Traces (Passed host (⟨name, none⟩ :: outer)) x y) :
    Traces (Placed host name outer) x y :=
  h.imp fun _ _ ⟨inner, hactive, hraw, hf⟩ =>
    ⟨inner, none, hactive, hraw, by rw [hf, Failure.located_none]⟩

/-- The name of the procedure is added to what leaves it. -/
theorem inProcedure (h : Traces (Placed host name outer) x y) :
    Traces (Passed host outer) x (Running.inProcedure name y) :=
  h.rethrow fun _ _ ⟨inner, place, hactive, hraw, hf⟩ => by
    refine ⟨inner ++ [⟨name, place⟩], ?_, hraw, ?_⟩
    · rw [hactive, List.append_assoc, List.singleton_append]
    · rw [hf, Failure.passing_append]
      rfl

variable {caching : Bool} {here : Activation}

theorem step {call : Value → List Value → Tracing Value}
    {real : Value → List Value → Running Value}
    (h : ∀ v args, Traces (Passed host outer) (call v args) (real v args)) (i : Instruction) :
    Traces (Passed host outer) (Tracing.step caching call outer here i)
      (Running.step caching real here i) := by
  unfold Tracing.step
  split
  · rename_i hi
    unfold Running.step
    simp only [hi]
    refine .bind (.of_bare (Running.ends_getRegister _ _)) fun callee =>
      .bind (.of_bare (Running.ends_slice _ _ _)) fun arguments =>
      .bind (h callee arguments) fun v => .of_bare ?_
    split
    · exact Running.ends_put _ _ _
    · exact Running.ends_proceed _
  · rename_i hi
    rw [Running.step_congr hi real]
    exact .of_bare (Running.ends_step hi)

/-- One line after the other, up to the end of the code. -/
theorem exec {call : List Active → Value → List Value → Tracing Value}
    {real : Value → List Value → Running Value}
    (h : ∀ place v args, let active := ⟨here.closure.template.displayName, place⟩ :: outer
      Traces (Passed host active) (call active v args) (real v args))
    (lines : List Line) (skip : Nat) :
    Traces (Placed host here.closure.template.displayName outer)
      (Tracing.exec caching call outer here lines skip)
      (Running.exec caching real here lines skip) := by
  induction lines generalizing skip with
  | nil => exact .placed (.of_bare (Running.ends_fault _))
  | cons line rest ih =>
    cases skip with
    | succ skip => exact ih skip
    | zero =>
      unfold Tracing.exec Running.exec
      refine .bind (.located (.step (h line.location) line.instruction)) fun next => ?_
      cases next with
      | done v => exact .pure v
      | skip lines => exact ih lines

theorem bindArguments {run : Closure → Tracing Value} {real : Closure → Running Value}
    (h : ∀ c, Traces (Passed host outer) (run c) (real c)) (args : List Value) :
    Traces (Passed host outer) (Tracing.bindArguments run outer here args)
      (Running.bindArguments real here args) := by
  have hput (r : Register) (v : Value) : Traces (Passed host outer)
      (Tracing.within outer (Running.setRegister here.address r v))
      (Running.setRegister here.address r v) := .of_bare (Running.ends_setRegister _ _ _)
  unfold Tracing.bindArguments Running.bindArguments
  refine .bind (.of_bare (Running.ends_deal _ _)) fun dealing => ?_
  refine .bind ?_ fun _ => ?_
  · apply Traces.forIn
    intro p _
    exact .bind (hput p.1 p.2) fun _ => .pure _
  have hdefault (p : Register × Nat) (u : PUnit) : Traces (Passed host outer)
      (do
        let default ← Tracing.within outer
          (Running.ofExcept ((here.closure.template.nested p.2).mapError .fault))
        let c ← Tracing.within outer (Running.newClosure default here.address)
        let v ← run c
        Tracing.within outer (Running.setRegister here.address p.1 v)
        return ForInStep.yield u)
      (do
        let default ← Running.ofExcept ((here.closure.template.nested p.2).mapError .fault)
        Running.setRegister here.address p.1 (← real (← Running.newClosure default here.address))
        return ForInStep.yield u) :=
    .bind (.of_bare (Running.ends_ofExcept (Running.nested_failsBare _ _))) fun default =>
      .bind (.of_bare (.answers fun _ => ⟨_, _, rfl⟩)) fun c => .bind (h c) fun v =>
      .bind (hput p.1 v) fun _ => .pure _
  have hdefaults := (forIn hdefault dealing.defaults ⟨⟩).bind fun _ => .pure ()
  cases dealing.rest with
  | none => exact hdefaults
  | some rest =>
    exact .bind (.of_bare (.answers fun _ => ⟨_, _, rfl⟩)) fun v =>
      .bind (hput rest.1 v) fun _ => hdefaults

end Traces

namespace Machine

open Traces

variable {m : Machine} {remaining : Nat} {outer : List Active}

theorem traces_applyWith {run : Closure → List Value → Tracing Value}
    {real : Closure → List Value → Running Value}
    (h : ∀ c args, Traces (Passed m.host outer) (run c args) (real c args)) (callee : Value)
    (args : List Value) : Traces (Passed m.host outer) (m.traceWith run outer callee args)
      (m.applyWith real callee args) := by
  cases callee with
  | closure c => exact h c args
  | native n =>
    refine .within ⟨fun s => ?_⟩
    rw [applyWith, Running.allocating]
    cases hcall : (n.call m.host args).run s.nextObject with
    | ok r => trivial
    | error f => exact Native.bare_or_raises hcall
  | atom | unspecified | pair | vector | template =>
    exact .of_bare (.throw (Failure.bare_runtime _))

/-- A call does the same whether the machine knows what is active or not. -/
theorem traces_callClosure (c : Closure) (args : List Value) :
    Traces (Passed m.host outer) (m.traceClosure remaining outer c args)
      (m.callClosure remaining c args) := by
  induction remaining generalizing outer c args with
  | zero =>
    refine .of_bare ?_
    unfold callClosure
    split
    · exact .throw (Failure.bare_runtime _)
    · exact .throw trivial
  | succ remaining ih =>
    unfold traceClosure callClosure
    refine .inProcedure
      (.bind (.placed (.of_bare (.answers fun _ => ⟨_, _, rfl⟩))) fun address => ?_)
    refine .bind (.placed (.bindArguments (fun c => ih c []) args)) fun _ => ?_
    have hcall (active : List Active) (callee : Value) (args : List Value) :=
      traces_applyWith (@ih active) callee args
    exact .exec (fun place => hcall _) c.template.code 0

/-- A program does the same whether the machine knows what is active or not. -/
theorem traces_execute (t : Template) :
    Traces (Passed m.host []) (m.traceExecute t) (m.execute t) :=
  .bind (.of_bare (.answers fun _ => ⟨_, _, rfl⟩)) fun c => traces_callClosure c []

/-- The stack of a runtime error is the names of the procedures that were active when it was raised,
and its place is the first that one of them has, innermost first. Only a procedure of the host can
raise an error that brings along a place or names of its own, which then stand in front. -/
theorem execute_error_trace {t : Template} {s s' : Store} {e : RuntimeError}
    (h : m.execute t s = .error (.error (.runtime e)) s') :
    ∃ raised own, m.traceExecute t s = .error raised s' ∧
      raised.failure = .error (.runtime own) ∧
      (¬ m.host.Raises raised.failure → own.location = none ∧ own.stack = []) ∧
      e.cause = own.cause ∧
      e.stack = own.stack ++ raised.active.map Active.name ∧
      e.location = (own.location <|> raised.active.findSome? Active.location) := by
  have htraces := traces_execute (m := m) t s
  rw [h] at htraces
  obtain ⟨⟨failure, active⟩, htrace, inner, hactive, hraw, hpassing⟩ := htraces
  rw [List.append_nil] at hactive
  subst hactive
  obtain ⟨own, rfl⟩ := Failure.passing_eq_runtime hpassing.symm
  rw [Failure.passing_runtime] at hpassing
  cases hpassing
  exact ⟨_, own, htrace, rfl, hraw.resolve_right, rfl, rfl, rfl⟩

/-- The names in the error that a run ends with. -/
def errorStack? {α : Type} : EStateM.Result Failure Store α → Option (List String)
  | .error (.error (.runtime e)) _ => some e.stack
  | _ => none

theorem errorStack?_eq_some {α : Type} {r : EStateM.Result Failure Store α} {stack : List String}
    (h : errorStack? r = some stack) :
    ∃ e s, r = .error (.error (.runtime e)) s ∧ e.stack = stack := by
  unfold errorStack? at h
  split at h
  · exact ⟨_, _, rfl, Option.some.inj h⟩
  · cases h

/-- A default fails, in a procedure that is called by another. -/
theorem execute_error_trace_default : ∃ p e s',
    Program.ofText .standard .standard 0 "trace"
      "(define (f &optional (a (car 1))) a)\n(define (g x) (+ x (f)))\n(g 2)" = .ok p ∧
    (collecting (some 9)).execute p.template (.ofGlobals tupleGlobals) =
      .error (.error (.runtime e)) s' ∧
    e.stack = ["<anonymous>", "f", "g", "<anonymous>"] ∧
    ∃ raised own, (collecting (some 9)).traceExecute p.template (.ofGlobals tupleGlobals) =
        .error raised s' ∧
      raised.failure = .error (.runtime own) ∧
      (¬ (collecting (some 9)).host.Raises raised.failure → own.location = none ∧ own.stack = []) ∧
      e.cause = own.cause ∧
      e.stack = own.stack ++ raised.active.map Active.name ∧
      e.location = (own.location <|> raised.active.findSome? Active.location) := by
  have hfails : (Program.ofText .standard .standard 0 "trace"
      "(define (f &optional (a (car 1))) a)\n(define (g x) (+ x (f)))\n(g 2)").toOption.bind
        (fun p => errorStack? ((collecting (some 9)).execute p.template (.ofGlobals tupleGlobals))) =
      some ["<anonymous>", "f", "g", "<anonymous>"] := by decide +kernel
  obtain ⟨p, hp, hrun⟩ := Option.bind_eq_some_iff.mp hfails
  obtain ⟨e, s', hrun, hstack⟩ := errorStack?_eq_some hrun
  exact ⟨p, e, s', ok_of_toOption hp, hrun, hstack, execute_error_trace hrun⟩

end Machine

end RegisterScheme
