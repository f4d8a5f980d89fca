import RegisterScheme.Proofs.Correctness.Termination
import RegisterScheme.Proofs.Machine.Log

/-! A call limit only cuts runs short. A run under it is the run under a larger one, or it fails
because a call was refused while as many as the limit allows were active; more never are. -/

namespace RegisterScheme

open CallEvent Logging

/-- A failure that stands for a refused call. -/
def Failure.IsRefusal (limit : Nat) (e : Failure) : Prop :=
  ∃ re : RuntimeError, e = .error (.runtime re) ∧ re.cause = .callDepth limit

/-- The last call was refused when there was no more room, and then all active ones were left. -/
def CallEvent.EndRefused (room : Nat) (es : List CallEvent) : Prop :=
  ∃ before, es = before ++ .refused :: List.replicate room .left ∧ active before = room

namespace CallEvent.EndRefused

variable {room : Nat} {es : List CallEvent}

theorem append (h : EndRefused room es) {first : List CallEvent} (hfirst : Nested room first) :
    EndRefused room (first ++ es) := by
  obtain ⟨before, rfl, hactive⟩ := h
  refine ⟨first ++ before, (List.append_assoc ..).symm, ?_⟩
  rw [active_append, hfirst.active_eq_zero, hactive, Int.zero_add]

/-- The call around it is left as well. -/
theorem call (h : EndRefused room es) : EndRefused (room + 1) (.entered :: (es ++ [.left])) := by
  obtain ⟨before, rfl, hactive⟩ := h
  refine ⟨.entered :: before, ?_, ?_⟩
  · rw [List.replicate_succ', List.cons_append, List.append_assoc, List.cons_append]
  · rw [active_entered, hactive, Int.natCast_succ]

end CallEvent.EndRefused

/-- A computation under a limit with room for so many more calls, the same without its log, and
what it is under a larger limit. -/
def Limited {α : Type} (limit room : Nat) (logged : Logging α) (small large : Running α) : Prop :=
  ∀ l : Logged, ∃ es, Nested room es ∧
    ((∃ a s, logged l = .ok a ⟨s, l.events ++ es⟩ ∧ small l.store = .ok a s ∧
        large l.store = .ok a s) ∨
      ∃ e s, logged l = .error e ⟨s, l.events ++ es⟩ ∧ small l.store = .error e s ∧
        (large l.store = .error e s ∨ e.IsRefusal limit ∧ EndRefused room es))

namespace Limited

variable {α β : Type} {limit room : Nat} {x : Logging α} {y z : Running α}

theorem silent (y : Running α) : Limited limit room (Logging.silent y) y y := by
  intro l
  refine ⟨[], .nil room, ?_⟩
  unfold Logging.silent
  rw [List.append_nil]
  cases y l.store with
  | ok a s => exact .inl ⟨a, s, rfl, rfl, rfl⟩
  | error e s => exact .inr ⟨e, s, rfl, rfl, .inl rfl⟩

theorem pure (a : α) : Limited limit room (Pure.pure a) (Pure.pure a) (Pure.pure a) :=
  silent (Pure.pure a)

theorem bind {f : α → Logging β} {g h : α → Running β} (hx : Limited limit room x y z)
    (hf : ∀ a, Limited limit room (f a) (g a) (h a)) :
    Limited limit room (x >>= f) (y >>= g) (z >>= h) := by
  intro l
  obtain ⟨es, hes, ⟨a, s, hx, hy, hz⟩ | ⟨e, s, hx, hy, hz⟩⟩ := hx l
  · obtain ⟨es', hes', hf⟩ := hf a ⟨s, l.events ++ es⟩
    rw [List.append_assoc] at hf
    refine ⟨es ++ es', hes.append hes', ?_⟩
    rw [bind_of_ok hx, bind_of_ok hy, bind_of_ok hz]
    rcases hf with hf | ⟨e, s', hf, hg, hh⟩
    · exact .inl hf
    · exact .inr ⟨e, s', hf, hg, hh.imp_right fun ⟨he, hend⟩ => ⟨he, hend.append hes⟩⟩
  · refine ⟨es, hes, .inr ⟨e, s, bind_of_error hx, bind_of_error hy, ?_⟩⟩
    exact hz.imp_left bind_of_error

/-- Failures that are caught, changed and thrown again. -/
theorem rethrow {change : Failure → Failure}
    (hc : ∀ e : Failure, e.IsRefusal limit → (change e).IsRefusal limit)
    (hx : Limited limit room x y z) :
    Limited limit room (tryCatch x fun e => MonadExcept.throw (change e))
      (tryCatch y fun e => MonadExcept.throw (change e))
      (tryCatch z fun e => MonadExcept.throw (change e)) := by
  intro l
  obtain ⟨es, hes, ⟨a, s, hx, hy, hz⟩ | ⟨e, s, hx, hy, hz⟩⟩ := hx l
  · exact ⟨es, hes, .inl ⟨a, s, tryCatch_of_ok hx, tryCatch_of_ok hy, tryCatch_of_ok hz⟩⟩
  · refine ⟨es, hes, .inr ⟨change e, s, tryCatch_of_error hx, tryCatch_of_error hy, ?_⟩⟩
    exact hz.imp (fun hz => tryCatch_of_error hz) fun ⟨he, hend⟩ => ⟨hc e he, hend⟩

theorem located (place : Option Location) (hx : Limited limit room x y z) :
    Limited limit room (Logging.located place x) (Running.located place y)
      (Running.located place z) :=
  hx.rethrow fun _ ⟨re, he, hcause⟩ =>
    ⟨{ re with location := re.location <|> place }, by rw [he]; rfl, hcause⟩

theorem inProcedure (name : String) (hx : Limited limit room x y z) :
    Limited limit room (Logging.inProcedure name x) (Running.inProcedure name y)
      (Running.inProcedure name z) :=
  hx.rethrow fun _ ⟨re, he, hcause⟩ =>
    ⟨{ re with stack := re.stack ++ [name] }, by rw [he]; rfl, hcause⟩

theorem forIn {γ : Type} {f : γ → β → Logging (ForInStep β)}
    {g h : γ → β → Running (ForInStep β)}
    (hf : ∀ c b, Limited limit room (f c b) (g c b) (h c b)) (l : List γ) (b : β) :
    Limited limit room (ForIn.forIn l b f) (ForIn.forIn l b g) (ForIn.forIn l b h) := by
  induction l generalizing b with
  | nil => exact .pure b
  | cons c l ih =>
    simp only [List.forIn_cons]
    refine (hf c b).bind fun next => ?_
    cases next with
    | done b => exact .pure b
    | yield b => exact ih b

/-- A call takes room, and gives it back when it ends or fails. -/
theorem activation (hx : Limited limit room x y z) :
    Limited limit (room + 1) (Logging.activation x) y z := by
  intro l
  obtain ⟨es, hes, h⟩ := hx ⟨l.store, l.events ++ [.entered]⟩
  have hevents : l.events ++ [.entered] ++ es ++ [.left] =
      l.events ++ .entered :: (es ++ [.left]) := by
    simp only [List.append_assoc, List.cons_append, List.nil_append]
  refine ⟨_, hes.call, ?_⟩
  rw [← hevents]
  rcases h with ⟨a, s, hx, hy, hz⟩ | ⟨e, s, hx, hy, hz⟩
  · exact .inl ⟨a, s, activation_of_ok hx, hy, hz⟩
  · refine .inr ⟨e, s, activation_of_error hx, hy, ?_⟩
    exact hz.imp_right fun ⟨he, hend⟩ => ⟨he, hend.call⟩

variable {caching : Bool} {here : Activation}
  {call : Value → List Value → Logging Value} {small large : Value → List Value → Running Value}

theorem step (h : ∀ v args, Limited limit room (call v args) (small v args) (large v args))
    (i : Instruction) : Limited limit room (Logging.step caching call here i)
      (Running.step caching small here i) (Running.step caching large here i) := by
  unfold Logging.step
  split
  · rename_i hi
    unfold Running.step
    simp only [hi]
    exact .bind (silent _) fun callee => .bind (silent _) fun arguments =>
      .bind (h callee arguments) fun v => silent _
  · rename_i hi
    rw [Running.step_congr hi small, Running.step_congr hi large]
    exact silent _

/-- One line after the other, up to the end of the code. -/
theorem exec (h : ∀ v args, Limited limit room (call v args) (small v args) (large v args))
    (lines : List Line) (skip : Nat) :
    Limited limit room (Logging.exec caching call here lines skip)
      (Running.exec caching small here lines skip)
      (Running.exec caching large here lines skip) := by
  induction lines generalizing skip with
  | nil => exact silent _
  | cons line rest ih =>
    cases skip with
    | succ skip => exact ih skip
    | zero =>
      unfold Logging.exec Running.exec
      refine .bind ((step h line.instruction).located line.location) fun next => ?_
      cases next with
      | done v => exact .pure v
      | skip lines => exact ih lines

theorem bindArguments {run : Closure → Logging Value} {small large : Closure → Running Value}
    (h : ∀ c, Limited limit room (run c) (small c) (large c)) (args : List Value) :
    Limited limit room (Logging.bindArguments run here args)
      (Running.bindArguments small here args) (Running.bindArguments large here args) := by
  unfold Logging.bindArguments Running.bindArguments
  refine .bind (silent _) fun dealing => ?_
  refine .bind (.forIn (fun p u => .bind (silent _) fun _ => .pure _) dealing.values PUnit.unit)
    fun _ => ?_
  have hdefault (p : Register × Nat) (u : PUnit) : Limited limit room
      (do
        let default ← Logging.silent
          (Running.ofExcept ((here.closure.template.nested p.2).mapError .fault))
        let c ← Logging.silent (Running.newClosure default here.address)
        let v ← run c
        Logging.silent (Running.setRegister here.address p.1 v)
        return ForInStep.yield u)
      (do
        let default ← Running.ofExcept ((here.closure.template.nested p.2).mapError .fault)
        Running.setRegister here.address p.1 (← small (← Running.newClosure default here.address))
        return ForInStep.yield u)
      (do
        let default ← Running.ofExcept ((here.closure.template.nested p.2).mapError .fault)
        Running.setRegister here.address p.1 (← large (← Running.newClosure default here.address))
        return ForInStep.yield u) :=
    .bind (silent _) fun default => .bind (silent _) fun c => .bind (h c) fun v =>
      .bind (silent _) fun _ => .pure _
  have hdefaults := (forIn hdefault dealing.defaults ⟨⟩).bind fun _ => .pure ()
  cases dealing.rest with
  | none => exact hdefaults
  | some rest => exact .bind (silent _) fun v => .bind (silent _) fun _ => hdefaults

end Limited

/-- What has happened in a run from a store. -/
def Logging.events {α : Type} (x : Logging α) (s : Store) : List CallEvent :=
  (remains (x ⟨s, []⟩)).events

/-- What a run from a store comes to, without its log. -/
def Logging.outcome {α : Type} (x : Logging α) (s : Store) : EStateM.Result Failure Store α :=
  match x ⟨s, []⟩ with
  | .ok a l => .ok a l.store
  | .error e l => .error e l.store

/-- A run under a limit, given the same run with a log, and the run under a larger limit. -/
structure CutShort {α : Type} (limit : Nat) (logged : Logging α) (small large : Running α)
    (s : Store) : Prop where
  logs : logged.outcome s = small s
  active_le : ∀ before, before <+: logged.events s → active before ≤ limit
  /-- Nothing differs, or else the run ends with a refused call while as many calls are active as
  the limit allows. -/
  same_or_refused : small s = large s ∨
    (∃ e s', small s = .error e s' ∧ e.IsRefusal limit) ∧ EndRefused limit (logged.events s)

theorem Limited.cutShort {α : Type} {limit : Nat} {x : Logging α} {y z : Running α}
    (h : Limited limit limit x y z) (s : Store) : CutShort limit x y z s := by
  obtain ⟨es, hes, h⟩ := h ⟨s, []⟩
  have hevents : x.events s = es := by
    rcases h with ⟨a, s', hx, -⟩ | ⟨e, s', hx, -⟩
    · rw [Logging.events, hx]
      rfl
    · rw [Logging.events, hx]
      rfl
  refine ⟨?_, fun before hb => hes.active_le (hevents ▸ hb), ?_⟩
  · unfold Logging.outcome
    rcases h with ⟨a, s', hx, hy, -⟩ | ⟨e, s', hx, hy, -⟩
    · rw [hx, hy]
    · rw [hx, hy]
  · rw [hevents]
    rcases h with ⟨a, s', -, hy, hz⟩ | ⟨e, s', -, hy, hz | ⟨he, hend⟩⟩
    · exact .inl (hy.trans hz.symm)
    · exact .inl (hy.trans hz.symm)
    · exact .inr ⟨⟨e, s', hy, he⟩, hend⟩

namespace Machine

open Limited

variable {m m' : Machine} {limit room : Nat}

theorem limited_applyWith {run : Closure → List Value → Logging Value}
    {small large : Closure → List Value → Running Value} (hhost : m'.host = m.host)
    (h : ∀ c args, Limited limit room (run c args) (small c args) (large c args))
    (callee : Value) (args : List Value) : Limited limit room (m.logWith run callee args)
      (m.applyWith small callee args) (m'.applyWith large callee args) := by
  cases callee with
  | closure c => exact h c args
  | native n =>
    rw [applyWith, applyWith, hhost]
    exact silent _
  | atom | unspecified | pair | vector | template =>
    exact silent (MonadExcept.throw (.runtime (.notProcedure _)))

/-- Where a limit leaves room for so many more calls, a larger one leaves more. -/
theorem limited_callClosure (hhost : m'.host = m.host) (hcaching : m'.caching = m.caching)
    (hlimit : m.callLimit = some limit) (more : Nat) (c : Closure) (args : List Value) :
    Limited limit room (m.logClosure room c args) (m.callClosure room c args)
      (m'.callClosure (room + more) c args) := by
  induction room generalizing c args with
  | zero =>
    intro l
    refine ⟨_, .refused, .inr ⟨.runtime (.callDepth limit), l.store, ?_, ?_, .inr ⟨?_, ?_⟩⟩⟩
    · rw [logClosure, callClosure, hlimit]
      rfl
    · rw [callClosure, hlimit]
      rfl
    · exact ⟨_, rfl, rfl⟩
    · exact ⟨[], rfl, rfl⟩
  | succ room ih =>
    rw [Nat.add_right_comm, logClosure, callClosure, callClosure, hcaching]
    refine .inProcedure _ (.activation (.bind (silent _) fun address => ?_))
    refine .bind (bindArguments (ih · []) args) fun _ => ?_
    exact exec (limited_applyWith hhost ih) c.template.code 0

/-- Whatever the template or the procedure, a run under a limit is the run under a larger one as
long as no call is refused, and never more calls are active than the limit allows. -/
theorem cutShort_of_le {n k : Nat} (h : n ≤ k) (host : Host) (caching : Bool) (s : Store) :
    let small : Machine := ⟨host, some n, caching⟩
    let large : Machine := ⟨host, some k, caching⟩
    (∀ t, CutShort n (small.logExecute t) (small.execute t) (large.execute t) s) ∧
      ∀ callee args, CutShort n (small.logApply callee args) (small.apply callee args)
        (large.apply callee args) s := by
  obtain ⟨more, rfl⟩ := Nat.exists_eq_add_of_le h
  intro small large
  have hcall (c : Closure) (args : List Value) : Limited n n (small.logClosure n c args)
      (small.callClosure n c args) (large.callClosure (n + more) c args) :=
    @limited_callClosure small large n n rfl rfl rfl more c args
  refine ⟨fun t => ?_, fun callee args => ?_⟩
  · have hexecute : Limited n n (small.logExecute t) (small.execute t) (large.execute t) :=
      .bind (.silent _) fun c => hcall c []
    exact hexecute.cutShort s
  · have happly : Limited n n (small.logApply callee args) (small.apply callee args)
        (large.apply callee args) := limited_applyWith rfl hcall callee args
    exact happly.cutShort s

/-- How a computation failed, if it did. -/
def failure? {σ α : Type} : EStateM.Result Failure σ α → Option Failure
  | .ok _ _ => none
  | .error e _ => some e

/-- A procedure that only calls itself is refused at the limit. -/
theorem cutShort_of_le_endlessCall : ∃ p,
    Program.ofText .standard .standard 0 "endless" "(define (call) (call)) (call)" = .ok p ∧
      2 ≤ 3 ∧
      let small := collecting (some 2)
      let large := collecting (some 3)
      let s := Store.ofGlobals tupleGlobals
      CutShort 2 (small.logExecute p.template) (small.execute p.template)
        (large.execute p.template) s ∧ EndRefused 2 ((small.logExecute p.template).events s) := by
  have hdiffer : (match Program.ofText .standard .standard 0 "endless"
      "(define (call) (call)) (call)" with
    | .ok p => decide (
      failure? ((collecting (some 2)).execute p.template (.ofGlobals tupleGlobals)) ≠
        failure? ((collecting (some 3)).execute p.template (.ofGlobals tupleGlobals)))
    | .error _ => false) = true := by decide +kernel
  cases hp : Program.ofText .standard .standard 0 "endless" "(define (call) (call)) (call)" with
  | error e =>
    rw [hp] at hdiffer
    cases hdiffer
  | ok p =>
    rw [hp] at hdiffer
    have hcut : CutShort 2 ((collecting (some 2)).logExecute p.template)
        ((collecting (some 2)).execute p.template) ((collecting (some 3)).execute p.template)
        (.ofGlobals tupleGlobals) :=
      (cutShort_of_le (by decide) _ true _).1 p.template
    refine ⟨p, rfl, by decide, hcut, ?_⟩
    rcases hcut.same_or_refused with hsame | ⟨-, hend⟩
    · exact absurd (congrArg failure? hsame) (of_decide_eq_true hdiffer)
    · exact hend

end Machine

end RegisterScheme
