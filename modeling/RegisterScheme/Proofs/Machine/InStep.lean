import RegisterScheme.Proofs.Machine.Transparent
import RegisterScheme.Proofs.Machine.Watch
import RegisterScheme.Proofs.Simulation.Arguments

/-! Three machines in step: one with caches under watch, the same one by itself, and one without
caches. At every moment what the closures remember is right. -/

namespace RegisterScheme

variable {α β : Type} {N : Nat → Prop} {made : List Closure}

/-- What closures remember is right, and was right at all moments so far. -/
structure Watched.Sound (N : Nat → Prop) (o : Watched) : Prop where
  store : o.store.Coherent N o.made
  moments : ∀ m ∈ o.moments,
    m.here.closure ∈ m.made ∧ m.made <+: o.made ∧ m.store.Coherent N m.made

namespace Watched.Sound

variable {o : Watched}

theorem withStore (h : o.Sound N) {s : Store} (hs : s.Coherent N o.made) :
    Watched.Sound N { o with store := s } := ⟨hs, h.moments⟩

theorem newClosure (h : o.Sound N) (t : Template) (parent : Option Nat) :
    Watched.Sound N { o with
      store := o.store.addClosure, made := o.made ++ [⟨o.store.caches.size, t, parent⟩] } where
  store := h.store.addClosure t parent
  moments m hm := by
    obtain ⟨hhere, hmade, hcoherent⟩ := h.moments m hm
    exact ⟨hhere, hmade.trans (List.prefix_append _ _), hcoherent⟩

theorem recording (h : o.Sound N) {here : Activation} (hhere : here.closure ∈ o.made)
    (i : Instruction) :
    Watched.Sound N { o with moments := o.moments ++ [⟨here, i, o.made, o.store⟩] } where
  store := h.store
  moments := by
    refine List.forall_mem_append.mpr ⟨h.moments, fun m hm => ?_⟩
    obtain rfl := List.mem_singleton.mp hm
    exact ⟨hhere, List.prefix_refl _, h.store⟩

end Watched.Sound

/-- The same computation on the three machines, from where some closures have been made. -/
def InStep (N : Nat → Prop) (made : List Closure) (w : Watching α) (x y : Running α)
    (Q : List Closure → α → Prop) : Prop :=
  ∀ o : Watched, o.Sound N → o.made = made →
    (∃ a p, w o = .ok a p ∧ x o.store = .ok a p.store ∧
      y o.store.forget = .ok a p.store.forget ∧ p.Sound N ∧ made <+: p.made ∧ Q p.made a) ∨
    ∃ e p, w o = .error e p ∧ x o.store = .error e p.store ∧
      y o.store.forget = .error e p.store.forget ∧ p.Sound N ∧ made <+: p.made

/-- What is dealt out are the arguments. -/
theorem Transparent.deal {c : Closure} {args : List Value}
    (hargs : ∀ v ∈ args, v.BuiltFrom (· ∈ made) N) :
    Transparent N made (Running.deal c args) (Running.deal c args) fun x =>
      (∀ p ∈ x.values, p.2.BuiltFrom (· ∈ made) N) ∧
        ∀ p ∈ x.rest, ∀ v ∈ p.2, v.BuiltFrom (· ∈ made) N := by
  unfold Running.deal
  dsimp only
  split
  · exact throw _
  · split
    · exact throw _
    · rename_i x hx
      have hformals : c.template.formals.Within 256 :=
        ⟨fun p _ => p.register.isLt, fun p _ => p.register.isLt, fun r _ => r.isLt⟩
      obtain ⟨hvalues, hrest, -⟩ := Dealing.ofArguments_within hformals hx
      exact pure ⟨fun p hp => hargs p.2 (hvalues p hp).2,
        fun p hp v hv => hargs v ((hrest p hp).2 v hv)⟩

namespace InStep

variable {w : Watching α} {x y : Running α} {Q : List Closure → α → Prop}

/-- What makes no closure and executes no instruction. -/
theorem silent (h : Transparent N made x y (Q made)) :
    InStep N made (Watching.silent x) x y Q := by
  rintro o ho rfl
  obtain ⟨a, t, hx, hy, ht, ha⟩ | ⟨e, t, hx, hy, ht⟩ := h o.store ho.store
  · have hw : Watching.silent x o = .ok a { o with store := t } := by rw [Watching.silent, hx]
    exact .inl ⟨a, _, hw, hx, hy, ho.withStore ht, List.prefix_refl _, ha⟩
  · have hw : Watching.silent x o = .error e { o with store := t } := by rw [Watching.silent, hx]
    exact .inr ⟨e, _, hw, hx, hy, ho.withStore ht, List.prefix_refl _⟩

theorem pure {a : α} (h : Q made a) :
    InStep N made (Pure.pure a) (Pure.pure a) (Pure.pure a) Q := silent (.pure h)

theorem throw (e : Failure) : InStep N made (MonadExcept.throw e) (MonadExcept.throw e)
    (MonadExcept.throw e) Q := by
  rintro o ho rfl
  exact .inr ⟨e, o, rfl, rfl, rfl, ho, List.prefix_refl _⟩

theorem newClosure (t : Template) (parent : Option Nat) :
    InStep N made (Watching.newClosure t parent) (Running.newClosure t parent)
      (Running.newClosure t parent) fun made c => c ∈ made := by
  rintro o ho rfl
  have hplain : Running.newClosure t parent o.store.forget =
      .ok ⟨o.store.caches.size, t, parent⟩ o.store.addClosure.forget := by
    have hsize : o.store.forget.caches.size = o.store.caches.size := Array.size_map
    rw [Store.forget_addClosure, ← hsize]
    rfl
  exact .inl ⟨_, _, rfl, rfl, hplain, ho.newClosure t parent, List.prefix_append _ _, by simp⟩

theorem bind {f : α → Watching β} {g h : α → Running β} {R : List Closure → β → Prop}
    (hx : InStep N made w x y Q)
    (hf : ∀ made', made <+: made' → ∀ a, Q made' a → InStep N made' (f a) (g a) (h a) R) :
    InStep N made (w >>= f) (x >>= g) (y >>= h) R := by
  intro o ho hmade
  obtain ⟨a, p, hw, hx, hy, hp, hmore, ha⟩ | ⟨e, p, hw, hx, hy, hp, hmore⟩ := hx o ho hmade
  · rw [bind_of_ok hw, bind_of_ok hx, bind_of_ok hy]
    obtain ⟨b, q, hw, hx, hy, hq, hmore', hb⟩ | ⟨e, q, hw, hx, hy, hq, hmore'⟩ :=
      hf p.made hmore a ha p hp rfl
    · exact .inl ⟨b, q, hw, hx, hy, hq, hmore.trans hmore', hb⟩
    · exact .inr ⟨e, q, hw, hx, hy, hq, hmore.trans hmore'⟩
  · exact .inr ⟨e, p, bind_of_error hw, bind_of_error hx, bind_of_error hy, hp, hmore⟩

/-- What follows a computation that makes no closure. -/
theorem silent_bind {G : α → Prop} {f : α → Watching β} {g h : α → Running β}
    {R : List Closure → β → Prop} (hx : Transparent N made x y G)
    (hf : ∀ a, G a → InStep N made (f a) (g a) (h a) R) :
    InStep N made (Watching.silent x >>= f) (x >>= g) (y >>= h) R := by
  rintro o ho rfl
  obtain ⟨a, t, hx, hy, ht, ha⟩ | ⟨e, t, hx, hy, ht⟩ := hx o.store ho.store
  · have hw : Watching.silent x o = .ok a { o with store := t } := by rw [Watching.silent, hx]
    rw [bind_of_ok hw, bind_of_ok hx, bind_of_ok hy]
    exact hf a ha _ (ho.withStore ht) rfl
  · have hw : Watching.silent x o = .error e { o with store := t } := by rw [Watching.silent, hx]
    exact .inr ⟨e, _, bind_of_error hw, bind_of_error hx, bind_of_error hy, ho.withStore ht,
      List.prefix_refl _⟩

/-- Failures that are caught, changed and thrown again. -/
theorem rethrow (change : Failure → Failure) (h : InStep N made w x y Q) :
    InStep N made (tryCatch w fun e => MonadExcept.throw (change e))
      (tryCatch x fun e => MonadExcept.throw (change e))
      (tryCatch y fun e => MonadExcept.throw (change e)) Q := by
  intro o ho hmade
  obtain ⟨a, p, hw, hx, hy, hp⟩ | ⟨e, p, hw, hx, hy, hp⟩ := h o ho hmade
  · exact .inl ⟨a, p, tryCatch_of_ok hw, tryCatch_of_ok hx, tryCatch_of_ok hy, hp⟩
  · exact .inr ⟨change e, p, tryCatch_of_error hw, tryCatch_of_error hx, tryCatch_of_error hy, hp⟩

theorem located (place : Option Location) (h : InStep N made w x y Q) :
    InStep N made (Watching.located place w) (Running.located place x)
      (Running.located place y) Q := h.rethrow _

theorem inProcedure (name : String) (h : InStep N made w x y Q) :
    InStep N made (Watching.inProcedure name w) (Running.inProcedure name x)
      (Running.inProcedure name y) Q := h.rethrow _

variable {here : Activation}

theorem recording (hhere : here.closure ∈ made) (i : Instruction) (h : InStep N made w x y Q) :
    InStep N made (Watching.recording here i w) x y Q := by
  rintro o ho rfl
  exact h _ (ho.recording hhere i) rfl

/-- Procedures are called in step, whatever closures have been made by then. -/
def Calls (N : Nat → Prop) (call : Value → List Value → Watching Value)
    (cached plain : Value → List Value → Running Value) : Prop :=
  ∀ made callee args, callee.BuiltFrom (· ∈ made) N → (∀ v ∈ args, v.BuiltFrom (· ∈ made) N) →
    InStep N made (call callee args) (cached callee args) (plain callee args)
      fun made v => v.BuiltFrom (· ∈ made) N

variable {call : Value → List Value → Watching Value}
  {cached plain : Value → List Value → Running Value}

theorem step (hcall : Calls N call cached plain) (hhere : here.closure ∈ made) (i : Instruction) :
    InStep N made (Watching.step true call here i) (Running.step true cached here i)
      (Running.step false plain here i) fun made next => next.BuiltFrom (· ∈ made) N := by
  unfold Watching.step
  by_cases hi : i.opcode = .call
  · rw [if_pos hi]
    unfold Running.step
    simp only [hi]
    refine .silent_bind (.getRegister here.address i.a) fun callee hcallee =>
      .silent_bind (.slice here.address _ _) fun args hargs =>
      .bind (hcall made callee args hcallee hargs) fun _ _ v hv => silent ?_
    split
    · exact .setRegister_proceed here.address i.a hv false
    · exact .pure trivial
  · rw [if_neg hi]
    by_cases hclosure : i.opcode = .closure
    · rw [if_pos hclosure]
      unfold Running.step
      simp only [hclosure]
      refine .silent_bind (.ofExcept (Q := fun _ => True) fun _ _ => trivial) fun nested _ =>
        .bind (newClosure nested here.address) fun _ _ c hc => silent ?_
      exact .setRegister_proceed here.address i.a (v := .closure c) hc false
    · rw [if_neg hclosure, Running.step_congr hi cached]
      exact silent (Transparent.step hhere hi hclosure)

/-- One line after the other, up to the end of the code. -/
theorem exec (hcall : Calls N call cached plain) (hhere : here.closure ∈ made)
    (lines : List Line) (skip : Nat) :
    InStep N made (Watching.exec true call here lines skip)
      (Running.exec true cached here lines skip) (Running.exec false plain here lines skip)
      fun made v => v.BuiltFrom (· ∈ made) N := by
  induction lines generalizing skip made with
  | nil => exact throw _
  | cons line rest ih =>
    cases skip with
    | succ skip => exact ih hhere skip
    | zero =>
      have hstep := (step hcall hhere line.instruction).recording hhere line.instruction
      refine .bind (hstep.located line.location) fun made' hmore next hnext => ?_
      cases next with
      | done v => exact pure hnext
      | skip lines => exact ih (hmore.subset hhere) lines

variable {run : Closure → Watching Value} {run₁ run₂ : Closure → Running Value}

theorem fillDefaults (hrun : ∀ made, ∀ c ∈ made, InStep N made (run c) (run₁ c) (run₂ c)
      fun made v => v.BuiltFrom (· ∈ made) N) (defaults : List (Register × Nat)) :
    InStep N made (Watching.fillDefaults run here defaults)
      (Running.fillDefaults run₁ here defaults) (Running.fillDefaults run₂ here defaults)
      fun _ _ => True := by
  induction defaults generalizing made with
  | nil => exact pure trivial
  | cons p defaults ih =>
    refine .silent_bind (.ofExcept (Q := fun _ => True) fun _ _ => trivial) fun t _ =>
      .bind (newClosure t here.address) fun _ _ c hc => .bind (hrun _ c hc) fun _ _ v hv =>
      .silent_bind (.setRegister here.address p.1 hv) fun _ _ => ?_
    exact ih

theorem bindArguments (hrun : ∀ made, ∀ c ∈ made, InStep N made (run c) (run₁ c) (run₂ c)
      fun made v => v.BuiltFrom (· ∈ made) N) {args : List Value}
    (hargs : ∀ v ∈ args, v.BuiltFrom (· ∈ made) N) :
    InStep N made (Watching.bindArguments run here args) (Running.bindArguments run₁ here args)
      (Running.bindArguments run₂ here args) fun _ _ => True := by
  rw [Running.bindArguments_eq, Running.bindArguments_eq]
  refine .silent_bind (.deal hargs) fun x ⟨hvalues, hrest⟩ => ?_
  refine .silent_bind (.fill here.address hvalues) fun _ _ =>
    .silent_bind (.fillRest here.address hrest) fun _ _ => ?_
  exact fillDefaults hrun x.defaults

end InStep

/-- The same machine, with or without caches. -/
def Machine.withCaching (m : Machine) (caching : Bool) : Machine := { m with caching }

namespace Machine

open InStep

variable {m : Machine}

theorem inStep_applyWith (hm : m.host.Trusted N)
    {run : Closure → List Value → Watching Value} {run₁ run₂ : Closure → List Value → Running Value}
    (hrun : ∀ made, ∀ c ∈ made, ∀ args : List Value, (∀ v ∈ args, v.BuiltFrom (· ∈ made) N) →
      InStep N made (run c args) (run₁ c args) (run₂ c args)
        fun made v => v.BuiltFrom (· ∈ made) N) :
    Calls N ((m.withCaching true).watchWith run) ((m.withCaching true).applyWith run₁)
      ((m.withCaching false).applyWith run₂) := by
  intro made callee args hcallee hargs
  cases callee with
  | closure c => exact hrun made c hcallee args hargs
  | native n => exact silent (.allocating (Native.gives_call hm hcallee hargs))
  | atom | unspecified | pair | vector | template => exact throw _

theorem inStep_callClosure (hm : m.host.Trusted N) (remaining : Nat) {c : Closure} (hc : c ∈ made)
    {args : List Value} (hargs : ∀ v ∈ args, v.BuiltFrom (· ∈ made) N) :
    InStep N made ((m.withCaching true).watchClosure remaining c args)
      ((m.withCaching true).callClosure remaining c args)
      ((m.withCaching false).callClosure remaining c args)
      fun made v => v.BuiltFrom (· ∈ made) N := by
  induction remaining generalizing made c args with
  | zero =>
    have hrefused : Transparent N made ((m.withCaching true).callClosure 0 c args)
        ((m.withCaching false).callClosure 0 c args) fun v => v.BuiltFrom (· ∈ made) N := by
      unfold callClosure withCaching
      cases m.callLimit with
      | some limit => exact .throw _
      | none => exact .throw _
    exact silent hrefused
  | succ remaining ih =>
    have hcall := inStep_applyWith hm fun made c hc args hargs => ih hc hargs
    have hdefault (made : List Closure) (c : Closure) (hc : c ∈ made) :=
      @ih made c hc [] (by simp)
    unfold watchClosure callClosure
    refine .inProcedure _ (.silent_bind (.newFrame hc) fun address _ => ?_)
    refine .bind (bindArguments hdefault hargs) fun _ hmore _ _ => ?_
    exact exec hcall (hmore.subset hc) c.template.code 0

theorem inStep_apply (hm : m.host.Trusted N) {callee : Value} {args : List Value}
    (hcallee : callee.BuiltFrom (· ∈ made) N) (hargs : ∀ v ∈ args, v.BuiltFrom (· ∈ made) N) :
    InStep N made ((m.withCaching true).watchApply callee args)
      ((m.withCaching true).apply callee args) ((m.withCaching false).apply callee args)
      fun made v => v.BuiltFrom (· ∈ made) N :=
  inStep_applyWith hm (fun _ _ hc _ hargs => inStep_callClosure hm m.depth hc hargs)
    made callee args hcallee hargs

theorem inStep_execute (hm : m.host.Trusted N) (t : Template) :
    InStep N made ((m.withCaching true).watchExecute t) ((m.withCaching true).execute t)
      ((m.withCaching false).execute t) fun made v => v.BuiltFrom (· ∈ made) N :=
  .bind (newClosure t none) fun _ _ _ hc => inStep_callClosure hm m.depth hc (by simp)

end Machine

end RegisterScheme
