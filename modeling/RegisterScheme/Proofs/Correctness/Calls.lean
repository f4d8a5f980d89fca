import RegisterScheme.Proofs.Correctness.Arguments

/-! Calls on the machine simulate calls by evaluation, by induction on how many more calls may be
active. -/

namespace RegisterScheme

namespace Machine

open Running

variable {m : Machine} {N : Nat → Prop} {w : World} {s : Store} {args : List Value}

/-- Calls of closures that are simulated. -/
def ClosuresSimulated (m : Machine) (N : Nat → Prop)
    (run : Closure → List Value → Evaluating Value) (run' : Closure → List Value → Running Value) :
    Prop :=
  ∀ w s c args, Store.Agrees N s w → w.Known c → (∀ v ∈ args, v.BuiltFrom w.Known N) →
    Simulates m N (fun _ _ => True) w s (run c args) (run' c args) fun v u w' _ =>
      u = v ∧ v.BuiltFrom w'.Known N

theorem applyWith_simulates (hm : m.host.Trusted N)
    {run : Closure → List Value → Evaluating Value} {run' : Closure → List Value → Running Value}
    (hrun : m.ClosuresSimulated N run run') (hs : s.Agrees N w) {callee : Value}
    (hcallee : callee.BuiltFrom w.Known N) (hargs : ∀ v ∈ args, v.BuiltFrom w.Known N) :
    Simulates m N (fun _ _ => True) w s (m.evaluateWith run callee args)
      (m.applyWith run' callee args) fun v u w' _ => u = v ∧ v.BuiltFrom w'.Known N := by
  cases callee with
  | closure c => exact hrun w s c args hs hcallee hargs
  | native n =>
    refine (Simulates.allocating hs (Native.gives_call hm hcallee hargs)).imp ?_
    exact fun v u w' s' hm h => ⟨h.1, h.2.1.mono fun _ hc => hc.grows hm.grows⟩
  | atom | unspecified | pair | vector | template => exact .throw hs (.inl trivial)

/-- Where the body of a closure runs. -/
def bodySetting (m : Machine) (hm : m.host.Trusted N) {f : Function} {outer : List Scope}
    {c : Closure} (hc : c.template.Renders f outer) (address : Nat)
    {run : Closure → List Value → Evaluating Value} {run' : Closure → List Value → Running Value}
    (hrun : m.ClosuresSimulated N run run') : Setting f.scope outer where
  machine := m
  natives := N
  call := m.applyWith run'
  evaluateCall := m.evaluateWith run
  here := ⟨address, c⟩
  tempBase_eq := hc.tempBase
  calls _ _ hs _ _ hcallee hargs := applyWith_simulates hm hrun hs hcallee hargs

theorem procedure_eq {c : Closure} {f : Function} {parent : Option Nat}
    (h : w.procedures[c.address]? = some (f, parent)) :
    Evaluating.procedure c w = .ok f w := by
  rw [Evaluating.procedure, bind_of_ok (x := get) (a := w) (t := w) rfl, h]
  rfl

theorem enter_simulates (hs : s.Agrees N w) {c : Closure} (hc : w.Known c)
    (hsize : c.template.tempBase ≤ c.template.frameSize) {K : Nat → Nat → Prop} :
    Simulates m N K w s (Evaluating.enter c) (newFrame c) fun a b w' s' =>
      a = w.environments.size ∧ b = a ∧ w' = w.enter c ∧ s' = s.enter c := by
  refine .of_ok (a := w.environments.size) (b := s.frames.size) (v := w.enter c)
    (t := s.enter c) rfl rfl ⟨hs.enter hc hsize, w.grows_enter c, fun a e i he _ _ => ?_⟩
    ⟨rfl, hs.frames_size, rfl, rfl⟩
  refine Store.register?_enter ?_
  rw [hs.frames_size]
  exact (Array.getElem?_eq_some_iff.mp he).1

theorem callClosure_simulates (hm : m.host.Trusted N) (remaining : Nat) :
    m.ClosuresSimulated N (m.evaluateClosure remaining) (m.callClosure remaining) := by
  induction remaining with
  | zero =>
    intro w s c args hs _ _
    unfold evaluateClosure callClosure
    cases hlimit : m.callLimit with
    | some limit => exact .throw hs (.inl trivial)
    | none => exact .throw hs (.inr ⟨rfl, hlimit⟩)
  | succ remaining ih =>
    intro w s c args hs hc hargs
    obtain ⟨f, outer, hk⟩ := hc
    have hr := hk.function_scoped.renders hk.template
    unfold evaluateClosure callClosure
    refine .congr_left (bind_of_ok (procedure_eq hk.procedure)).symm ?_
    rw [hr.displayName]
    refine .inProcedure (.restrict (K := fun a _ => a ≠ w.environments.size) ?_ ?_) f.displayName
    · refine .bind (enter_simulates hs ⟨f, outer, hk⟩ hr.tempBase_le) fun a b w₁ s₁ _ h => ?_
      obtain ⟨rfl, rfl, rfl, rfl⟩ := h
      let σ := bodySetting m hm hr w.environments.size ih
      have hgrows := w.grows_enter c
      have hw : σ.Ready (w.enter c) (s.enter c) :=
        ⟨hs.enter ⟨f, outer, hk⟩ hr.tempBase_le, ⟨f, hk.grows hgrows, rfl⟩,
          ⟨_, by rw [World.enter_environments]; exact if_pos rfl, rfl⟩⟩
      have hkept {P : Nat → Prop} (a i : Nat) (ha : a ≠ w.environments.size) : σ.kept P a i :=
        fun heq => absurd heq ha
      have hrun (w : World) (s : Store) (c : Closure) (hs : s.Agrees σ.natives w)
          (hc : w.Known c) : Simulates σ.machine σ.natives (fun _ _ => True) w s
            (m.evaluateClosure remaining c []) (m.callClosure remaining c []) fun v u w' _ =>
              u = v ∧ σ.Built w' v :=
        ih w s c [] hs hc (by simp)
      have hbind := Setting.bindArguments_simulates (σ := σ) hr rfl hrun hw fun v hv =>
        (hargs v hv).mono fun _ hc => hc.grows hgrows
      refine .bind (hbind.mono hkept fun _ _ _ _ _ h => h) fun _ _ w₂ s₂ hm₂ _ => ?_
      exact (hr.returns σ rfl w₂ s₂ (hw.moves hm₂)).mono hkept fun _ _ _ _ _ h => h
    · intro a e i he _ heq
      exact absurd (Array.getElem?_eq_some_iff.mp he).1 (heq ▸ Nat.lt_irrefl _)

/-- Calling any procedure. -/
theorem apply_simulates (hm : m.host.Trusted N) (hs : s.Agrees N w) {callee : Value}
    (hcallee : callee.BuiltFrom w.Known N) (hargs : ∀ v ∈ args, v.BuiltFrom w.Known N) :
    Simulates m N (fun _ _ => True) w s (m.evaluateCall callee args) (m.apply callee args)
      fun v u w' _ => u = v ∧ v.BuiltFrom w'.Known N :=
  applyWith_simulates hm (callClosure_simulates hm m.depth) hs hcallee hargs

/-- Running the template of a program. -/
theorem execute_simulates (hm : m.host.Trusted N) (hs : s.Agrees N w) {f : Function}
    {t : Template} (hf : f.Scoped []) (ht : f.template = .ok t) :
    Simulates m N (fun _ _ => True) w s (m.evaluate f) (m.execute t)
      fun v u w' _ => u = v ∧ v.BuiltFrom w'.Known N := by
  refine .bind (newClosure_simulates hs ht .outermost hf) fun c c' w' s' hm' hc => ?_
  obtain ⟨rfl, hknown⟩ := hc
  exact callClosure_simulates hm m.depth w' s' c' [] hm'.agrees hknown (by simp)

end Machine

end RegisterScheme
