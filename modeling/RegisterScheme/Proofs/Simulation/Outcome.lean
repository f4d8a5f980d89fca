import RegisterScheme.Proofs.Simulation.Updates

/-! A computation of the machine simulates one of evaluation if from agreeing states both end with
related answers in agreeing states, or both with the same failure. Temporaries that are in use are
kept. -/

namespace RegisterScheme

/-- The failures of a run: errors of the program, and being cut off if there is no limit. -/
def Machine.Earns (m : Machine) (e : Failure) : Prop :=
  e.IsError ∨ e = .unfinished ∧ m.callLimit = none

theorem Machine.Earns.located {m : Machine} {e : Failure} (h : m.Earns e)
    (place : Option Location) : m.Earns (e.located place) := by
  obtain h | ⟨rfl, h⟩ := h
  · exact .inl (Failure.isError_located h place)
  · exact .inr ⟨rfl, h⟩

theorem Machine.Earns.inProcedure {m : Machine} {e : Failure} (h : m.Earns e) (name : String) :
    m.Earns (e.inProcedure name) := by
  cases e with
  | error e => exact .inl trivial
  | fault f => exact h.elim (fun h => h.elim) fun h => nomatch h.1
  | unfinished => exact h

/-- How a run may move on: the states agree again, and of the registers above the variables those
in the given set are as they were. -/
structure Moves (N : Nat → Prop) (K : Nat → Nat → Prop) (w : World) (s : Store) (w' : World)
    (s' : Store) : Prop where
  agrees : s'.Agrees N w'
  grows : w.Grows w'
  kept : ∀ a e i, w.environments[a]? = some e → e.closure.template.tempBase ≤ i → K a i →
    s'.register? a i = s.register? a i

/-- The machine does what evaluation does. -/
def Simulates {α β : Type} (m : Machine) (N : Nat → Prop) (K : Nat → Nat → Prop) (w : World)
    (s : Store) (x : Evaluating α) (y : Running β) (Q : α → β → World → Store → Prop) : Prop :=
  match x w, y s with
  | .ok a w', .ok b s' => Moves N K w s w' s' ∧ Q a b w' s'
  | .error e w', .error e' s' => s'.Agrees N w' ∧ e' = e ∧ m.Earns e
  | _, _ => False

variable {α β γ δ : Type} {m : Machine} {N : Nat → Prop} {K K' : Nat → Nat → Prop} {w w' : World}
  {s s' : Store}

theorem Moves.refl (h : s.Agrees N w) : Moves N K w s w s := ⟨h, .refl w, fun _ _ _ _ _ _ => rfl⟩

theorem Moves.trans {w'' : World} {s'' : Store} (h : Moves N K w s w' s')
    (h' : Moves N K w' s' w'' s'') : Moves N K w s w'' s'' where
  agrees := h'.agrees
  grows := h.grows.trans h'.grows
  kept a e i he hi hk := by
    obtain ⟨e', he', hc⟩ := h.grows.environments a e he
    exact (h'.kept a e' i he' (hc ▸ hi) hk).trans (h.kept a e i he hi hk)

theorem Moves.mono (h : Moves N K w s w' s') (hk : ∀ a i, K' a i → K a i) :
    Moves N K' w s w' s' :=
  ⟨h.agrees, h.grows, fun a e i he hi hk' => h.kept a e i he hi (hk a i hk')⟩

namespace Simulates

variable {x : Evaluating α} {y : Running β} {P Q : α → β → World → Store → Prop}

theorem of_ok {a : α} {b : β} {v : World} {t : Store} (hx : x w = .ok a v) (hy : y s = .ok b t)
    (hm : Moves N K w s v t) (hq : Q a b v t) : Simulates m N K w s x y Q := by
  unfold Simulates
  rw [hx, hy]
  exact ⟨hm, hq⟩

theorem of_error {e : Failure} {v : World} {t : Store} (hx : x w = .error e v)
    (hy : y s = .error e t) (ha : t.Agrees N v) (he : m.Earns e) : Simulates m N K w s x y Q := by
  unfold Simulates
  rw [hx, hy]
  exact ⟨ha, rfl, he⟩

theorem pure {a : α} {b : β} (ha : s.Agrees N w) (hq : Q a b w s) :
    Simulates m N K w s (Pure.pure a) (Pure.pure b) Q :=
  of_ok rfl rfl (.refl ha) hq

theorem throw {e : Failure} (ha : s.Agrees N w) (he : m.Earns e) :
    Simulates m N K w s (MonadExcept.throw e) (MonadExcept.throw e) Q :=
  of_error rfl rfl ha he

/-- The two outcomes of a simulated computation. -/
theorem cases (h : Simulates m N K w s x y Q) :
    (∃ a w' b s', x w = .ok a w' ∧ y s = .ok b s' ∧ Moves N K w s w' s' ∧ Q a b w' s') ∨
      ∃ e w' s', x w = .error e w' ∧ y s = .error e s' ∧ s'.Agrees N w' ∧ m.Earns e := by
  unfold Simulates at h
  cases hx : x w with
  | ok a w' =>
    cases hy : y s with
    | ok b s' =>
      rw [hx, hy] at h
      exact .inl ⟨a, w', b, s', rfl, rfl, h⟩
    | error e s' =>
      rw [hx, hy] at h
      exact h.elim
  | error e w' =>
    cases hy : y s with
    | ok b s' =>
      rw [hx, hy] at h
      exact h.elim
    | error e' s' =>
      rw [hx, hy] at h
      obtain ⟨ha, rfl, he⟩ := h
      exact .inr ⟨e', w', s', rfl, rfl, ha, he⟩

theorem congr_left {x' : Evaluating α} (hx : x w = x' w) (h : Simulates m N K w s x y Q) :
    Simulates m N K w s x' y Q := by
  unfold Simulates at h ⊢
  rwa [← hx]

theorem congr_right {y' : Running β} (hy : y s = y' s) (h : Simulates m N K w s x y Q) :
    Simulates m N K w s x y' Q := by
  unfold Simulates at h ⊢
  rwa [← hy]

/-- The answer is the one that evaluation gives. -/
theorem evaluated (h : Simulates m N K w s x y Q) :
    Simulates m N K w s x y fun a b w' s' => x w = .ok a w' ∧ Q a b w' s' := by
  obtain ⟨a, w', b, s', hx, hy, hm, hq⟩ | ⟨e, w', s', hx, hy, ha, he⟩ := h.cases
  · exact of_ok hx hy hm ⟨hx, hq⟩
  · exact of_error hx hy ha he

theorem bind {f : α → Evaluating γ} {g : β → Running δ} {Q : γ → δ → World → Store → Prop}
    (h : Simulates m N K w s x y P)
    (hf : ∀ a b w' s', Moves N K w s w' s' → P a b w' s' → Simulates m N K w' s' (f a) (g b) Q) :
    Simulates m N K w s (x >>= f) (y >>= g) Q := by
  obtain ⟨a, w', b, s', hx, hy, hm, hp⟩ | ⟨e, w', s', hx, hy, ha, he⟩ := h.cases
  · have hxf : (x >>= f) w = f a w' := bind_of_ok hx
    have hyg : (y >>= g) s = g b s' := bind_of_ok hy
    obtain ⟨c, w'', d, s'', hfa, hgb, hm', hq⟩ | ⟨e, w'', s'', hfa, hgb, ha, he⟩ :=
      (hf a b w' s' hm hp).cases
    · exact of_ok (hxf.trans hfa) (hyg.trans hgb) (hm.trans hm') hq
    · exact of_error (hxf.trans hfa) (hyg.trans hgb) ha he
  · exact of_error (bind_of_error hx) (bind_of_error hy) ha he

/-- A step of the machine alone. -/
theorem right {z : Running δ} {g : δ → Running β} {d : δ} (hz : z s = .ok d s')
    (hm : Moves N K w s w s') (h : Simulates m N K w s' x (g d) Q) :
    Simulates m N K w s x (z >>= g) Q := by
  have hzg : (z >>= g) s = g d s' := bind_of_ok hz
  obtain ⟨a, w', b, s'', hx, hy, hm', hq⟩ | ⟨e, w', s'', hx, hy, ha, he⟩ := h.cases
  · exact of_ok hx (hzg.trans hy) (hm.trans hm') hq
  · exact of_error hx (hzg.trans hy) ha he

theorem mono (h : Simulates m N K w s x y P) (hk : ∀ a i, K' a i → K a i)
    (hq : ∀ a b w' s', Moves N K w s w' s' → P a b w' s' → Q a b w' s') :
    Simulates m N K' w s x y Q := by
  obtain ⟨a, w', b, s', hx, hy, hm, hp⟩ | ⟨e, w', s', hx, hy, ha, he⟩ := h.cases
  · exact of_ok hx hy (hm.mono hk) (hq a b w' s' hm hp)
  · exact of_error hx hy ha he

/-- What happens to activations that were not there before does not matter. -/
theorem restrict (h : Simulates m N K w s x y Q)
    (hk : ∀ a e i, w.environments[a]? = some e → K' a i → K a i) :
    Simulates m N K' w s x y Q := by
  obtain ⟨a, w', b, s', hx, hy, hm, hp⟩ | ⟨e, w', s', hx, hy, ha, he⟩ := h.cases
  · exact of_ok hx hy ⟨hm.agrees, hm.grows, fun a e i he hi hk' =>
      hm.kept a e i he hi (hk a e i he hk')⟩ hp
  · exact of_error hx hy ha he

theorem imp (h : Simulates m N K w s x y P)
    (hq : ∀ a b w' s', Moves N K w s w' s' → P a b w' s' → Q a b w' s') :
    Simulates m N K w s x y Q :=
  h.mono (fun _ _ hk => hk) hq

theorem located (h : Simulates m N K w s x y Q) (place : Option Location) :
    Simulates m N K w s (Evaluating.located place x) (Running.located place y) Q := by
  obtain ⟨a, w', b, s', hx, hy, hm, hq⟩ | ⟨e, w', s', hx, hy, ha, he⟩ := h.cases
  · exact of_ok (tryCatch_of_ok hx) (tryCatch_of_ok hy) hm hq
  · exact of_error (tryCatch_of_error hx) (tryCatch_of_error hy) ha (he.located place)

theorem inProcedure (h : Simulates m N K w s x y Q) (name : String) :
    Simulates m N K w s (Evaluating.inProcedure name x) (Running.inProcedure name y) Q := by
  obtain ⟨a, w', b, s', hx, hy, hm, hq⟩ | ⟨e, w', s', hx, hy, ha, he⟩ := h.cases
  · exact of_ok (tryCatch_of_ok hx) (tryCatch_of_ok hy) hm hq
  · exact of_error (tryCatch_of_error hx) (tryCatch_of_error hy) ha (he.inProcedure name)

theorem ofExcept {r : Except Failure α} {G : α → Prop} (ha : s.Agrees N w)
    (hr : Except.Gives r G) :
    Simulates m N K w s (Evaluating.ofExcept r) (Running.ofExcept r) fun a b w' s' =>
      b = a ∧ G a ∧ w' = w ∧ s' = s := by
  cases r with
  | ok a => exact .pure ha ⟨rfl, hr, rfl, rfl⟩
  | error e => exact .throw ha (.inl hr)

theorem allocating {act : Allocating α} {G : α → Prop} (ha : s.Agrees N w) (hact : act.Gives G) :
    Simulates m N K w s (Evaluating.allocating act) (Running.allocating act) fun a b w' s' =>
      b = a ∧ G a ∧ w'.environments = w.environments ∧ s'.frames = s.frames := by
  have hg := hact w.nextObject
  have hn := ha.nextObject
  cases hr : act.run w.nextObject with
  | ok p =>
    obtain ⟨a, next⟩ := p
    rw [hr] at hg
    refine of_ok (a := a) (b := a) (v := { w with nextObject := next })
      (t := { s with nextObject := next }) ?_ ?_ ⟨?_, ?_, fun _ _ _ _ _ _ => rfl⟩
      ⟨rfl, hg, rfl, rfl⟩
    · simp only [Evaluating.allocating, hr]
    · simp only [Running.allocating, hn, hr]
    · exact ha.withNextObject next
    · exact World.grows_nextObject w next
  | error e =>
    rw [hr] at hg
    refine of_error (e := e) (v := w) (t := s) ?_ ?_ ha (.inl hg)
    · simp only [Evaluating.allocating, hr]
    · simp only [Running.allocating, hn, hr]

end Simulates

end RegisterScheme
