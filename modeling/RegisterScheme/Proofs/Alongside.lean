import Mathlib.Data.List.Forall2
import Mathlib.Order.Basic
import RegisterScheme.Proofs.Outcome

/-! Two computations side by side. From states that belong together both end with answers that
belong together, or else both fail; why they fail is not compared. -/

namespace RegisterScheme

variable {ε ε' ι σ τ α β γ δ : Type}

/-- Two outcomes of one kind, with related answers. -/
inductive Agree (Q : α → β → Prop) : Except ε α → Except ε' β → Prop
  | ok {a : α} {b : β} (answers : Q a b) : Agree Q (.ok a) (.ok b)
  | error {e : ε} {e' : ε'} : Agree Q (.error e) (.error e')

namespace Agree

variable {Q : α → β → Prop} {x : Except ε α} {y : Except ε' β}

theorem bind {f : α → Except ε γ} {g : β → Except ε' δ} {P : γ → δ → Prop} (h : Agree Q x y)
    (hf : ∀ a b, Q a b → Agree P (f a) (g b)) : Agree P (x >>= f) (y >>= g) := by
  cases h with
  | ok hq => exact hf _ _ hq
  | error => exact .error

theorem map {f : α → γ} {g : β → δ} {P : γ → δ → Prop} (h : Agree Q x y)
    (hf : ∀ a b, Q a b → P (f a) (g b)) : Agree P (f <$> x) (g <$> y) := by
  cases h with
  | ok hq => exact .ok (hf _ _ hq)
  | error => exact .error

theorem refl {R : α → α → Prop} (hr : ∀ a, R a a) (x : Except ε α) : Agree R x x := by
  cases x with
  | ok a => exact .ok (hr a)
  | error e => exact .error

/-- Elements one after the other. -/
theorem foldlM {R : α → β → Prop} {P : γ → δ → Prop} {f : γ → α → Except ε γ}
    {g : δ → β → Except ε' δ} {as : List α} {bs : List β} (h : List.Forall₂ R as bs)
    (hf : ∀ c d a b, P c d → R a b → Agree P (f c a) (g d b)) {c : γ} {d : δ} (hcd : P c d) :
    Agree P (as.foldlM f c) (bs.foldlM g d) := by
  induction h generalizing c d with
  | nil => exact .ok hcd
  | cons hab _ ih =>
    rw [List.foldlM_cons, List.foldlM_cons]
    exact (hf _ _ _ _ hcd hab).bind fun _ _ h => ih h

end Agree

/-- The index where there is nothing to grow. -/
inductive Steady where
  | steady

instance : Preorder Steady where
  le _ _ := True
  le_refl _ := trivial
  le_trans _ _ _ _ _ := trivial

/-- When states of two computations belong together: while both go on, by an index that can only
grow, and when both have failed. -/
structure Pairing (ι σ τ : Type) where
  holds : ι → σ → τ → Prop
  fails : σ → τ → Prop
  fails_of_holds : ∀ i s t, holds i s t → fails s t

/-- Two outcomes of one kind, in states that belong together. -/
inductive Pairing.Meets [LE ι] (p : Pairing ι σ τ) (i : ι) (Q : ι → α → β → Prop) :
    EStateM.Result ε σ α → EStateM.Result ε' τ β → Prop
  | ok {j : ι} {a : α} {b : β} {s : σ} {t : τ} (le : i ≤ j) (holds : p.holds j s t)
      (answers : Q j a b) : Meets p i Q (.ok a s) (.ok b t)
  | error {e : ε} {e' : ε'} {s : σ} {t : τ} (fails : p.fails s t) :
      Meets p i Q (.error e s) (.error e' t)

theorem Pairing.Meets.imp [Preorder ι] {p : Pairing ι σ τ} {i j : ι} {Q P : ι → α → β → Prop}
    {r : EStateM.Result ε σ α} {r' : EStateM.Result ε' τ β} (h : p.Meets j Q r r') (hij : i ≤ j)
    (hq : ∀ k a b, j ≤ k → Q k a b → P k a b) : p.Meets i P r r' := by
  cases h with
  | ok hle hs h => exact .ok (le_trans hij hle) hs (hq _ _ _ hle h)
  | error hfails => exact .error hfails

/-- Two computations that do alike from states that belong together. -/
structure Alongside [LE ι] (p : Pairing ι σ τ) (i : ι) (x : EStateM ε σ α) (y : EStateM ε' τ β)
    (Q : ι → α → β → Prop) : Prop where
  outcome (s : σ) (t : τ) (h : p.holds i s t) : p.Meets i Q (x s) (y t)

namespace Alongside

variable [Preorder ι] {p : Pairing ι σ τ} {i : ι} {x : EStateM ε σ α} {y : EStateM ε' τ β}
  {Q : ι → α → β → Prop}

theorem answers {a : α} {b : β} {s s' : σ} {t t' : τ} {j : ι} (hx : x s = .ok a s')
    (hy : y t = .ok b t') (hle : i ≤ j) (hs : p.holds j s' t') (hq : Q j a b) :
    p.Meets i Q (x s) (y t) := by
  rw [hx, hy]
  exact .ok hle hs hq

/-- Where the first ends with an answer, so does the second. -/
theorem ok (h : Alongside p i x y Q) {s s' : σ} {t : τ} {a : α} (hs : p.holds i s t)
    (hx : x s = .ok a s') : ∃ j b t', i ≤ j ∧ y t = .ok b t' ∧ p.holds j s' t' ∧ Q j a b := by
  have hxy := h.outcome s t hs
  rw [hx] at hxy
  generalize hy : y t = r at hxy
  cases hxy with
  | ok hle hs' hq => exact ⟨_, _, _, hle, rfl, hs', hq⟩

theorem pure {a : α} {b : β} (h : Q i a b) :
    Alongside p i (Pure.pure a : EStateM ε σ α) (Pure.pure b : EStateM ε' τ β) Q :=
  ⟨fun _ _ hs => .ok (le_refl i) hs h⟩

theorem throw (e : ε) (e' : ε') :
    Alongside p i (MonadExcept.throw e : EStateM ε σ α) (MonadExcept.throw e' : EStateM ε' τ β) Q :=
  ⟨fun s t hs => .error (p.fails_of_holds i s t hs)⟩

theorem bind {f : α → EStateM ε σ γ} {g : β → EStateM ε' τ δ} {P : ι → γ → δ → Prop}
    (hx : Alongside p i x y Q) (hf : ∀ j a b, i ≤ j → Q j a b → Alongside p j (f a) (g b) P) :
    Alongside p i (x >>= f) (y >>= g) P := by
  constructor
  intro s t hs
  have hxy := hx.outcome s t hs
  generalize hr : x s = r at hxy
  generalize hr' : y t = r' at hxy
  cases hxy with
  | error hfails =>
    rw [bind_of_error hr, bind_of_error hr']
    exact .error hfails
  | ok hle hs' hq =>
    rw [bind_of_ok hr, bind_of_ok hr']
    exact ((hf _ _ _ hle hq).outcome _ _ hs').imp hle fun _ _ _ _ h => h

theorem throw_bind (e : ε) (e' : ε') {f : γ → EStateM ε σ α} {g : δ → EStateM ε' τ β} :
    Alongside p i (MonadExcept.throw e >>= f) (MonadExcept.throw e' >>= g) Q :=
  ⟨fun s t hs => .error (p.fails_of_holds i s t hs)⟩

theorem map {f : α → γ} {g : β → δ} {P : ι → γ → δ → Prop} (hx : Alongside p i x y Q)
    (hf : ∀ j a b, i ≤ j → Q j a b → P j (f a) (g b)) : Alongside p i (f <$> x) (g <$> y) P := by
  rw [map_eq_pure_bind, map_eq_pure_bind]
  exact hx.bind fun j a b hle hq => pure (hf j a b hle hq)

theorem mono {P : ι → α → β → Prop} (hx : Alongside p i x y Q)
    (h : ∀ j a b, i ≤ j → Q j a b → P j a b) : Alongside p i x y P :=
  ⟨fun s t hs => (hx.outcome s t hs).imp (le_refl i) h⟩

/-- What comes after a look at the states. -/
theorem get_bind {f : σ → EStateM ε σ α} {g : τ → EStateM ε' τ β}
    (h : ∀ s t, p.holds i s t → Alongside p i (f s) (g t) Q) :
    Alongside p i (get >>= f) (get >>= g) Q :=
  ⟨fun s t hs => (h s t hs).outcome s t hs⟩

/-- Failures may be changed on the way. -/
theorem rethrow (hx : Alongside p i x y Q) (f : ε → ε) (g : ε' → ε') :
    Alongside p i (tryCatch x fun e => MonadExcept.throw (f e))
      (tryCatch y fun e => MonadExcept.throw (g e)) Q := by
  constructor
  intro s t hs
  have hxy := hx.outcome s t hs
  generalize hr : x s = r at hxy
  generalize hr' : y t = r' at hxy
  cases hxy with
  | error hfails =>
    rw [tryCatch_of_error hr, tryCatch_of_error hr']
    exact .error hfails
  | ok hle hs' hq =>
    rw [tryCatch_of_ok hr, tryCatch_of_ok hr']
    exact .ok hle hs' hq

/-- Elements one after the other; what is said of two answers lasts. -/
theorem mapM {R : α → β → Prop} {P : ι → γ → δ → Prop}
    (hP : ∀ j k c d, j ≤ k → P j c d → P k c d) {f : α → EStateM ε σ γ} {g : β → EStateM ε' τ δ}
    {as : List α} {bs : List β} (h : List.Forall₂ R as bs)
    (hf : ∀ j a b, i ≤ j → R a b → Alongside p j (f a) (g b) P) :
    Alongside p i (as.mapM f) (bs.mapM g) fun j => List.Forall₂ (P j) := by
  induction h generalizing i with
  | nil =>
    rw [List.mapM_nil, List.mapM_nil]
    exact pure .nil
  | cons hab _ ih =>
    rw [List.mapM_cons, List.mapM_cons]
    refine (hf i _ _ (le_refl i) hab).bind fun j c d hij hcd => ?_
    refine (ih fun k a b hjk => hf k a b (le_trans hij hjk)).bind fun k cs ds hjk hcds => ?_
    exact pure (.cons (hP j k c d hjk hcd) hcds)

/-- An invariant of two folds. -/
theorem foldlM {R : α → β → Prop} {P : ι → γ → δ → Prop} {f : γ → α → EStateM ε σ γ}
    {g : δ → β → EStateM ε' τ δ} {as : List α} {bs : List β} (h : List.Forall₂ R as bs)
    (hf : ∀ j c d a b, i ≤ j → P j c d → R a b → Alongside p j (f c a) (g d b) P) {c : γ} {d : δ}
    (hcd : P i c d) : Alongside p i (as.foldlM f c) (bs.foldlM g d) P := by
  induction h generalizing i c d with
  | nil => exact pure hcd
  | cons hab _ ih =>
    rw [List.foldlM_cons, List.foldlM_cons]
    refine (hf i _ _ _ _ (le_refl i) hcd hab).bind fun j c d hij hcd => ?_
    exact ih (fun k c d a b hjk => hf k c d a b (le_trans hij hjk)) hcd

/-- Loops that never stop early. -/
theorem forIn {R : α → β → Prop} {f : α → PUnit → EStateM ε σ (ForInStep PUnit)}
    {g : β → PUnit → EStateM ε' τ (ForInStep PUnit)} {as : List α} {bs : List β}
    (h : List.Forall₂ R as bs)
    (hf : ∀ j a b, i ≤ j → R a b → Alongside p j (f a ⟨⟩) (g b ⟨⟩) fun _ r r' =>
      r = .yield ⟨⟩ ∧ r' = .yield ⟨⟩) :
    Alongside p i (ForIn.forIn as PUnit.unit f) (ForIn.forIn bs PUnit.unit g)
      fun _ _ _ => True := by
  induction h generalizing i with
  | nil => exact pure trivial
  | cons hab _ ih =>
    simp only [List.forIn_cons]
    refine (hf i _ _ (le_refl i) hab).bind ?_
    rintro j _ _ hij ⟨rfl, rfl⟩
    exact ih fun k a b hjk => hf k a b (le_trans hij hjk)

/-- Outcomes that do not touch the states. -/
theorem ofAgree {P : α → β → Prop} {r : Except ε α} {r' : Except ε' β} (h : Agree P r r')
    (hx : ∀ s, x s = match r with | .ok a => .ok a s | .error e => .error e s)
    (hy : ∀ t, y t = match r' with | .ok b => .ok b t | .error e => .error e t) :
    Alongside p i x y fun _ => P := by
  constructor
  intro s t hs
  rw [hx, hy]
  cases h with
  | ok hp => exact .ok (le_refl i) hs hp
  | error => exact .error (p.fails_of_holds i s t hs)

end Alongside

end RegisterScheme
