import Mathlib.Data.List.Forall2
import RegisterScheme.Failure.Basic

/-! What a stateful computation keeps: from a state it ends with an answer and a state that are
related as they should be, or else with a permitted failure. Both ways the state only changes
along a given relation. -/

namespace RegisterScheme

variable {ε σ α β : Type}

/-- The outcome of a computation from a state. -/
structure Keeps (R : σ → σ → Prop) (F : ε → Prop) (s : σ) (act : EStateM ε σ α)
    (Q : α → σ → Prop) : Prop where
  outcome : match act s with
    | .ok a t => R s t ∧ Q a t
    | .error e t => R s t ∧ F e

theorem ok_of_bind {x : Except ε α} {f : α → Except ε β} {b : β} (h : (x >>= f) = .ok b) :
    ∃ a, x = .ok a ∧ f a = .ok b := by
  cases x with
  | error e => cases h
  | ok a => exact ⟨a, rfl, h⟩

theorem error_of_bind {x : Except ε α} {f : α → Except ε β} {e : ε} (h : (x >>= f) = .error e) :
    x = .error e ∨ ∃ a, x = .ok a ∧ f a = .error e := by
  cases x with
  | error e' => exact .inl (congrArg Except.error (Except.error.inj h))
  | ok a => exact .inr ⟨a, rfl, h⟩

theorem error_of_map {r : Except ε α} {f : α → β} {e : ε} (h : f <$> r = .error e) :
    r = .error e := by
  cases r with
  | error e' => exact congrArg Except.error (Except.error.inj h)
  | ok a => cases h

theorem ok_of_isOk {x : Except ε α} (h : x.isOk) : ∃ a, x = .ok a := by
  cases x with
  | error e => cases h
  | ok a => exact ⟨a, rfl⟩

theorem ok_of_toOption {x : Except ε α} {a : α} (h : x.toOption = some a) : x = .ok a := by
  cases x with
  | error e => cases h
  | ok b => exact congrArg Except.ok (Option.some.inj h)

theorem bind_of_ok {x : EStateM ε σ α} {f : α → EStateM ε σ β} {s t : σ} {a : α}
    (h : x s = .ok a t) : (x >>= f) s = f a t := by
  simp only [Bind.bind, EStateM.bind, h]

theorem bind_of_error {x : EStateM ε σ α} {f : α → EStateM ε σ β} {s t : σ} {e : ε}
    (h : x s = .error e t) : (x >>= f) s = .error e t := by
  simp only [Bind.bind, EStateM.bind, h]

theorem answers_of_bind {x : EStateM ε σ α} {f : α → EStateM ε σ β} {s t : σ} {b : β}
    (h : (x >>= f) s = .ok b t) : ∃ a u, x s = .ok a u ∧ f a u = .ok b t := by
  cases hx : x s with
  | error e u =>
    rw [bind_of_error hx] at h
    cases h
  | ok a u => exact ⟨a, u, rfl, (bind_of_ok hx).symm.trans h⟩

theorem tryCatch_of_ok {x : EStateM ε σ α} {f : ε → EStateM ε σ α} {s t : σ} {a : α}
    (h : x s = .ok a t) : (MonadExcept.tryCatch x f : EStateM ε σ α) s = .ok a t := by
  simp only [MonadExcept.tryCatch, tryCatchThe, MonadExceptOf.tryCatch, EStateM.tryCatch, h]

theorem tryCatch_of_error {x : EStateM ε σ α} {f : ε → EStateM ε σ α} {s t : σ} {e : ε}
    (h : x s = .error e t) : (MonadExcept.tryCatch x f : EStateM ε σ α) s = f e t := by
  simp only [MonadExcept.tryCatch, tryCatchThe, MonadExceptOf.tryCatch, EStateM.tryCatch, h]
  rfl

/-- Whether a failure is one that programs can earn: neither a broken invariant nor a run that
was cut off. -/
def Failure.IsError : Failure → Prop
  | .error _ => True
  | _ => False

theorem Failure.isError_error (e : Error) : (Failure.error e).IsError := trivial

theorem Failure.isError_located {f : Failure} (h : f.IsError) (place : Option Location) :
    (f.located place).IsError := by
  cases f with
  | error e => trivial
  | fault f => exact h
  | unfinished => exact h

namespace Keeps

variable {R : σ → σ → Prop} {F : ε → Prop} {s : σ}

theorem answers {act : EStateM ε σ α} {Q : α → σ → Prop} {a : α} {t : σ} (h : act s = .ok a t)
    (hr : R s t) (hq : Q a t) : Keeps R F s act Q := ⟨by rw [h]; exact ⟨hr, hq⟩⟩

theorem fails {act : EStateM ε σ α} {Q : α → σ → Prop} {e : ε} {t : σ} (h : act s = .error e t)
    (hr : R s t) (he : F e) : Keeps R F s act Q := ⟨by rw [h]; exact ⟨hr, he⟩⟩

theorem pure {a : α} {Q : α → σ → Prop} (hr : R s s) (h : Q a s) :
    Keeps R F s (Pure.pure a) Q := ⟨hr, h⟩

theorem throw {e : ε} {Q : α → σ → Prop} (hr : R s s) (h : F e) :
    Keeps R F s (MonadExcept.throw e) Q := ⟨hr, h⟩

theorem get {Q : σ → σ → Prop} (hr : R s s) (h : Q s s) :
    Keeps R F s (MonadState.get : EStateM ε σ σ) Q := ⟨hr, h⟩

theorem bind [Trans R R R] {x : EStateM ε σ α}
    {f : α → EStateM ε σ β} {P : α → σ → Prop} {Q : β → σ → Prop} (hx : Keeps R F s x P)
    (hf : ∀ a t, R s t → P a t → Keeps R F t (f a) Q) : Keeps R F s (x >>= f) Q := by
  constructor
  change match EStateM.bind x f s with
    | .ok a t => R s t ∧ Q a t
    | .error e t => R s t ∧ F e
  replace hx := hx.outcome
  cases h : x s with
  | error e t =>
    rw [h] at hx
    simpa only [EStateM.bind, h] using hx
  | ok a t =>
    rw [h] at hx
    have hk := (hf a t hx.1 hx.2).outcome
    cases hg : f a t with
    | error e u =>
      rw [hg] at hk
      simpa only [EStateM.bind, h, hg] using And.intro (Trans.trans hx.1 hk.1) hk.2
    | ok b u =>
      rw [hg] at hk
      simpa only [EStateM.bind, h, hg] using And.intro (Trans.trans hx.1 hk.1) hk.2

theorem tryCatch [Trans R R R] {G : ε → Prop} {x : EStateM ε σ α} {f : ε → EStateM ε σ α}
    {Q : α → σ → Prop} (hx : Keeps R G s x Q)
    (hf : ∀ e t, R s t → G e → Keeps R F t (f e) Q) : Keeps R F s (MonadExcept.tryCatch x f) Q := by
  constructor
  change match EStateM.tryCatch x f s with
    | .ok a t => R s t ∧ Q a t
    | .error e t => R s t ∧ F e
  replace hx := hx.outcome
  cases h : x s with
  | ok a t =>
    rw [h] at hx
    simpa only [EStateM.tryCatch, h] using hx
  | error e t =>
    rw [h] at hx
    have hk := (hf e t hx.1 hx.2).outcome
    cases hg : f e t with
    | error e u =>
      rw [hg] at hk
      simpa only [EStateM.tryCatch, h, EStateM.Backtrackable.restore, EStateM.dummyRestore, hg]
        using And.intro (Trans.trans hx.1 hk.1) hk.2
    | ok a u =>
      rw [hg] at hk
      simpa only [EStateM.tryCatch, h, EStateM.Backtrackable.restore, EStateM.dummyRestore, hg]
        using And.intro (Trans.trans hx.1 hk.1) hk.2

theorem mono {x : EStateM ε σ α} {P Q : α → σ → Prop} (hx : Keeps R F s x P)
    (h : ∀ a t, R s t → P a t → Q a t) : Keeps R F s x Q := by
  replace hx := hx.outcome
  constructor
  cases hs : x s with
  | error e t => rw [hs] at hx; exact hx
  | ok a t => rw [hs] at hx; exact ⟨hx.1, h a t hx.1 hx.2⟩

theorem congr {x y : EStateM ε σ α} {Q : α → σ → Prop} (h : x s = y s) (hy : Keeps R F s y Q) :
    Keeps R F s x Q := ⟨by rw [h]; exact hy.outcome⟩

/-- More failures are permitted. -/
theorem imp {G : ε → Prop} {x : EStateM ε σ α} {Q : α → σ → Prop} (hx : Keeps R F s x Q)
    (h : ∀ e, F e → G e) : Keeps R G s x Q := by
  replace hx := hx.outcome
  constructor
  cases hs : x s with
  | error e t => rw [hs] at hx; exact ⟨hx.1, h e hx.2⟩
  | ok a t => rw [hs] at hx; exact hx

/-- What comes after a look at the state. -/
theorem get_bind {f : σ → EStateM ε σ α} {Q : α → σ → Prop} (h : Keeps R F s (f s) Q) :
    Keeps R F s (MonadState.get >>= f) Q := ⟨h.outcome⟩

theorem and {x : EStateM ε σ α} {P Q : α → σ → Prop} (hx : Keeps R F s x P)
    (hx' : Keeps R F s x Q) : Keeps R F s x fun a t => P a t ∧ Q a t := by
  replace hx := hx.outcome
  replace hx' := hx'.outcome
  constructor
  cases hs : x s with
  | error e t => rw [hs] at hx; exact hx
  | ok a t => rw [hs] at hx hx'; exact ⟨hx.1, hx.2, hx'.2⟩

theorem of_ok {x : EStateM ε σ α} {Q : α → σ → Prop} {a : α} {t : σ} (h : Keeps R F s x Q)
    (hx : x s = .ok a t) : R s t ∧ Q a t := by
  have h := h.outcome
  rwa [hx] at h

theorem of_error {x : EStateM ε σ α} {Q : α → σ → Prop} {e : ε} {t : σ} (h : Keeps R F s x Q)
    (hx : x s = .error e t) : R s t ∧ F e := by
  have h := h.outcome
  rwa [hx] at h

/-- Elements one after the other; what is said of an answer lasts. -/
theorem mapM [Std.Refl R] [Trans R R R] {f : α → EStateM ε σ β} {P : β → σ → Prop}
    (hP : ∀ b t u, P b t → R t u → P b u) {l : List α}
    (hf : ∀ a ∈ l, ∀ t, R s t → Keeps R F t (f a) P) :
    Keeps R F s (l.mapM f) fun bs t => bs.length = l.length ∧ ∀ b ∈ bs, P b t := by
  induction l generalizing s with
  | nil =>
    rw [List.mapM_nil]
    exact .pure (Std.Refl.refl s) ⟨rfl, by simp⟩
  | cons a l ih =>
    rw [List.mapM_cons]
    refine .bind (hf a List.mem_cons_self s (Std.Refl.refl s)) fun b t hst hb => ?_
    refine .bind (ih fun a ha u htu => hf a (List.mem_cons_of_mem _ ha) u (Trans.trans hst htu))
      fun bs u htu hbs => .pure (Std.Refl.refl u) ?_
    refine ⟨by rw [List.length_cons, List.length_cons, hbs.1], ?_⟩
    exact List.forall_mem_cons.mpr ⟨hP b t u hb htu, hbs.2⟩

/-- Elements one after the other under an invariant; each answer is related to its element. -/
theorem mapM_forall₂ [Std.Refl R] [Trans R R R] {f : α → EStateM ε σ β} {I : σ → Prop}
    {P : α → β → σ → Prop} (hP : ∀ a b t u, P a b t → R t u → P a b u) {l : List α} (hs : I s)
    (hf : ∀ a ∈ l, ∀ t, R s t → I t → Keeps R F t (f a) fun b u => I u ∧ P a b u) :
    Keeps R F s (l.mapM f) fun bs t => I t ∧ List.Forall₂ (P · · t) l bs := by
  induction l generalizing s with
  | nil =>
    rw [List.mapM_nil]
    exact .pure (Std.Refl.refl s) ⟨hs, .nil⟩
  | cons a l ih =>
    rw [List.mapM_cons]
    refine .bind (hf a List.mem_cons_self s (Std.Refl.refl s) hs) fun b t hst hb => ?_
    refine .bind (ih hb.1 fun a ha u htu =>
      hf a (List.mem_cons_of_mem _ ha) u (Trans.trans hst htu)) fun bs u htu hbs => ?_
    exact .pure (Std.Refl.refl u) ⟨hbs.1, .cons (hP a b t u hb.2 htu) hbs.2⟩

/-- An invariant of a fold. -/
theorem foldlM [Std.Refl R] [Trans R R R] {f : β → α → EStateM ε σ β} {I : β → σ → Prop}
    {l : List α} {b : β} (hb : I b s)
    (hf : ∀ a ∈ l, ∀ b t, R s t → I b t → Keeps R F t (f b a) I) :
    Keeps R F s (l.foldlM f b) I := by
  induction l generalizing s b with
  | nil => exact .pure (Std.Refl.refl s) hb
  | cons a l ih =>
    rw [List.foldlM_cons]
    refine .bind (hf a List.mem_cons_self b s (Std.Refl.refl s) hb) fun b t hst hb => ?_
    exact ih hb fun a ha b u htu => hf a (List.mem_cons_of_mem _ ha) b u (Trans.trans hst htu)

end Keeps

/-- From a state a computation ends with an answer and a state, or with a failure and a state, that
belong together. -/
structure Leaves (s : σ) (act : EStateM ε σ α) (Q : α → σ → Prop) (E : ε → σ → Prop) : Prop where
  outcome : match act s with
    | .ok a t => Q a t
    | .error e t => E e t

namespace Leaves

variable {s : σ} {E : ε → σ → Prop}

theorem answers {act : EStateM ε σ α} {Q : α → σ → Prop} {a : α} {t : σ} (h : act s = .ok a t)
    (hq : Q a t) : Leaves s act Q E := ⟨by rw [h]; exact hq⟩

theorem fails {act : EStateM ε σ α} {Q : α → σ → Prop} {e : ε} {t : σ} (h : act s = .error e t)
    (he : E e t) : Leaves s act Q E := ⟨by rw [h]; exact he⟩

theorem pure {a : α} {Q : α → σ → Prop} (h : Q a s) : Leaves s (Pure.pure a) Q E := ⟨h⟩

theorem throw {e : ε} {Q : α → σ → Prop} (h : E e s) :
    Leaves s (MonadExcept.throw e) Q E := ⟨h⟩

theorem of_ok {x : EStateM ε σ α} {Q : α → σ → Prop} {a : α} {t : σ} (h : Leaves s x Q E)
    (hx : x s = .ok a t) : Q a t := by
  have h := h.outcome
  rwa [hx] at h

theorem of_error {x : EStateM ε σ α} {Q : α → σ → Prop} {e : ε} {t : σ} (h : Leaves s x Q E)
    (hx : x s = .error e t) : E e t := by
  have h := h.outcome
  rwa [hx] at h

theorem bind {x : EStateM ε σ α} {f : α → EStateM ε σ β} {P : α → σ → Prop} {Q : β → σ → Prop}
    (hx : Leaves s x P E) (hf : ∀ a t, P a t → Leaves t (f a) Q E) : Leaves s (x >>= f) Q E := by
  cases h : x s with
  | error e t => exact .fails (bind_of_error h) (hx.of_error h)
  | ok a t => exact ⟨by rw [bind_of_ok h]; exact (hf a t (hx.of_ok h)).outcome⟩

theorem mono {x : EStateM ε σ α} {P Q : α → σ → Prop} {G : ε → σ → Prop} (hx : Leaves s x P G)
    (hq : ∀ a t, P a t → Q a t) (he : ∀ e t, G e t → E e t) : Leaves s x Q E := by
  cases h : x s with
  | error e t => exact .fails h (he e t (hx.of_error h))
  | ok a t => exact .answers h (hq a t (hx.of_ok h))

/-- An invariant of a fold that depends on what is behind it. -/
theorem foldlM {f : β → α → EStateM ε σ β} {I : List α → β → σ → Prop} {l : List α} {b : β}
    (hb : I [] b s)
    (hf : ∀ before a after b' t, l = before ++ a :: after → before.foldlM f b s = .ok b' t →
      I before b' t → Leaves t (f b' a) (I (before ++ [a])) E) :
    Leaves s (l.foldlM f b) (I l) E := by
  -- along the rest of the list, with what is behind it as the state of the fold
  suffices h : ∀ rest before b' t, l = before ++ rest → before.foldlM f b s = .ok b' t →
      I before b' t → Leaves t (rest.foldlM f b') (I l) E from h l [] b s rfl rfl hb
  intro rest
  induction rest with
  | nil =>
    rintro before b' t rfl - hi
    rw [List.append_nil]
    exact .pure hi
  | cons a rest ih =>
    intro before b' t hl hbefore hi
    have hstep := hf before a rest b' t hl hbefore hi
    rw [List.foldlM_cons]
    cases ha : f b' a t with
    | error e u => exact .fails (bind_of_error ha) (hstep.of_error ha)
    | ok c u =>
      have hmore : (before ++ [a]).foldlM f b s = .ok c u := by
        rw [List.foldlM_append, bind_of_ok hbefore, List.foldlM_cons, bind_of_ok ha]
        rfl
      have hrest := ih (before ++ [a]) c u (by rw [hl, List.append_assoc]; rfl) hmore
        (hstep.of_ok ha)
      exact ⟨by rw [bind_of_ok ha]; exact hrest.outcome⟩

end Leaves

/-- A computation changes every state along a relation, also when it fails. -/
structure Along (R : σ → σ → Prop) (act : EStateM ε σ α) : Prop where
  keeps (s : σ) : Keeps R (fun _ => True) s act fun _ _ => True

namespace Along

variable {R : σ → σ → Prop}

theorem pure [Std.Refl R] (a : α) : Along R (Pure.pure a : EStateM ε σ α) :=
  ⟨fun s => .pure (Std.Refl.refl s) trivial⟩

theorem throw [Std.Refl R] (e : ε) : Along R (MonadExcept.throw e : EStateM ε σ α) :=
  ⟨fun s => .throw (Std.Refl.refl s) trivial⟩

theorem get [Std.Refl R] : Along R (MonadState.get : EStateM ε σ σ) :=
  ⟨fun s => .get (Std.Refl.refl s) trivial⟩

theorem bind [Trans R R R] {x : EStateM ε σ α} {f : α → EStateM ε σ β} (hx : Along R x)
    (hf : ∀ a, Along R (f a)) : Along R (x >>= f) :=
  ⟨fun s => (hx.keeps s).bind fun a t _ _ => (hf a).keeps t⟩

theorem tryCatch [Trans R R R] {x : EStateM ε σ α} {f : ε → EStateM ε σ α} (hx : Along R x)
    (hf : ∀ e, Along R (f e)) : Along R (MonadExcept.tryCatch x f) :=
  ⟨fun s => (hx.keeps s).tryCatch fun e t _ _ => (hf e).keeps t⟩

variable [Std.Refl R] [Trans R R R]

theorem map {x : EStateM ε σ α} (f : α → β) (hx : Along R x) : Along R (f <$> x) := by
  rw [map_eq_pure_bind]
  exact hx.bind fun a => pure (f a)

theorem mapM {f : α → EStateM ε σ β} (hf : ∀ a, Along R (f a)) (l : List α) :
    Along R (l.mapM f) := by
  induction l with
  | nil =>
    rw [List.mapM_nil]
    exact pure []
  | cons a l ih =>
    rw [List.mapM_cons]
    exact (hf a).bind fun b => ih.bind fun bs => pure (b :: bs)

theorem foldlM {f : β → α → EStateM ε σ β} (hf : ∀ b a, Along R (f b a)) (l : List α) (b : β) :
    Along R (l.foldlM f b) := by
  induction l generalizing b with
  | nil => exact pure b
  | cons a l ih =>
    rw [List.foldlM_cons]
    exact (hf b a).bind ih

theorem forIn {f : α → β → EStateM ε σ (ForInStep β)} (hf : ∀ a b, Along R (f a b)) (l : List α)
    (b : β) : Along R (ForIn.forIn l b f) := by
  induction l generalizing b with
  | nil => exact pure b
  | cons a l ih =>
    simp only [List.forIn_cons]
    refine (hf a b).bind fun next => ?_
    cases next with
    | done b => exact pure b
    | yield b => exact ih b

end Along

/-- From any state a computation ends with an answer as it should be, or with a permitted
failure. -/
structure Ends (F : ε → Prop) (act : EStateM ε σ α) (Q : α → Prop) : Prop where
  outcome (s : σ) : match act s with
    | .ok a _ => Q a
    | .error e _ => F e

namespace Ends

variable {F : ε → Prop}

theorem pure {a : α} {Q : α → Prop} (h : Q a) : Ends F (Pure.pure a : EStateM ε σ α) Q :=
  ⟨fun _ => h⟩

theorem throw {e : ε} {Q : α → Prop} (h : F e) :
    Ends F (MonadExcept.throw e : EStateM ε σ α) Q := ⟨fun _ => h⟩

/-- A change of the state, or a look at it. -/
theorem answers {act : EStateM ε σ α} (h : ∀ s, ∃ a t, act s = .ok a t) :
    Ends F act fun _ => True := by
  constructor
  intro s
  obtain ⟨a, t, ha⟩ := h s
  rw [ha]
  trivial

theorem of_ok {act : EStateM ε σ α} {Q : α → Prop} (h : Ends F act Q) {s t : σ} {a : α}
    (ha : act s = .ok a t) : Q a := by
  have h := h.outcome s
  rwa [ha] at h

theorem of_error {act : EStateM ε σ α} {Q : α → Prop} (h : Ends F act Q) {s t : σ} {e : ε}
    (he : act s = .error e t) : F e := by
  have h := h.outcome s
  rwa [he] at h

theorem bind {x : EStateM ε σ α} {f : α → EStateM ε σ β} {P : α → Prop} {Q : β → Prop}
    (hx : Ends F x P) (hf : ∀ a, P a → Ends F (f a) Q) : Ends F (x >>= f) Q := by
  constructor
  intro s
  cases h : x s with
  | error e t =>
    rw [bind_of_error h]
    exact hx.of_error h
  | ok a t =>
    rw [bind_of_ok h]
    exact (hf a (hx.of_ok h)).outcome t

theorem tryCatch {G : ε → Prop} {x : EStateM ε σ α} {f : ε → EStateM ε σ α} {Q : α → Prop}
    (hx : Ends G x Q) (hf : ∀ e, G e → Ends F (f e) Q) :
    Ends F (MonadExcept.tryCatch x f) Q := by
  constructor
  intro s
  cases h : x s with
  | error e t =>
    rw [tryCatch_of_error h]
    exact (hf e (hx.of_error h)).outcome t
  | ok a t =>
    rw [tryCatch_of_ok h]
    exact hx.of_ok h

theorem mono {x : EStateM ε σ α} {P Q : α → Prop} (hx : Ends F x P) (h : ∀ a, P a → Q a) :
    Ends F x Q := by
  constructor
  intro s
  cases hs : x s with
  | error e t => exact hx.of_error hs
  | ok a t => exact h a (hx.of_ok hs)

theorem map {x : EStateM ε σ α} {f : α → β} {P : α → Prop} {Q : β → Prop} (hx : Ends F x P)
    (h : ∀ a, P a → Q (f a)) : Ends F (f <$> x) Q := by
  rw [map_eq_pure_bind]
  exact hx.bind fun a ha => .pure (h a ha)

theorem mapM {f : α → EStateM ε σ β} {P : β → Prop} {l : List α}
    (hf : ∀ a ∈ l, Ends F (f a) P) : Ends F (l.mapM f) fun bs => ∀ b ∈ bs, P b := by
  induction l with
  | nil => exact .pure (by simp)
  | cons a l ih =>
    rw [List.mapM_cons]
    refine (hf a List.mem_cons_self).bind fun b hb => ?_
    refine (ih fun a ha => hf a (List.mem_cons_of_mem _ ha)).bind fun bs hbs => ?_
    exact .pure (List.forall_mem_cons.mpr ⟨hb, hbs⟩)

theorem foldlM {f : β → α → EStateM ε σ β} {I : β → Prop} {l : List α} {b : β} (hb : I b)
    (hf : ∀ a ∈ l, ∀ b, I b → Ends F (f b a) I) : Ends F (l.foldlM f b) I := by
  induction l generalizing b with
  | nil => exact .pure hb
  | cons a l ih =>
    rw [List.foldlM_cons]
    refine (hf a List.mem_cons_self b hb).bind fun b hb => ?_
    exact ih hb fun a ha => hf a (List.mem_cons_of_mem _ ha)

theorem forIn {f : α → β → EStateM ε σ (ForInStep β)} {l : List α} (b : β)
    (hf : ∀ a ∈ l, ∀ b, Ends F (f a b) fun _ => True) :
    Ends F (ForIn.forIn l b f) fun _ => True := by
  induction l generalizing b with
  | nil => exact .pure trivial
  | cons a l ih =>
    simp only [List.forIn_cons]
    refine (hf a List.mem_cons_self b).bind fun next _ => ?_
    cases next with
    | done b => exact .pure trivial
    | yield b => exact ih b fun a ha => hf a (List.mem_cons_of_mem _ ha)

end Ends

end RegisterScheme
