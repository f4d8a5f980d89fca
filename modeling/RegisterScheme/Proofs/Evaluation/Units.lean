import RegisterScheme.Proofs.Correctness.Execution
import RegisterScheme.Proofs.Evaluation.AlikeCalls
import RegisterScheme.Proofs.Expr.Units

/-! The expressions of two programs, evaluated in a row by one program and by one program after the
other. -/

namespace RegisterScheme

namespace Evaluating

section

variable (call : Value → List Value → Evaluating Value) (here : Nat) (scope : Scope)

theorem evaluate_inRow (wanted : Bool) (es : List Expr) (place : Option Location) :
    evaluate call here scope wanted (.inRow es place) =
      sequence call here scope wanted es := by
  rcases es with _ | ⟨e, _ | ⟨f, es⟩⟩
  · rw [Expr.inRow, evaluate]
    simp
  · rw [Expr.inRow, sequence]
  · rw [Expr.inRow, evaluate]
    simp

theorem sequence_append (wanted : Bool) {ds : List Expr} (hds : ds ≠ []) (es : List Expr) :
    sequence call here scope wanted (es ++ ds) =
      sequence call here scope false es >>= fun _ => sequence call here scope wanted ds := by
  obtain ⟨d, ds, rfl⟩ := List.exists_cons_of_ne_nil hds
  induction es with
  | nil => rw [List.nil_append, sequence, pure_bind]
  | cons e es ih =>
    cases es with
    | nil => rw [List.singleton_append, sequence_cons, sequence]
    | cons f es =>
      rw [List.cons_append, List.cons_append, sequence_cons, ← List.cons_append, ih, sequence_cons,
        bind_assoc]

end

/-- What has succeeded in a procedure may as well have been done before. -/
theorem inProcedure_of_ok {α β : Type} {x : Evaluating α} {f : α → Evaluating β} {a : α}
    {w w' : World} (h : x w = .ok a w') (name : String) :
    inProcedure name (x >>= f) w = inProcedure name (f a) w' := by
  simp only [inProcedure, MonadExcept.tryCatch, tryCatchThe, MonadExceptOf.tryCatch,
    EStateM.tryCatch, bind_of_ok h]

theorem inProcedure_eq_ok {α : Type} {x : Evaluating α} {a : α} {w w' : World}
    (h : x w = .ok a w') (name : String) : inProcedure name x w = .ok a w' :=
  tryCatch_of_ok h

theorem ok_of_inProcedure {α : Type} {x : Evaluating α} {name : String} {a : α} {w w' : World}
    (h : inProcedure name x w = .ok a w') : x w = .ok a w' := by
  cases hx : x w with
  | ok b u =>
    rwa [inProcedure, tryCatch_of_ok hx] at h
  | error e u =>
    rw [inProcedure, tryCatch_of_error hx] at h
    cases h

end Evaluating

open Evaluating

/-- The world in which the expressions of a program are evaluated. -/
def World.opened (w : World) (f : Function) (t : Template) : World :=
  { w with
    procedures := w.procedures.push (f, none)
    environments := w.environments.push ⟨⟨w.procedures.size, t, none⟩, fun _ => .nil⟩ }

theorem Function.Consists.formals {f : Function} {es : List Expr} (h : f.Consists es) :
    f.formals = ⟨0, [], false, [], none⟩ := by
  rw [Function.formals, List.filterMap_eq_nil_iff.mpr ?_, h.parameters]
  · rfl
  · intro b hb
    rw [h.globals b hb]

/-- A program does nothing but evaluate its expressions. -/
theorem Machine.evaluate_of_consists {m : Machine} {f : Function} {es : List Expr} {t : Template}
    {room here : Nat} (hf : f.Consists es) (ht : f.template = .ok t)
    (hroom : m.depth = room + 1) {w : World} (hhere : w.environments.size = here) :
    m.evaluate f w = inProcedure f.displayName
      (sequence (m.evaluateWith (m.evaluateClosure room)) here f.scope true es) (w.opened f t) := by
  subst hhere
  let c : Closure := ⟨w.procedures.size, t, none⟩
  let v : World := { w with procedures := w.procedures.push (f, none) }
  have hclosure : newClosure f none w = .ok c v := by
    simp only [newClosure, ht]
    rfl
  have hprocedure : procedure c v = .ok f v := procedure_eq Array.getElem?_push_size
  have henter : enter c v = .ok w.environments.size (w.opened f t) := rfl
  have hbind (run : Closure → Evaluating Value) (here : Nat) :
      bindArguments run here f [] = pure () := by
    rw [bindArguments, hf.formals]
    rfl
  obtain ⟨place, hbody⟩ := hf.body
  rw [Machine.evaluate, bind_of_ok hclosure, hroom, evaluateClosure, bind_of_ok hprocedure,
    inProcedure_of_ok henter]
  simp only [hbind, pure_bind, hbody, evaluate_inRow]

/-! ### The first program -/

/-- More activations and closures on the first side, for which nothing stands on the second. -/
theorem World.Alike.enlarge {reserved : Nat → Prop} {κ : Correspondence} {w w' v : World}
    (hw : w.Alike reserved κ w') (hglobals : v.globals = w.globals)
    (hobjects : w.nextObject ≤ v.nextObject)
    (hprocedures : ∀ (i : Nat) x, w.procedures[i]? = some x → v.procedures[i]? = some x)
    (henvironments : ∀ (i : Nat) x, w.environments[i]? = some x → v.environments[i]? = some x) :
    v.Alike reserved κ w' where
  oneToOne := hw.oneToOne
  globals := hglobals ▸ hw.globals
  objects i j h :=
    ⟨Nat.lt_of_lt_of_le (hw.objects i j h).1 hobjects, (hw.objects i j h).2⟩
  below := hw.below
  closures _ _ h := hw.closures_mono (le_refl κ) hprocedures (fun _ _ h => h) h
  environments _ _ _ _ h := hw.environments_mono (le_refl κ) henvironments (fun _ _ h => h) h

namespace Evaluating

variable {reserved : Nat → Prop} {r : Renumbering} {here here' : Nat} {s s' : Scope}
  {call call' : Value → List Value → Evaluating Value}

theorem alike_unwanted_of_ne (hcall : AlikeCalls reserved call call') {κ : Correspondence}
    (h : Abreast κ r 0 here here' s s') {e e' : Expr} (he : e.Alike r 0 e')
    (hdirect : ¬e.isDirect) (hsequence : ∀ items l, e ≠ .sequence items l) {w w' w₁ : World}
    {v : Value} (hw : w.Alike reserved κ w') (hv : evaluate call here s true e w = .ok v w₁) :
    ∃ μ v' w₂, κ ≤ μ ∧ evaluate call' here' s' false e' w' = .ok v' w₂ ∧
      w₁.Alike reserved μ w₂ := by
  rw [← evaluate_congr call here s hdirect hsequence] at hv
  obtain ⟨μ, v', w₂, hle, hv', hw', -⟩ := (alike_evaluate hcall false h e he).ok hw hv
  exact ⟨μ, v', w₂, hle, hv', hw'⟩

mutual

/-- What is evaluated for its value here may be evaluated for its effects there. -/
theorem alike_unwanted (hcall : AlikeCalls reserved call call') {κ : Correspondence}
    (h : Abreast κ r 0 here here' s s') : (e : Expr) → {e' : Expr} → e.Alike r 0 e' →
    {w w' w₁ : World} → {v : Value} → w.Alike reserved κ w' →
    evaluate call here s true e w = .ok v w₁ → ∃ μ v' w₂, κ ≤ μ ∧
      evaluate call' here' s' false e' w' = .ok v' w₂ ∧ w₁.Alike reserved μ w₂
  | .literal q l, _, .literal _, w, w', w₁, v, hw, hv => by
    rw [evaluate] at hv ⊢
    cases hv
    exact ⟨κ, _, w', le_refl κ, rfl, hw⟩
  | .reference x l, _, .reference hx, w, w', w₁, v, hw, hv => by
    obtain ⟨i, j, rfl, rfl, hij⟩ := hx
    obtain ⟨b, b', hb, -, -⟩ := h.scopes i j hij
    rw [evaluate] at hv ⊢
    change (place here s (.global i) >>= read) w = _ at hv
    rw [bind_of_ok (place_global_eq hb), read_global_eq] at hv
    cases hv
    exact ⟨κ, _, w', le_refl κ, rfl, hw⟩
  | .lambda f l, _, .lambda _, w, w', w₁, v, hw, hv => by
    rw [evaluate] at hv ⊢
    change (newClosure f (some here) >>= fun c => pure (Value.closure c)) w = _ at hv
    cases ht : f.template with
    | error e =>
      rw [bind_of_error (by simp only [newClosure, ht]; rfl)] at hv
      cases hv
    | ok t =>
      rw [bind_of_ok (by simp only [newClosure, ht]; rfl)] at hv
      cases hv
      exact ⟨κ, _, w', le_refl κ, rfl, hw.enlarge rfl (Nat.le_refl _)
        (fun _ _ h => getElem?_push_of_some h) fun _ _ h => h⟩
  | .sequence items l, _, .sequence hitems, w, w', w₁, v, hw, hv => by
    rw [evaluate] at hv ⊢
    exact alike_effects hcall h items hitems hw hv
  | .assignment .., _, he, w, w', w₁, v, hw, hv =>
    alike_unwanted_of_ne hcall h he (by simp [Expr.isDirect]) (by simp) hw hv
  | .branch .., _, he, w, w', w₁, v, hw, hv =>
    alike_unwanted_of_ne hcall h he (by simp [Expr.isDirect]) (by simp) hw hv
  | .cond .., _, he, w, w', w₁, v, hw, hv =>
    alike_unwanted_of_ne hcall h he (by simp [Expr.isDirect]) (by simp) hw hv
  | .operation .., _, he, w, w', w₁, v, hw, hv =>
    alike_unwanted_of_ne hcall h he (by simp [Expr.isDirect]) (by simp) hw hv
  | .call .., _, he, w, w', w₁, v, hw, hv =>
    alike_unwanted_of_ne hcall h he (by simp [Expr.isDirect]) (by simp) hw hv
termination_by structural e => e

theorem alike_effects (hcall : AlikeCalls reserved call call') {κ : Correspondence}
    (h : Abreast κ r 0 here here' s s') : (es : List Expr) → {es' : List Expr} →
    Exprs.Alike r 0 es es' → {w w' w₁ : World} → {v : Value} → w.Alike reserved κ w' →
    sequence call here s true es w = .ok v w₁ → ∃ μ v' w₂, κ ≤ μ ∧
      sequence call' here' s' false es' w' = .ok v' w₂ ∧ w₁.Alike reserved μ w₂
  | [], _, .nil, w, w', w₁, v, hw, hv => by
    rw [sequence] at hv ⊢
    cases hv
    exact ⟨κ, _, w', le_refl κ, rfl, hw⟩
  | [e], _, .cons he .nil, w, w', w₁, v, hw, hv => by
    rw [sequence] at hv ⊢
    exact alike_unwanted hcall h e he hw hv
  | e :: f :: es, _, .cons he (.cons hf hes), w, w', w₁, v, hw, hv => by
    rw [sequence_cons] at hv ⊢
    obtain ⟨x, u, hfirst, hmore⟩ := answers_of_bind hv
    obtain ⟨μ, x', u', hle, hfirst', hu, -⟩ := (alike_evaluate hcall false h e he).ok hw hfirst
    rw [bind_of_ok hfirst']
    obtain ⟨ν, v', w₂, hle', hrest⟩ :=
      alike_effects hcall (h.mono hle) (f :: es) (.cons hf hes) hu hmore
    exact ⟨ν, v', w₂, le_trans hle hle', hrest⟩
termination_by structural es => es

end

end Evaluating

/-! ### One program after the other -/

/-- Nothing stands for anything. -/
def Correspondence.empty : Correspondence :=
  ⟨fun _ _ => False, fun _ _ => False, fun _ _ _ _ => False⟩

namespace World

/-- The world before anything has run, with the quotations of the first program. -/
def before (g : Globals) (nextObject : Nat) : World := ⟨#[], g.find?, #[], nextObject⟩

/-- At the start there are only natives, and what both programs quote. -/
theorem alike_start {g : Globals}
    (hg : ∀ name v, g.find? name = some v → ∃ n, v = .native (.standard n)) (next n : Nat)
    (f h : Function) (t u : Template) :
    Alike (fun j => ∃ k < n, j = next + k)
      (Correspondence.empty.withObjects 0 0 next) ((before g next).opened f t)
      ((before g (next + n)).opened h u) where
  oneToOne := by
    refine ⟨?_, fun _ _ _ _ hc => hc.elim, fun _ _ _ _ _ _ _ _ he => he.elim⟩
    rintro i j i' j' (hi | ⟨k, -, rfl, rfl⟩) (hj | ⟨l, -, rfl, rfl⟩)
    · exact hi.elim
    · exact hi.elim
    · exact hj.elim
    · exact Iff.rfl
  globals name := by
    change Option.Rel _ (g.find? name) (g.find? name)
    cases hv : g.find? name with
    | none => exact .none
    | some v =>
      obtain ⟨native, rfl⟩ := hg name v hv
      exact .some (.native native)
  objects := by
    rintro i j (h | ⟨k, hk, rfl, rfl⟩)
    · exact h.elim
    refine ⟨?_, ?_, ?_⟩
    · change 0 + k < next
      omega
    · change 0 + k < next + n
      omega
    · rintro ⟨l, hl, hkl⟩
      omega
  below := by
    rintro j ⟨k, hk, rfl⟩
    exact Nat.add_lt_add_left hk next
  closures _ _ h := h.elim
  environments _ _ _ _ h := h.elim

/-- The objects that are kept for quotations stand for those quoted now. -/
theorem Alike.quote {κ : Correspondence} {w w' : World} {next n : Nat}
    (hw : w.Alike (fun j => ∃ k < n, j = next + k) κ w') :
    Alike (fun _ => False) (κ.withObjects w.nextObject next n)
      { w with nextObject := w.nextObject + n } w' := by
  have hle := κ.le_withObjects w.nextObject next n
  refine ⟨⟨?_, hw.oneToOne.closures, hw.oneToOne.environments⟩, globals_mono hle hw.globals, ?_,
    fun _ h => h.elim, fun c c' hc => hw.closures_mono hle (fun _ _ h => h) (fun _ _ h => h) hc,
    fun e p e' p' he => hw.environments_mono hle (fun _ _ h => h) (fun _ _ h => h) he⟩
  · rintro i j i' j' (hi | ⟨k, hk, rfl, rfl⟩) (hj | ⟨l, hl, rfl, rfl⟩)
    · exact hw.oneToOne.objects i j i' j' hi hj
    · obtain ⟨hlt, -, hreserved⟩ := hw.objects i i' hi
      exact ⟨fun h => by omega, fun h => absurd ⟨l, hl, h⟩ hreserved⟩
    · obtain ⟨hlt, -, hreserved⟩ := hw.objects j j' hj
      exact ⟨fun h => by omega, fun h => absurd ⟨k, hk, h.symm⟩ hreserved⟩
    · omega
  · rintro i j (hij | ⟨k, hk, rfl, rfl⟩)
    · obtain ⟨hi, hj, -⟩ := hw.objects i j hij
      exact ⟨Nat.lt_of_lt_of_le hi (Nat.le_add_right _ _), hj, not_false⟩
    · exact ⟨Nat.add_lt_add_left hk _, hw.below _ ⟨k, hk, rfl⟩, not_false⟩

theorem Alike.opened {reserved : Nat → Prop} {κ : Correspondence} {w w' : World}
    (hw : w.Alike reserved κ w') (f : Function) (t : Template) :
    (w.opened f t).Alike reserved κ w' :=
  hw.enlarge rfl (Nat.le_refl _) (fun _ _ h => getElem?_push_of_some h)
    fun _ _ h => getElem?_push_of_some h

theorem alike_of_meets {reserved : Nat → Prop} {κ : Correspondence}
    {r r' : EStateM.Result Failure World Value}
    (h : (World.pairing reserved).Meets κ Value.Alike r r') : ∃ μ,
      (remains r).Alike reserved μ (remains r') ∧ Agree (Value.Alike μ) (answer r) (answer r') := by
  cases h with
  | ok _ hw hv => exact ⟨_, hw, .ok hv⟩
  | error hw =>
    obtain ⟨μ, hw⟩ := hw
    exact ⟨μ, hw, .error⟩

end World

/-- Outside of procedures nothing but the names of globals counts. -/
theorem Evaluating.abreast_between (κ : Correspondence) (s s' : Scope)
    (first first' count here here' : Nat) : Abreast (κ.withObjects first first' count)
      (.between s s' first first' count) 0 here here' s s' where
  objects _ _ h := .inr h
  scopes := by
    rintro i j ⟨name, hi, hj⟩
    exact ⟨_, _, hi, hj, rfl⟩
  around := .outermost _ _

namespace Machine

variable {m : Machine} {w : World}

theorem depth_of_evaluate_ok {f : Function} {t : Template} {v : Value} {w₁ : World}
    (ht : f.template = .ok t) (h : m.evaluate f w = .ok v w₁) : ∃ room, m.depth = room + 1 := by
  cases hdepth : m.depth with
  | succ room => exact ⟨room, rfl⟩
  | zero =>
    rw [Machine.evaluate, bind_of_ok (by simp only [newClosure, ht]; rfl), hdepth,
      evaluateClosure] at h
    cases hlimit : m.callLimit with
    | none =>
      rw [hlimit] at h
      cases h
    | some limit =>
      rw [hlimit] at h
      cases h

/-- What comes of two programs, one after the other, comes of one of the expressions of both: the
worlds that are left behind are alike, and so are the answers if the second has expressions. -/
theorem evaluate_units {g₀ : Globals}
    (hg₀ : ∀ name v, g₀.find? name = some v → ∃ n, v = .native (.standard n))
    {f g h : Function} {t u x : Template} {es es' ds ds' : List Expr} {next n : Nat} {v : Value}
    {w₁ : World} (hf : f.Consists es) (hg : g.Consists ds) (hh : h.Consists (es' ++ ds'))
    (ht : f.template = .ok t) (hu : g.template = .ok u) (hx : h.template = .ok x)
    (hes : Exprs.Alike (.between f.scope h.scope 0 0 next) 0 es es')
    (hds : Exprs.Alike (.between g.scope h.scope w₁.nextObject next n) 0 ds ds')
    (hfirst : m.evaluate f (.before g₀ next) = .ok v w₁) :
    let second := m.evaluate g { w₁ with nextObject := w₁.nextObject + n }
    let whole := m.evaluate h (.before g₀ (next + n))
    ∃ κ, (remains second).Alike (fun _ => False) κ (remains whole) ∧
      (ds' ≠ [] → Agree (Value.Alike κ) (answer second) (answer whole)) := by
  obtain ⟨room, hroom⟩ := depth_of_evaluate_ok ht hfirst
  have hcalls (reserved : Nat → Prop) : AlikeCalls reserved
      (m.evaluateWith (m.evaluateClosure room)) (m.evaluateWith (m.evaluateClosure room)) :=
    m.alikeCalls_evaluateWith fun μ c c' vs vs' hc hvs => m.alike_evaluateClosure room hc hvs
  have hstart := World.alike_start hg₀ next n f h t x
  rw [evaluate_of_consists hf ht hroom rfl] at hfirst
  replace hfirst := ok_of_inProcedure hfirst
  have hzero : (World.before g₀ (next + n)).environments.size = 0 := rfl
  dsimp only
  rw [evaluate_of_consists hg hu hroom rfl, evaluate_of_consists hh hx hroom hzero]
  by_cases hsecond : ds' = []
  · subst hsecond
    cases hds
    have hwhole := alike_sequence (hcalls fun j => ∃ k < n, j = next + k) true
      (abreast_between .empty f.scope h.scope 0 0 next 0 0) es hes
    obtain ⟨κ, v', w₂, -, hfirst', hw₂, -⟩ := hwhole.ok hstart hfirst
    rw [List.append_nil, inProcedure_eq_ok hfirst', Evaluating.sequence]
    exact ⟨_, hw₂.quote.opened g u, fun h => absurd rfl h⟩
  · -- the first program, for its value on one side and for its effects on the other
    obtain ⟨κ, v', w₂, -, hfirst', hw₂⟩ := alike_effects (hcalls _)
      (abreast_between .empty f.scope h.scope 0 0 next 0 0) es hes hstart hfirst
    rw [sequence_append _ _ _ _ hsecond, inProcedure_of_ok hfirst']
    have habreast := abreast_between κ g.scope h.scope w₁.nextObject next n w₁.environments.size 0
    have hrest := alike_inProcedure (alike_sequence (hcalls fun _ => False) true habreast ds hds)
      g.displayName h.displayName
    obtain ⟨μ, hw, hv⟩ := World.alike_of_meets (hrest.outcome _ _ (hw₂.quote.opened g u))
    exact ⟨μ, hw, fun _ => hv⟩

end Machine

end RegisterScheme
