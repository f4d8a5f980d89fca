import RegisterScheme.Proofs.Generation.Calls

/-! Code for sequences, and then for all forms of expressions: from code for what is not too high
comes code for what is one higher. -/

namespace RegisterScheme

/-- Most expressions are evaluated in the same way whether their values are wanted or not. -/
theorem Evaluating.evaluate_congr (call : Value → List Value → Evaluating Value) (here : Nat)
    (scope : Scope) {e : Expr} (h : ¬e.isDirect) (hs : ∀ items l, e ≠ .sequence items l) :
    evaluate call here scope false e = evaluate call here scope true e := by
  cases e
  case literal | reference | lambda => exact absurd rfl h
  case sequence items l => exact absurd rfl (hs items l)
  case operation op es l =>
    by_cases hand : op = .and
    · subst hand
      rw [evaluate, evaluate]
    · by_cases hor : op = .or
      · subst hor
        rw [evaluate, evaluate]
      · rw [evaluate, evaluate] <;> assumption
  all_goals rw [evaluate, evaluate]

namespace Setting

variable {scope : Scope} {outer : List Scope} (σ : Setting scope outer)

/-- Expressions evaluated for their effects. -/
def effects : List Expr → Evaluating Unit
  | [] => return
  | e :: es => do
    let _ ← σ.evaluate false e
    effects es

theorem sequence_append (wanted : Bool) (es : List Expr) (last : Expr) :
    Evaluating.sequence σ.evaluateCall σ.here.address scope wanted (es ++ [last]) =
      σ.effects es >>= fun _ => σ.evaluate wanted last := by
  induction es with
  | nil =>
    rw [List.nil_append, Evaluating.sequence, effects, pure_bind]
  | cons e es ih =>
    obtain ⟨e', es', hes⟩ : ∃ e' es', es ++ [last] = e' :: es' := List.exists_cons_of_ne_nil (by simp)
    rw [List.cons_append, hes, Evaluating.sequence, ← hes, ih, effects, bind_assoc]
    simp

variable {σ} {first : Nat} {es : List Expr} {codes : List Code}
  {location : Option Location}

theorem effects_runs
    (h : List.Forall₂ (fun e code => σ.Effects first (σ.evaluate false e) code) es codes) :
    σ.Effects first (σ.effects es) codes.flatten := by
  induction h with
  | nil => exact fun w s hw => .nil hw.agrees rfl
  | cons he _ ih =>
    intro w s hw
    rw [effects, List.flatten_cons]
    refine (he w s hw).append fun v k w' s' hm hk => ?_
    subst hk
    exact ih w' s' (hw.moves hm)

theorem sequence_runs
    (h : List.Forall₂ (fun e code => σ.Effects first (σ.evaluate false e) code) es codes) :
    σ.Effects first (σ.evaluate false (.sequence es location)) codes.flatten := by
  rw [evaluate, Evaluating.evaluate]
  induction h with
  | nil =>
    rw [Evaluating.sequence]
    exact fun w s hw => .nil hw.agrees rfl
  | cons he hes ih =>
    cases hes with
    | nil =>
      rw [Evaluating.sequence, List.flatten_singleton]
      exact he
    | cons he' hes =>
      intro w s hw
      rw [Evaluating.sequence, List.flatten_cons]
      · refine (he w s hw).append fun v k w' s' hm hk => ?_
        subst hk
        exact ih w' s' (hw.moves hm)
      · simp

end Setting

namespace Lowering

open Generating

variable {inner : Lowering} {n : Nat} {scope : Scope} {outer : List Scope} {b : Builder}
  {e : Expr} {es : List Expr} {r : Register} {location : Option Location}

theorem effects_made (h : inner.Correct n) (hs : scope.Valid) (hb : b.Valid scope outer)
    (hes : ∀ e ∈ es, e.height ≤ n ∧ e.Scoped (scope :: outer)) :
    Generates b (es.mapM (inner.effect scope)) fun codes c =>
      c.Made b.free 0 codes.flatten fun σ : Setting scope outer =>
        List.Forall₂ (fun e code => σ.Effects b.free (σ.evaluate false e) code) es codes := by
  refine (Keeps.mapM_forall₂ (I := fun c : Builder => c.free = b.free ∧ c.Valid scope outer)
    (P := fun e (code : Code) c => code.Works 0 (c.room scope) fun σ : Setting scope outer =>
      σ.Effects b.free (σ.evaluate false e) code)
    (fun _ _ _ _ hw hg => hw.grows hg) ⟨rfl, hb⟩ fun e he c _ hc => ?_).mono
    fun codes c _ hp => ?_
  · obtain ⟨hf, hv⟩ := hc
    refine (h.effect hs hv (hes e he).1 (hes e he).2).mono fun code d _ hm => ?_
    rw [hf] at hm
    exact ⟨⟨hm.free, hm.valid⟩, hm.works⟩
  · obtain ⟨⟨hf, hv⟩, hcodes⟩ := hp
    refine ⟨hf, hv, Code.fits_flatten fun code hmem => ?_, fun σ hσ => ?_⟩
    · obtain ⟨j, hj, rfl⟩ := List.getElem_of_mem hmem
      exact (hcodes.get (hcodes.length_eq ▸ hj) hj).fits
    · exact hcodes.imp fun _ _ hw => hw.runs σ hσ

/-- The value of the last expression. -/
theorem sequence_made (h : inner.Correct n) (hs : scope.Valid) (hb : b.Valid scope outer)
    (hes : ∀ e ∈ es, e.height ≤ n ∧ e.Scoped (scope :: outer)) (ht : scope.registers ≤ r.val)
    (hr : r.val < b.free) {last : Expr} (hlast : es.getLast? = some last) :
    Generates b (do
        let pieces ← es.dropLast.mapM (inner.effect scope)
        return pieces.flatten ++ (← inner.into scope r last)) fun code c =>
      c.Made b.free 0 code fun σ : Setting scope outer =>
        σ.Computes b.free r (σ.evaluate true (.sequence es location)) code := by
  have hsplit : es.dropLast ++ [last] = es := List.dropLast_append_getLast? last hlast
  obtain ⟨he, hsc⟩ := hes last (List.mem_of_getLast? hlast)
  refine Keeps.bind (effects_made h hs hb fun e he => hes e (List.dropLast_subset es he))
    fun pieces c _ hp => ?_
  refine Keeps.bind (h.into hs hp.valid he hsc ht (hp.free ▸ hr)) fun code d hcd hm =>
    .pure (.refl d) ?_
  rw [hp.free] at hm
  refine ⟨hm.free, hm.valid, (hp.works.grows hcd).append hm.works (Nat.zero_le _) ?_⟩
  intro σ _ heffects hcomputes w s hw
  rw [Setting.evaluate, Evaluating.evaluate, ← hsplit, Setting.sequence_append]
  refine Setting.Runs.append ((Setting.effects_runs heffects w s hw).mono (fun _ _ hi => hi.1)
    fun _ _ _ _ _ hq => hq) fun _ k w' s' hm hk => ?_
  subst hk
  exact hcomputes w' s' (hw.moves hm)

/-- Constants, variables and closures in any register. -/
theorem lowerInto_settles (h : inner.Correct n) (hs : scope.Valid) (hb : b.Valid scope outer)
    (he : e.height ≤ n + 1) (hsc : e.Scoped (scope :: outer)) (hdirect : e.isDirect)
    (hr : r.val < b.used) :
    Generates b (inner.lowerInto scope r e) fun code c =>
      c.Made b.free 0 code fun σ : Setting scope outer =>
        σ.Settles r (σ.evaluate true e) code := by
  cases hsc <;> try cases hdirect
  case literal q location =>
    refine (loadQuotation_made hb hr q).mono fun code c _ hm => ?_
    refine ⟨hm.free, hm.valid, hm.works.imp fun σ _ hset => ?_⟩
    rwa [Setting.evaluate, Evaluating.evaluate, if_pos rfl]
  case reference name v location hnames =>
    refine (loadVariable_made hs hb hr hnames).mono fun code c _ hm => ?_
    refine ⟨hm.free, hm.valid, hm.works.imp fun σ _ hset => ?_⟩
    rwa [Setting.evaluate, Evaluating.evaluate, if_pos rfl]
  case lambda f location hf =>
    simp only [Expr.height, Nat.add_le_add_iff_right] at he
    exact lambda_made h hb he hf hr

/-- An assignment has an unspecified value. -/
theorem unspecified_made (h : inner.Correct n) (hs : scope.Valid) (hb : b.Valid scope outer)
    {name : String} {target : VariableRef} {value : Expr} (he : value.height ≤ n)
    (hsc : value.Scoped (scope :: outer)) (htarget : target.Names name (scope :: outer))
    (ht : scope.registers ≤ r.val) (hr : r.val < b.free) :
    Generates b (do
        let code ← inner.assign scope target value location
        return code ++ (← loadUnspecified r location)) fun code c =>
      c.Made b.free 0 code fun σ : Setting scope outer =>
        σ.Computes b.free r (σ.evaluate true (.assignment target value location)) code := by
  refine Keeps.bind (assign_made h hs hb he hsc htarget) fun code c hbc hm => ?_
  have hr' : r.val < c.used := Nat.lt_of_lt_of_le (Nat.lt_of_lt_of_le hr hb.free_le) hbc.used
  refine Keeps.bind (loadUnspecified_made hm.valid hr') fun load d hcd hload => .pure (.refl d) ?_
  refine ⟨hload.free.trans hm.free, hload.valid, (hm.works.grows hcd).append hload.works
    (Nat.zero_le _) fun σ _ heffect hset w s hw => ?_⟩
  rw [Setting.evaluate_assignment]
  refine Setting.Runs.append ((heffect w s hw).mono (fun _ _ hi => hi.1)
    fun _ _ _ _ _ hq => hq) fun _ k w' s' hm hk => ?_
  subst hk
  exact hset.computes ht b.free w' s' (hw.moves hm)

/-- The value of any expression in a temporary. -/
theorem lowerInto_made (h : inner.Correct n) (hs : scope.Valid) (hb : b.Valid scope outer)
    (he : e.height ≤ n + 1) (hsc : e.Scoped (scope :: outer)) (ht : scope.registers ≤ r.val)
    (hr : r.val < b.free) :
    Generates b (inner.lowerInto scope r e) fun code c =>
      c.Made b.free 0 code fun σ : Setting scope outer =>
        σ.Computes b.free r (σ.evaluate true e) code := by
  have hr' : r.val < b.used := Nat.lt_of_lt_of_le hr hb.free_le
  by_cases hdirect : e.isDirect
  · refine (lowerInto_settles h hs hb he hsc hdirect hr').mono fun code c _ hm => ?_
    exact ⟨hm.free, hm.valid, hm.works.imp fun σ _ hset => hset.computes ht b.free⟩
  cases hsc
  case literal | reference | lambda => exact absurd rfl hdirect
  case assignment name target value location hnames hvalue =>
    simp only [Expr.height, Nat.add_le_add_iff_right] at he
    exact unspecified_made h hs hb he hvalue hnames ht hr
  case branch hst hsc hso => exact branch_made h hs hb he (.branch hst hsc hso) ht hr
  case cond hst hsb hso => exact cond_made h hs hb he (.cond hst hsb hso) ht hr
  case operation harity hes => exact operation_made h hs hb he (.operation harity hes) ht hr
  case call hcallee hes => exact call_made h hs hb he (.call hcallee hes) ht hr
  case sequence items location hes =>
    simp only [Expr.height, Nat.add_le_add_iff_right, Expr.heightOfList_le] at he
    unfold lowerInto
    dsimp only
    cases hlast : items.getLast? with
    | none =>
      obtain rfl := List.getLast?_eq_none_iff.mp hlast
      refine (loadUnspecified_made hb hr').mono fun code c _ hm => ?_
      refine ⟨hm.free, hm.valid, hm.works.imp fun σ _ hset => ?_⟩
      rw [Setting.evaluate, Evaluating.evaluate, Evaluating.sequence]
      exact hset.computes ht b.free
    | some last =>
      exact sequence_made h hs hb (fun e hmem => ⟨he e hmem, hes e hmem⟩) ht hr hlast

/-- The effect of an expression whose value goes to a temporary that is free again. -/
theorem discarded_made (h : inner.Correct n) (hs : scope.Valid) (hb : b.Valid scope outer)
    (he : e.height ≤ n + 1) (hsc : e.Scoped (scope :: outer)) (hdirect : ¬e.isDirect)
    (hsequence : ∀ items l, e ≠ .sequence items l) :
    Generates b (do
        let mark := (← get).free
        let scratch ← allocate
        let code ← inner.lowerInto scope scratch e
        freeFrom scope mark
        return code) fun code c =>
      c.Made b.free 0 code fun σ : Setting scope outer =>
        σ.Effects b.free (σ.evaluate false e) code := by
  have hmade := freed_made (fun _ => do inner.lowerInto scope (← allocate) e) 0
    (A := fun code (σ : Setting scope outer) => σ.Effects b.free (σ.evaluate false e) code) hb ?_
  · simpa only [bind_assoc] using hmade
  refine Keeps.bind (allocate_keeps hb) fun scratch c hbc hq => ?_
  obtain ⟨hq, hf, hv⟩ := hq
  refine (lowerInto_made h hs hv he hsc (hq ▸ hb.registers_le) (by omega)).mono fun code d _ hm => ?_
  have hfree := hm.free
  refine ⟨by omega, hm.valid, hm.works.imp fun σ _ hc w s hw => ?_⟩
  rw [Setting.evaluate, Evaluating.evaluate_congr _ _ _ hdirect hsequence, ← Setting.evaluate]
  exact (hc w s hw).mono (fun i _ hi => ⟨by omega, by omega⟩) fun _ _ _ _ _ hq => hq.1

theorem lowerEffect_made (h : inner.Correct n) (hs : scope.Valid) (hb : b.Valid scope outer)
    (he : e.height ≤ n + 1) (hsc : e.Scoped (scope :: outer)) :
    Generates b (inner.lowerEffect scope e) fun code c =>
      c.Made b.free 0 code fun σ : Setting scope outer =>
        σ.Effects b.free (σ.evaluate false e) code := by
  have hnothing {e : Expr} (hdirect : e.isDirect) : Generates b (pure []) fun code c =>
      c.Made b.free 0 code fun σ : Setting scope outer =>
        σ.Effects b.free (σ.evaluate false e) code := by
    refine .pure (.refl b) ⟨rfl, hb, Code.fits_nil, fun σ _ w s hw => ?_⟩
    cases e <;> try cases hdirect
    all_goals
      rw [Setting.evaluate, Evaluating.evaluate]
      exact .nil hw.agrees rfl
  cases hsc
  case literal | reference | lambda => exact hnothing rfl
  case assignment name target value location hnames hvalue =>
    simp only [Expr.height, Nat.add_le_add_iff_right] at he
    refine (assign_made h hs hb he hvalue hnames).mono fun code c _ hm => ?_
    refine ⟨hm.free, hm.valid, hm.works.imp fun σ _ heffect w s hw => ?_⟩
    rw [Setting.evaluate_assignment]
    exact (heffect w s hw).map _ fun _ _ _ _ _ hk => hk
  case branch hst hsc hso =>
    exact discarded_made h hs hb he (.branch hst hsc hso) (by simp [Expr.isDirect]) (by simp)
  case cond hst hsb hso =>
    exact discarded_made h hs hb he (.cond hst hsb hso) (by simp [Expr.isDirect]) (by simp)
  case operation harity hes =>
    exact discarded_made h hs hb he (.operation harity hes) (by simp [Expr.isDirect]) (by simp)
  case call hcallee hes =>
    exact discarded_made h hs hb he (.call hcallee hes) (by simp [Expr.isDirect]) (by simp)
  case sequence items location hes =>
    simp only [Expr.height, Nat.add_le_add_iff_right, Expr.heightOfList_le] at he
    refine Keeps.bind (effects_made h hs hb fun e hmem => ⟨he e hmem, hes e hmem⟩)
      fun codes c _ hm => .pure (.refl c) ?_
    exact ⟨hm.free, hm.valid, hm.works.imp fun σ _ heffects => Setting.sequence_runs heffects⟩

end Lowering

end RegisterScheme
