import RegisterScheme.Proofs.Generation.Assignment

/-! Code for calls and for lambda expressions. The procedure and the arguments lie in a row of
temporaries, which starts at the destination if that is the last one in use. -/

namespace RegisterScheme

namespace Lowering

open Generating

variable {inner : Lowering} {n : Nat} {scope : Scope} {outer : List Scope} {b : Builder}
  {r : Register} {location : Option Location}

/-- Where the row of a call begins. -/
def rowFrom (scope : Scope) (r : Register) (mark : Nat) : Generating Register :=
  if r + 1 = mark ∧ scope.registers ≤ r then return r else allocate

/-- The result of a call goes to its destination. -/
def moveFrom (base r : Register) (location : Option Location) : Generating Code :=
  if base = r then return [] else emit location (Instruction.ab .move r base)

def callCode (inner : Lowering) (scope : Scope) (r : Register) (callee : Expr) (es : List Expr)
    (location : Option Location) (mark : Nat) : Generating Code := do
  let base ← rowFrom scope r mark
  let callee ← inner.into scope base callee
  let arguments ← inner.arguments scope es
  let call ← emit location (Instruction.abc .call base (es.length + 1) 2)
  return callee ++ arguments ++ call ++ (← moveFrom base r location)

theorem call_eq (inner : Lowering) (scope : Scope) (r : Register) (callee : Expr)
    (es : List Expr) (location : Option Location) :
    inner.call scope r callee es location = do
      let mark := (← get).free
      let code ← inner.callCode scope r callee es location mark
      freeFrom scope mark
      return code := by
  unfold call callCode rowFrom moveFrom
  refine bind_congr fun b => ?_
  dsimp only
  by_cases hrow : r.val + 1 = b.free ∧ scope.registers ≤ r.val
  · simp only [if_pos hrow, pure_bind, bind_assoc, if_true]
  · simp only [if_neg hrow, bind_assoc, pure_bind]
    refine bind_congr fun base => bind_congr fun callee => bind_congr fun arguments =>
      bind_congr fun call => ?_
    by_cases hbase : base = r
    · simp only [if_pos hbase, pure_bind]
    · simp only [if_neg hbase]

/-- The row begins above the temporaries in use, or at the last of them. -/
theorem rowFrom_keeps (hb : b.Valid scope outer) :
    Generates b (rowFrom scope r b.free) fun base c => c.Valid scope outer ∧
      c.free = base.val + 1 ∧ scope.registers ≤ base.val ∧ b.free ≤ c.free ∧
      ∀ i, i < b.free → i ≠ r.val → i < base.val := by
  unfold rowFrom
  split
  · rename_i hrow
    refine .pure (.refl b) ⟨hb, hrow.1.symm, hrow.2, Nat.le_refl _, fun i hi hne => ?_⟩
    omega
  · refine (allocate_keeps hb).mono fun base c _ h => ?_
    obtain ⟨hbase, hf, hv⟩ := h
    refine ⟨hv, by omega, hbase ▸ hb.registers_le, by omega, fun i hi _ => by omega⟩

theorem moveFrom_made {base : Register} (hb : b.Valid scope outer) (hr : r.val < b.used)
    (hbase : base.val < b.used) (ht : scope.registers ≤ r.val) :
    Generates b (moveFrom base r location) fun code c =>
      c.Made b.free 0 code fun σ : Setting scope outer => ∀ w s v, σ.Ready w s →
        σ.Holds s base v → σ.Built w v →
        σ.Runs (· ≠ r.val) w s (pure v) code 0 (σ.Result r) := by
  unfold moveFrom
  split
  · rename_i heq
    subst heq
    exact .pure (.refl b) ⟨rfl, hb, Code.fits_nil, fun σ _ w s v hw hh hv =>
      .nil hw.agrees ⟨rfl, hh, hv⟩⟩
  · refine emit_made hb fun i hi => ?_
    have hi := Instruction.ab_eq_ok hi
    refine ⟨Instruction.fits_of_registers (by simp [hi.1]) ?_,
      Nat.le_of_eq (Instruction.reach_eq_zero (by simp [hi.1])), fun σ hσ w s v hw hh hv => ?_⟩
    · simp [Instruction.registers, hi.1, hi.2.1, hi.2.2.1, hr, hbase]
    · have hmove := Setting.move_runs location hi hw hh hv (Nat.lt_of_lt_of_le hr hσ.frameSize)
      rw [Setting.settle_temporary ht] at hmove
      exact hmove.imp fun u k w' s' _ h => h.1 ▸ h.2

theorem callCode_made (h : inner.Correct n) (hs : scope.Valid) (hb : b.Valid scope outer)
    {callee : Expr} {es : List Expr} (hcallee : callee.height ≤ n ∧ callee.Scoped (scope :: outer))
    (hes : ∀ e ∈ es, e.height ≤ n ∧ e.Scoped (scope :: outer)) (ht : scope.registers ≤ r.val)
    (hr : r.val < b.free) :
    Generates b (inner.callCode scope r callee es location b.free) fun code c =>
      c.Raised b.free 0 code fun σ : Setting scope outer =>
        σ.Computes b.free r (σ.evaluate true (.call callee es location)) code := by
  refine Keeps.bind (rowFrom_keeps hb) fun base c hbc hc => ?_
  obtain ⟨hv, hf, hreg, hle, hrow⟩ := hc
  refine Keeps.bind (h.into hs hv hcallee.1 hcallee.2 hreg (by omega)) fun first d hcd hfirst => ?_
  rw [hf] at hfirst
  refine Keeps.bind (arguments_made h hs hes hfirst.valid) fun more d' hdd hmore => ?_
  rw [hfirst.free] at hmore
  have hsize : base.val + 1 + es.length ≤ d'.used := hmore.free ▸ hmore.valid.free_le
  have hr' : r.val < d'.used :=
    Nat.lt_of_lt_of_le (Nat.lt_of_lt_of_le hr hb.free_le) (hbc.trans (hcd.trans hdd)).used
  refine Keeps.bind (emit_keeps location _) fun call d'' _ hcall => ?_
  obtain ⟨rfl, i, hi, rfl⟩ := hcall
  have hi := Instruction.abc_eq_ok hi
  refine Keeps.bind (moveFrom_made hmore.valid hr' (by omega) ht) fun move e hde hmove =>
    .pure (.refl e) ⟨?_, hmove.valid, ?_⟩
  · have := hmove.free
    have := hmore.free
    omega
  have hline : Code.Fits [⟨i, location⟩] 0 (e.room scope) := by
    have hcount : 1 ≤ i.b := hi.2.2.1 ▸ Nat.le_add_left 1 _
    refine Code.fits_line (Instruction.fits_call hi.1 hcount fun q _ hq => ?_)
      (Nat.le_of_eq (Instruction.reach_eq_zero (by simp [hi.1])))
    rw [hi.2.1, hi.2.2.1] at hq
    refine Nat.lt_of_lt_of_le ?_ hde.used
    omega
  have hfirstWorks := hfirst.works.grows (hdd.trans hde)
  have hmoreWorks := hmore.works.grows hde
  rw [List.append_assoc, List.append_assoc]
  refine ⟨hfirstWorks.fits.append (hmoreWorks.fits.append (hline.append hmove.works.fits
    (Nat.zero_le _)) (Nat.zero_le _)) (Nat.zero_le _), fun σ hσ w s hw => ?_⟩
  rw [Setting.evaluate, Evaluating.evaluate]
  refine Setting.Runs.append ((hfirstWorks.runs σ hσ w s hw).mono (fun j _ hj => ?_)
    fun _ _ _ _ _ hq => hq) fun f k w' s' hm hq => ?_
  · have := hrow j hj.1 hj.2
    omega
  obtain ⟨rfl, hh, hbuilt⟩ := hq
  have hw' := hw.moves hm
  refine Setting.Runs.append ((hmoreWorks.runs σ hσ w' s' hw').mono (fun j _ hj => ?_)
    fun vs k w'' s'' hm' hq => And.intro (hh.moves hw' hm' hreg (Nat.lt_succ_self _)) hq)
    fun vs k w'' s'' hm' hq => ?_
  · have := hrow j hj.1 hj.2
    omega
  obtain ⟨hbase, rfl, hlen, hholds, hbs⟩ := hq
  have hw'' := hw'.moves hm'
  rw [← hlen] at hi
  refine Setting.Runs.finish ((Setting.call_runs location hi hw'' hbase
    (hbuilt.grows hm'.grows) hholds hbs hreg ?_).mono (fun j _ hj => ?_)
    fun _ _ _ _ _ hq => hq) fun v k w₁ s₁ hm₁ hq => ?_
  · have hbase' : base.val < d''.used := by omega
    exact Nat.lt_of_lt_of_le (Nat.lt_of_lt_of_le hbase' hde.used) hσ.frameSize
  · exact Nat.ne_of_lt (hrow j hj.1 hj.2)
  · obtain ⟨rfl, hh, hbuilt⟩ := hq
    exact (hmove.works.runs σ hσ w₁ s₁ v (hw''.moves hm₁) hh hbuilt).mono (fun _ _ hj => hj.2)
      fun _ _ _ _ _ hq => hq

theorem call_made (h : inner.Correct n) (hs : scope.Valid) (hb : b.Valid scope outer)
    {callee : Expr} {es : List Expr} (hheight : (Expr.call callee es location).height ≤ n + 1)
    (hsc : (Expr.call callee es location).Scoped (scope :: outer)) (ht : scope.registers ≤ r.val)
    (hr : r.val < b.free) :
    Generates b (inner.call scope r callee es location) fun code c =>
      c.Made b.free 0 code fun σ : Setting scope outer =>
        σ.Computes b.free r (σ.evaluate true (.call callee es location)) code := by
  cases hsc with
  | call hcallee hes =>
  simp only [Expr.height, Nat.add_le_add_iff_right, Nat.max_le, Expr.heightOfList_le] at hheight
  rw [call_eq]
  exact freed_made (inner.callCode scope r callee es location) 0 hb
    (callCode_made h hs hb ⟨hheight.1, hcallee⟩ (fun e he => ⟨hheight.2 e he, hes e he⟩) ht hr)

/-- A closure over the activation that makes it. -/
theorem lambda_made (h : inner.Correct n) (hb : b.Valid scope outer) {f : Function}
    (hheight : f.height ≤ n) (hsc : f.Scoped (scope :: outer)) (hr : r.val < b.used) :
    Generates b (inner.lambda r f location) fun code c =>
      c.Made b.free 0 code fun σ : Setting scope outer =>
        σ.Settles r (σ.evaluate true (.lambda f location)) code := by
  unfold lambda
  cases hf : inner.function f with
  | error e => exact .throw (.refl b) (h.error hheight hsc hf)
  | ok t =>
    have ht := h.template hheight hf
    refine Keeps.bind (pushLiteral_keeps hb (l := .template t) ?_) fun index c hbc hc => ?_
    · rintro _ ⟨⟩
      exact ⟨f, hsc, ht⟩
    obtain ⟨hfree, hv, hl, -⟩ := hc
    rw [← hfree]
    refine emit_made hv fun i hi => ?_
    have hi := Instruction.abx_eq_ok hi
    refine ⟨Instruction.fits_closure hi.1 ?_ ⟨t, ?_⟩,
      Nat.le_of_eq (Instruction.reach_eq_zero (by simp [hi.1])), fun σ hσ w s hw => ?_⟩
    · rw [hi.2.1]
      exact Nat.lt_of_lt_of_le hr hbc.used
    · rw [hi.2.2]
      exact Array.getElem?_toList.trans hl
    · rw [Setting.evaluate, Evaluating.evaluate, if_pos rfl, bind_assoc]
      simp only [pure_bind]
      exact Setting.closure_runs location hi hw (Builder.literal_of_within hσ hl) ht hsc
        (Nat.lt_of_lt_of_le (Nat.lt_of_lt_of_le hr hbc.used) hσ.frameSize)

end Lowering

end RegisterScheme
