import RegisterScheme.Proofs.Generation.Operations

/-! Code for assignments. The value of a local goes straight to its register if nothing of it is
read meanwhile, and else by way of a temporary. -/

namespace RegisterScheme

namespace Setting

variable {scope : Scope} {outer : List Scope} {σ : Setting scope outer} {first : Nat}
  {r : Register} {x : Evaluating Value} {code : Code}

/-- The effect of an assignment. -/
def assign (σ : Setting scope outer) (target : VariableRef) (value : Expr) : Evaluating Unit := do
  let x ← σ.evaluate true value
  Evaluating.write (← Evaluating.place σ.here.address scope target) x

theorem evaluate_assignment (σ : Setting scope outer) (wanted : Bool) (target : VariableRef)
    (value : Expr) (location : Option Location) :
    σ.evaluate wanted (.assignment target value location) =
      σ.assign target value >>= fun _ => pure .unspecified := by
  rw [Setting.evaluate, Evaluating.evaluate, assign]
  simp only [bind_assoc]

/-- A value in the register of a variable is its value from then on. -/
theorem Settles.effects (h : σ.Settles r x code) (hr : r.val < scope.registers) :
    σ.Effects first (do
      let v ← x
      Evaluating.write (← Evaluating.place σ.here.address scope (.localVariable r)) v) code := by
  intro w s hw
  have hrun := (h w s hw).map (fun _ => ()) (S := fun _ k _ _ => k = 0) fun _ _ _ _ _ hq => hq.1
  have hset : σ.settle r = fun v => do
      Evaluating.write (.register σ.here.address r) v
      return v := funext fun v => if_pos hr
  simp only [hset, bind_assoc, pure_bind] at hrun
  refine Runs.mono ?_ (fun i hi _ => Nat.ne_of_gt (Nat.lt_of_lt_of_le hr hi))
    fun _ _ _ _ _ hq => hq
  simpa only [Evaluating.place, pure_bind, bind_pure_unit] using hrun

end Setting

namespace Lowering

open Generating

variable {inner : Lowering} {n : Nat} {scope : Scope} {outer : List Scope} {b : Builder}
  {e : Expr} {r : Register} {location : Option Location}

def storeGlobal (scope : Scope) (slot : Nat) (location : Option Location) (source : Register) :
    Generating Code := do
  emit location (Instruction.abx .setGlobal source (← globalName scope slot))

/-- The code of an assignment, with a temporary that it may leave in use. -/
def assignCode (inner : Lowering) (scope : Scope) (target : VariableRef) (value : Expr)
    (location : Option Location) : Generating Code :=
  match target with
  | .localVariable r =>
    if value.isDirect then inner.into scope r value
    else do
      let scratch ← allocate
      let code ← inner.into scope scratch value
      return code ++ (← emit location (Instruction.ab .move r scratch))
  | .captured slot => do
    let (code, source) ← inner.toRegister scope value
    return code ++ (← emit location (slotOperand slot >>= Instruction.ab .setCaptured source))
  | .global slot => do
    let (code, source) ← inner.toRegister scope value
    return code ++ (← storeGlobal scope slot location source)

theorem assign_eq (inner : Lowering) (scope : Scope) (target : VariableRef) (value : Expr)
    (location : Option Location) :
    inner.assign scope target value location = do
      let mark := (← get).free
      let code ← inner.assignCode scope target value location
      freeFrom scope mark
      return code := by
  unfold assign assignCode
  refine bind_congr fun b => ?_
  cases target with
  | localVariable r =>
    cases value <;>
      simp only [Expr.isDirect, if_true, if_false, bind_assoc, pure_bind, Bool.false_eq_true]
  | captured slot => simp only [bind_assoc, pure_bind]
  | global slot => simp only [storeGlobal, bind_assoc, pure_bind]

/-- The register of a temporary that holds the value, moved to the variable. -/
theorem moved_made (h : inner.Correct n) (hs : scope.Valid) (hb : b.Valid scope outer)
    (he : e.height ≤ n) (hsc : e.Scoped (scope :: outer)) (hr : r.val < scope.registers) :
    Generates b (do
        let scratch ← allocate
        let code ← inner.into scope scratch e
        return code ++ (← emit location (Instruction.ab .move r scratch))) fun code c =>
      c.Raised b.free 0 code fun σ : Setting scope outer =>
        σ.Effects b.free (σ.assign (.localVariable r) e) code := by
  refine Keeps.bind (allocate_keeps hb) fun scratch c hbc hq => ?_
  obtain ⟨hq, hf, hv⟩ := hq
  have hreg : scope.registers ≤ scratch.val := hq ▸ hb.registers_le
  refine Keeps.bind (h.into hs hv he hsc hreg (by omega)) fun code d hcd hm => ?_
  refine Keeps.bind (emit_keeps location _) fun line d' _ hline => .pure (.refl d') ?_
  obtain ⟨rfl, i, hi, rfl⟩ := hline
  have hi := Instruction.ab_eq_ok hi
  have hfree : d'.free = b.free + 1 := hm.free.trans hf
  have hsource : scratch.val < d'.used :=
    Nat.lt_of_lt_of_le (show scratch.val < d'.free by omega) hm.valid.free_le
  have hsize : r.val < d'.used := Nat.lt_of_lt_of_le hr (Nat.le_trans hreg (Nat.le_of_lt hsource))
  refine ⟨by omega, hm.valid, hm.works.append (Code.Works.mk (A := fun _ => True)
    (Code.fits_line (Instruction.fits_of_registers (by simp [hi.1]) ?_) ?_) fun _ _ => trivial)
    (Nat.zero_le _) fun σ hσ hc _ w s hw => ?_⟩
  · simp [Instruction.registers, hi.1, hi.2.1, hi.2.2.1, hsize, hsource]
  · exact Nat.le_of_eq (Instruction.reach_eq_zero (by simp [hi.1]))
  rw [hf] at hc
  refine Setting.Runs.append ((hc w s hw).mono (fun i _ hi => ⟨by omega, by omega⟩)
    fun _ _ _ _ _ hq => hq) fun v k w' s' hmoves hv => ?_
  obtain ⟨rfl, hh, hbuilt⟩ := hv
  have hmove := (Setting.move_runs location hi (hw.moves hmoves) hh hbuilt
    (Nat.lt_of_lt_of_le hsize hσ.frameSize)).map (fun _ => ()) (S := fun _ k _ _ => k = 0)
    fun _ _ _ _ _ hq => hq.2.1
  have hset : σ.settle r v = (do
      Evaluating.write (.register σ.here.address r) v
      return v) := if_pos hr
  simp only [hset, bind_assoc, pure_bind] at hmove
  refine Setting.Runs.mono ?_ (fun i hi _ => Nat.ne_of_gt (Nat.lt_of_lt_of_le hr hi))
    fun _ _ _ _ _ hq => hq
  simpa only [Evaluating.place, pure_bind, bind_pure_unit] using hmove

/-- A value in some register, and a line that takes it from there. -/
theorem stored_made (h : inner.Correct n) (hs : scope.Valid) (hb : b.Valid scope outer)
    (he : e.height ≤ n) (hsc : e.Scoped (scope :: outer)) {target : VariableRef}
    (store : Register → Generating Code)
    (hstore : ∀ (q : Register) (c : Builder), c.Valid scope outer → q.val < c.used →
      Generates c (store q) fun code d => d.free = c.free ∧ d.Valid scope outer ∧
        code.Works 0 (d.room scope) fun σ : Setting scope outer => ∀ w s v, σ.Ready w s →
          σ.Holds s q v → σ.Built w v → ∀ P, σ.Runs P w s (do
            Evaluating.write (← Evaluating.place σ.here.address scope target) v) code 0
            fun _ k _ _ => k = 0) :
    Generates b (do
        let (code, source) ← inner.toRegister scope e
        return code ++ (← store source)) fun code c =>
      c.Raised b.free 0 code fun σ : Setting scope outer =>
        σ.Effects b.free (σ.assign target e) code := by
  refine Keeps.bind (toRegister_made h hs hb he hsc) fun p c hbc hp => ?_
  obtain ⟨hl, hw⟩ := hp
  refine Keeps.bind (hstore p.2 c hl.valid (Nat.lt_of_lt_of_le hl.lt_free hl.valid.free_le))
    fun line d hcd hd => .pure (.refl d) ?_
  obtain ⟨hf, hv, hline⟩ := hd
  refine ⟨hf ▸ hl.free_le, hv, (hw.grows hcd).append hline (Nat.zero_le _) ?_⟩
  intro σ _ hdeliver hrun w s hready
  refine (hdeliver w s hready).append fun v k w' s' hm hq => ?_
  obtain ⟨rfl, hh, hbuilt⟩ := hq
  exact hrun w' s' v (hready.moves hm) hh hbuilt _

theorem assignCode_made (h : inner.Correct n) (hs : scope.Valid) (hb : b.Valid scope outer)
    (he : e.height ≤ n) (hsc : e.Scoped (scope :: outer)) {name : String} {target : VariableRef}
    (htarget : target.Names name (scope :: outer)) :
    Generates b (inner.assignCode scope target e location) fun code c =>
      c.Raised b.free 0 code fun σ : Setting scope outer =>
        σ.Effects b.free (σ.assign target e) code := by
  obtain ⟨_, hscope, hslot⟩ := htarget
  obtain rfl := Option.some.inj hscope
  cases target with
  | localVariable r =>
    have hr := hs.holds_lt hslot
    by_cases hdirect : e.isDirect
    · simp only [assignCode, if_pos hdirect]
      refine (h.settle hs hb he hsc hdirect (Nat.lt_of_lt_of_le hr hb.registers_le)).mono ?_
      intro code c _ hm
      exact hm.raised.imp fun σ hset => hset.effects hr
    · simp only [assignCode, if_neg hdirect]
      exact moved_made h hs hb he hsc hr
  | captured slot =>
    obtain ⟨distance, owned, hslot⟩ := hslot
    refine stored_made h hs hb he hsc (fun source => emit location (slotOperand slot >>=
      Instruction.ab .setCaptured source)) fun q c hc hq => ?_
    refine (emit_keeps location _).mono ?_
    rintro _ _ _ ⟨rfl, i, hi, rfl⟩
    have hi := Instruction.ab_eq_ok (slotOperand_bind_eq_ok hi)
    refine ⟨rfl, hc, Code.fits_line (Instruction.fits_captured (.inr hi.1) (by rwa [hi.2.1]) ?_)
      (Nat.le_of_eq (Instruction.reach_eq_zero (by simp [hi.1]))), fun σ hσ w s v hw hh hv P => ?_⟩
    · refine ⟨distance, owned, ?_⟩
      rw [hi.2.2.1]
      exact (List.getElem?_map).trans (congrArg _ hslot)
    · exact Setting.setCaptured_runs location hi hw hσ.kinds.symm hslot hh hv
  | global slot =>
    refine stored_made h hs hb he hsc (storeGlobal scope slot location) fun q c hc hq => ?_
    refine Keeps.bind (globalName_keeps hc hslot) fun index d hcd hd => ?_
    obtain ⟨hf, hv, first, hl⟩ := hd
    refine (emit_keeps location _).mono ?_
    rintro _ _ _ ⟨rfl, i, hi, rfl⟩
    have hi := Instruction.abx_eq_ok hi
    refine ⟨hf, hv, Code.fits_line (Instruction.fits_global (.inr hi.1) ?_ ?_)
      (Nat.le_of_eq (Instruction.reach_eq_zero (by simp [hi.1]))), fun σ hσ w s v hw hh hv P => ?_⟩
    · rw [hi.2.1]
      exact Nat.lt_of_lt_of_le hq hcd.used
    · refine ⟨first, name, ?_⟩
      rw [hi.2.2]
      exact Array.getElem?_toList.trans hl
    · exact Setting.setGlobal_runs location hi hw hslot (Builder.literal_of_within hσ hl) hh hv

theorem assign_made (h : inner.Correct n) (hs : scope.Valid) (hb : b.Valid scope outer)
    (he : e.height ≤ n) (hsc : e.Scoped (scope :: outer)) {name : String} {target : VariableRef}
    (htarget : target.Names name (scope :: outer)) :
    Generates b (inner.assign scope target e location) fun code c =>
      c.Made b.free 0 code fun σ : Setting scope outer =>
        σ.Effects b.free (σ.assign target e) code := by
  rw [assign_eq]
  exact freed_made (fun _ => inner.assignCode scope target e location) 0 hb
    (assignCode_made h hs hb he hsc htarget)

end Lowering

end RegisterScheme
