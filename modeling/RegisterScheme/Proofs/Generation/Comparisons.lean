import RegisterScheme.Proofs.Generation.Operators

/-! Code for comparisons. Neighbours are compared until two of them do not compare. -/

namespace RegisterScheme

/-- What only changes an answer fails as it did. -/
theorem Evaluating.located_map {α β : Type} (l : Option Location) (g : α → β)
    (r : Except Failure α) :
    located l (do return g (← ofExcept r)) = do return g (← located l (ofExcept r)) := by
  funext w
  cases r with
  | ok a => rfl
  | error e => rfl

namespace Lowering

open Generating

variable {inner : Lowering} {n : Nat} {scope : Scope} {outer : List Scope} {b : Builder}
  {e : Expr} {es : List Expr} {r : Register} {location : Option Location}

/-- The comparisons of neighbours, and what is loaded after them. -/
theorem chain_made (hb : b.Valid scope outer) {os : List Operand} {o : Operand}
    (ho : ∀ x ∈ o :: os, (b.room scope).Holds x.half) (ht : scope.registers ≤ r.val)
    (hr : r.val < b.used) {opcode : Opcode} {op : Comparison}
    (hop : Running.comparison? opcode = some op) (swap : Bool) :
    Generates b (chain r opcode swap (o :: os) location) fun code c =>
      c.Made b.free 0 code fun σ : Setting scope outer => ∀ w s u vs, σ.Ready w s →
        List.Forall₂ (σ.Reads s) (o :: os) (u :: vs) →
        σ.Runs (· ≠ r.val) w s
          (do return .boolean (← Evaluating.located location
            (Evaluating.ofExcept (StandardNative.chain op swap u vs))))
          code 0 (σ.Result r) := by
  have hpiece {x y : Operand} (hx : (b.room scope).Holds x.half)
      (hy : (b.room scope).Holds y.half) {i : Instruction}
      (hi : i.opcode = opcode ∧ i.a = 0 ∧ i.b = x.half ∧ i.c = y.half) :
      Code.Fits [⟨i, location⟩] 1 (b.room scope) := by
    obtain ⟨rfl, ha, hb', hc⟩ := hi
    refine Code.fits_line (Instruction.fits_of_operands ?_ ?_ hb' hc hx hy) ?_
    · revert hop
      cases i.opcode <;> simp [Running.comparison?]
    · rw [ha]
      exact Nat.lt_of_le_of_lt (Nat.zero_le _) hr
    · revert hop
      unfold Instruction.reach
      cases i.opcode <;> simp [Running.comparison?]
  refine Keeps.bind (Keeps.mapM_forall₂ (I := fun d => d = b)
    (P := fun (p : Operand × Operand) (code : Code) (d : Builder) =>
      (∃ i, code = [⟨i, location⟩] ∧ i.opcode = opcode ∧ i.a = 0 ∧
        i.b = (if swap then p.2 else p.1).half ∧ i.c = (if swap then p.1 else p.2).half) ∧
      code.Fits 1 (d.room scope))
    (fun _ _ d d' hd hdd' => ⟨hd.1, hd.2.mono (hdd'.within scope)⟩) rfl ?_)
    fun pieces c _ hpieces => ?_
  · rintro ⟨x, y⟩ hmem _ - rfl
    have hx := ho x (List.of_mem_zip hmem).1
    have hy := ho y (List.mem_cons_of_mem _ (List.of_mem_zip hmem).2)
    cases swap with
    | false =>
      refine (emit_keeps location _).mono fun code d _ hcode => ?_
      obtain ⟨rfl, i, hi, rfl⟩ := hcode
      exact ⟨rfl, ⟨i, rfl, Instruction.abc_eq_ok hi⟩, hpiece hx hy (Instruction.abc_eq_ok hi)⟩
    | true =>
      refine (emit_keeps location _).mono fun code d _ hcode => ?_
      obtain ⟨rfl, i, hi, rfl⟩ := hcode
      exact ⟨rfl, ⟨i, rfl, Instruction.abc_eq_ok hi⟩, hpiece hy hx (Instruction.abc_eq_ok hi)⟩
  obtain ⟨rfl, hpieces⟩ := hpieces
  refine Keeps.bind (loadBoolean_made hb hr true true) fun last d hcd hlast => ?_
  refine Keeps.bind (joined_keeps last pieces) fun code d' _ hcode => ?_
  obtain ⟨rfl, hexits⟩ := hcode
  have hfits : code.Fits 1 (d'.room scope) := by
    refine hexits.fits (fun piece hmem => ?_) hlast.works.fits
    obtain ⟨j, hj, rfl⟩ := List.getElem_of_mem hmem
    exact ((hpieces.get (hpieces.length_eq ▸ hj) hj).2).mono (hcd.within scope)
  refine Keeps.bind ((loadBoolean_made hlast.valid (Nat.lt_of_lt_of_le hr hcd.used) false
    false).and (emit_keeps location _)) fun load d'' hdd h => .pure (.refl d'') ?_
  obtain ⟨hload, -, _, -, hline⟩ := h
  have hlen : load.length = 1 := by rw [hline]; rfl
  refine ⟨hload.free.trans hlast.free, hload.valid,
    (hfits.mono (hdd.within scope)).append hload.works.fits (Nat.le_of_eq hlen.symm), ?_⟩
  intro σ hσ w s u vs hw hvs
  obtain ⟨hu, hvs⟩ := List.forall₂_cons.mp hvs
  have hcompares : Setting.Compares opcode swap location ((o :: os).zip os) pieces := by
    refine hpieces.imp fun _ _ h => ?_
    obtain ⟨⟨i, hline, hop, ha, hoperands⟩, -⟩ := h
    exact ⟨i, hline, hop, congrArg Fin.val ha, hoperands⟩
  refine Setting.Runs.append (Setting.chain_runs hop hcompares hexits hw hu hvs
    fun s hw => ?_) fun holds k w' s' hm h => ?_
  · have htrue := hlast.works.runs σ ((hdd.within scope).trans hσ) w s hw
    rw [Setting.settle_temporary ht] at htrue
    have hmap := htrue.map (S := fun _ k _ s' => k = 1 ∧ σ.Holds s' r (.boolean true))
      (fun _ => true) fun _ _ _ _ _ h => h.2
    rwa [pure_bind] at hmap
  · cases holds with
    | true =>
      obtain ⟨rfl, hh⟩ := h
      have hend : σ.Runs (· ≠ r.val) w' s' (pure (.boolean true)) (load ++ []) (load.length + 0)
          (σ.Result r) := Setting.Runs.skipped (.nil hm.agrees ⟨rfl, hh, Setting.built_atom _⟩)
      rwa [List.append_nil, hlen] at hend
    | false =>
      obtain rfl := h
      have hfalse := hload.works.runs σ hσ w' s' (hw.moves hm)
      rw [Setting.settle_temporary ht] at hfalse
      refine hfalse.imp fun v k w'' s'' _ h => ?_
      obtain ⟨rfl, hk, hh⟩ := h
      exact ⟨hk, hh, Setting.built_atom _⟩

/-- A comparison of all operands. -/
theorem compared_made (h : inner.Correct n) (hs : scope.Valid) (hb : b.Valid scope outer)
    (hes : ∀ e ∈ es, e.height ≤ n ∧ e.Scoped (scope :: outer)) (ht : scope.registers ≤ r.val)
    (hr : r.val < b.free) {opcode : Opcode} {comparison : Comparison} {op : Operator}
    (hop : Running.comparison? opcode = some comparison) (swap : Bool) (hlen : 1 ≤ es.length)
    (heq : ∀ u vs, Evaluating.operate op (u :: vs) =
      do return .boolean (← Evaluating.ofExcept (StandardNative.chain comparison swap u vs))) :
    Generates b (do
        let (code, operands) ← inner.operands scope es
        pure (code ++ (← chain r opcode swap operands location))) fun code c =>
      c.Raised b.free 0 code fun σ : Setting scope outer =>
        σ.Computes b.free r (σ.operation op es location) code := by
  refine Keeps.bind (operands_made h hs hes hb) fun p c hbc hp => ?_
  obtain ⟨code, os⟩ := p
  obtain ⟨ho, hl, hw⟩ := hp
  cases os with
  | nil => exact absurd (hl ▸ hlen) (by simp)
  | cons o os =>
    have hr' : r.val < c.used :=
      Nat.lt_of_lt_of_le (Nat.lt_of_lt_of_le hr hb.free_le) hbc.used
    refine Keeps.bind (chain_made ho.valid ho.holds ht hr' hop swap) fun compare d hcd hm =>
      .pure (.refl d) ⟨Nat.le_trans ho.free_le (Nat.le_of_eq hm.free.symm), hm.valid, ?_⟩
    refine (hw.grows hcd).append hm.works (Nat.zero_le _) fun σ _ hg hchain => ?_
    refine hg.computes fun vs w s hw hvs _ => ?_
    cases vs with
    | nil => cases hvs
    | cons u vs =>
      rw [heq, Evaluating.located_map]
      exact hchain w s u vs hw hvs

theorem operands_singleton (inner : Lowering) (scope : Scope) (e : Expr) :
    inner.operands scope [e] = do
      let (code, operand) ← inner.nextOperand scope e []
      return (code, [operand]) := by
  rw [operands_cons]
  refine bind_congr fun p => ?_
  simp only [operands, pure_bind, List.append_nil]

/-- A comparison with the empty list. -/
theorem isNull_made (h : inner.Correct n) (hs : scope.Valid) (hb : b.Valid scope outer)
    (he : e.height ≤ n) (hsc : e.Scoped (scope :: outer)) (ht : scope.registers ≤ r.val)
    (hr : r.val < b.free) :
    Generates b (do
        let (code, operands) ← inner.operands scope [e]
        let (load, nil) ← atomOperand .nil location
        pure (code ++ load ++ (← chain r .equivalent false (operands ++ [nil]) location)))
      fun code c => c.Raised b.free 0 code fun σ : Setting scope outer =>
        σ.Computes b.free r (σ.operation .isNull [e] location) code := by
  rw [operands_singleton]
  simp only [bind_assoc, pure_bind]
  refine Keeps.bind (nextOperand_made h hs hb he hsc) fun p c hbc hp => ?_
  obtain ⟨ho, hlast, hw⟩ := hp
  refine Keeps.bind (atomOperand_made ho.valid .nil) fun p' d hcd hp' => ?_
  obtain ⟨hv, hf, -, hnil, hload⟩ := hp'
  have hr' : r.val < d.used :=
    Nat.lt_of_lt_of_le (Nat.lt_of_lt_of_le hr hb.free_le) (hbc.trans hcd).used
  have hholds : ∀ x ∈ [p.2, p'.2], (d.room scope).Holds x.half :=
    List.forall_mem_cons.mpr ⟨(hcd.within scope).holds ho.holds, by simpa using hnil⟩
  refine Keeps.bind (chain_made hv hholds ht hr'
    (show Running.comparison? .equivalent = some .equivalent from rfl) false)
    fun compare d' hdd' hm => .pure (.refl d') ⟨?_, hm.valid, ?_⟩
  · exact Nat.le_trans (Nat.le_trans ho.free_le hf) (Nat.le_of_eq hm.free.symm)
  have hboth := (hw.grows hcd).append hload (Nat.zero_le _)
    (C := fun σ => σ.Gathers b.free [p.2, p'.2]
      (do return (← σ.evaluate true e) :: (← (pure [.nil] : Evaluating (List Value))))
      (p.1 ++ p'.1))
    fun σ _ hx hxs => hx.gathers (by simpa only [pure_bind] using hxs.singleton) ho.free_le
      (fun q hq _ => (ho.register q hq).lt_free) (.inl (.pure _))
  refine (hboth.grows hdd').append hm.works (Nat.zero_le _) fun σ _ hg hchain => ?_
  have hcomputes := hg.computes (r := r) (k := compare) (f := fun vs =>
    match vs with
    | u :: vs => do return .boolean (← Evaluating.located location
        (Evaluating.ofExcept (StandardNative.chain .equivalent false u vs)))
    | [] => pure .nil) fun vs w s hw hvs _ => ?_
  · have hnull (v : Value) : Evaluating.located location (Evaluating.operate .isNull [v]) =
        (do return .boolean (← Evaluating.located location
          (Evaluating.ofExcept (StandardNative.chain .equivalent false v [.nil])))) := by
      rw [← Evaluating.located_map, StandardNative.chain_equivalent]
      rfl
    rw [Setting.operation, Setting.values_singleton]
    simp only [bind_assoc, pure_bind, hnull]
    simp only [bind_assoc, pure_bind] at hcomputes
    exact hcomputes
  · cases vs with
    | nil => cases hvs
    | cons u vs => exact hchain w s u vs hw hvs

end Lowering

end RegisterScheme
