import RegisterScheme.Proofs.Generation.Comparisons
import RegisterScheme.Proofs.Template.Height

/-! Code for choices. A test is followed by a jump to the next alternative, and an alternative by a
jump behind the last one. -/

namespace RegisterScheme

namespace Setting

variable {scope : Scope} {outer : List Scope} (σ : Setting scope outer)

abbrev alternativeValue (e : Option Expr) : Evaluating Value :=
  Evaluating.alternativeValue σ.evaluateCall σ.here.address scope e

/-- The value of an operand of the given truth. -/
def decisive (stop : Bool) (e : Expr) : Evaluating (Option Value) := do
  let v ← σ.evaluate true e
  return if v.isTruthy == stop then some v else none

/-- The value of a clause whose test holds. -/
def clauseValue (c : Clause Expr) : Evaluating (Option Value) :=
  match c.body with
  | none => σ.decisive true c.test
  | some body => do
    if (← σ.evaluate true c.test).isTruthy then return some (← σ.evaluate true body)
    else return none

theorem junction_append (stop : Bool) (es : List Expr) (last : Expr) :
    Evaluating.junction σ.evaluateCall σ.here.address scope stop (es ++ [last]) =
      (es.map (σ.decisive stop)).foldr Evaluating.attempt (σ.evaluate true last) := by
  induction es with
  | nil =>
    rw [List.nil_append, Evaluating.junction]
    rfl
  | cons e es ih =>
    obtain ⟨e', es', hes⟩ : ∃ e' es', es ++ [last] = e' :: es' := List.exists_cons_of_ne_nil (by simp)
    rw [List.cons_append, hes, Evaluating.junction, ← hes, ih, List.map_cons, List.foldr_cons,
      Evaluating.attempt, decisive, bind_assoc]
    · refine bind_congr fun v => ?_
      rw [pure_bind]
      cases v.isTruthy == stop <;> rfl
    · simp

theorem clausesValue_eq (otherwise : Evaluating Value) (cs : List (Clause Expr)) :
    Evaluating.clausesValue σ.evaluateCall σ.here.address scope otherwise cs =
      (cs.map σ.clauseValue).foldr Evaluating.attempt otherwise := by
  induction cs with
  | nil =>
    rw [Evaluating.clausesValue]
    rfl
  | cons c cs ih =>
    obtain ⟨test, body⟩ := c
    cases body with
    | none =>
      rw [Evaluating.clausesValue, ih, List.map_cons, List.foldr_cons, Evaluating.attempt,
        clauseValue, decisive, bind_assoc]
      refine bind_congr fun v => ?_
      rw [pure_bind]
      cases v.isTruthy <;> rfl
    | some body =>
      rw [Evaluating.clausesValue, ih, List.map_cons, List.foldr_cons, Evaluating.attempt,
        clauseValue, bind_assoc]
      refine bind_congr fun v => ?_
      cases v.isTruthy with
      | true => simp only [if_true, bind_assoc, pure_bind, bind_pure]
      | false => simp only [Bool.false_eq_true, if_false, pure_bind]

end Setting

namespace Lowering

open Generating

variable {inner : Lowering} {n : Nat} {scope : Scope} {outer : List Scope} {b : Builder}
  {e : Expr} {es : List Expr} {r : Register} {location : Option Location}

/-- Pieces that each may have the value, and a last one that has it if they do not. -/
theorem joined_made {α : Type} (l : List α) (piece : α → Generating Code)
    (last : Generating Code) (location : Option Location)
    (x : Setting scope outer → α → Evaluating (Option Value))
    (y : Setting scope outer → Evaluating Value) (hb : b.Valid scope outer)
    (hpiece : ∀ a ∈ l, ∀ c : Builder, c.free = b.free → c.Valid scope outer →
      Generates c (piece a) fun code d => d.Made b.free 1 code fun σ : Setting scope outer =>
        σ.Attempts b.free r (x σ a) code)
    (hlast : ∀ c : Builder, c.free = b.free → c.Valid scope outer →
      Generates c last fun code d => d.Made b.free 0 code fun σ : Setting scope outer =>
        σ.Computes b.free r (y σ) code) :
    Generates b (do
        let pieces ← l.mapM piece
        joined location pieces (← last)) fun code c =>
      c.Made b.free 0 code fun σ : Setting scope outer =>
        σ.Computes b.free r ((l.map (x σ)).foldr Evaluating.attempt (y σ)) code := by
  refine Keeps.bind (Keeps.mapM_forall₂
    (I := fun c : Builder => c.free = b.free ∧ c.Valid scope outer)
    (P := fun a (code : Code) c => code.Works 1 (c.room scope) fun σ : Setting scope outer =>
      σ.Attempts b.free r (x σ a) code)
    (fun _ _ _ _ hw hg => hw.grows hg) ⟨rfl, hb⟩ fun a ha c _ hc => ?_)
    fun pieces c _ hp => ?_
  · exact (hpiece a ha c hc.1 hc.2).mono fun code d _ hm => ⟨⟨hm.free, hm.valid⟩, hm.works⟩
  obtain ⟨⟨hf, hv⟩, hpieces⟩ := hp
  refine Keeps.bind (hlast c hf hv) fun lastCode d hcd hm => ?_
  refine (joined_keeps lastCode pieces).mono fun code d' _ h => ?_
  obtain ⟨rfl, hexits⟩ := h
  have hworks := hpieces.imp fun _ _ hw => hw.grows hcd
  refine ⟨hm.free, hm.valid, hexits.fits (fun piece hmem => ?_) hm.works.fits, fun σ hσ => ?_⟩
  · obtain ⟨j, hj, rfl⟩ := List.getElem_of_mem hmem
    exact (hworks.get (hworks.length_eq ▸ hj) hj).fits
  · refine hexits.computes ?_ (hm.works.runs σ hσ)
    rw [List.forall₂_map_left_iff]
    exact hworks.imp fun _ _ hw => hw.runs σ hσ

/-- Operands up to the first of the given truth. -/
theorem junction_made (h : inner.Correct n) (hs : scope.Valid) (hb : b.Valid scope outer)
    (hes : ∀ e ∈ es, e.height ≤ n ∧ e.Scoped (scope :: outer)) (ht : scope.registers ≤ r.val)
    (hr : r.val < b.free) (stop : Bool) :
    Generates b (inner.junction scope r stop es location) fun code c =>
      c.Made b.free 0 code fun σ : Setting scope outer => σ.Computes b.free r
        (Evaluating.junction σ.evaluateCall σ.here.address scope stop es) code := by
  unfold junction
  cases hlast : es.getLast? with
  | none =>
    obtain rfl := List.getLast?_eq_none_iff.mp hlast
    refine (loadBoolean_made hb (Nat.lt_of_lt_of_le hr hb.free_le) (!stop) false).mono
      fun code c _ hm => ⟨hm.free, hm.valid, hm.works.imp fun σ _ hrun w s hw => ?_⟩
    have hload := hrun w s hw
    rw [Setting.settle_temporary ht] at hload
    rw [Evaluating.junction]
    refine hload.mono (fun _ _ hi => hi.2) fun v k w' s' _ hv => ?_
    obtain ⟨rfl, hk, hh⟩ := hv
    exact ⟨hk, hh, Setting.built_atom _⟩
  | some last =>
    have hsplit : es.dropLast ++ [last] = es := List.dropLast_append_getLast? last hlast
    have hmade := joined_made (r := r) es.dropLast
      (fun e => inner.tested scope e (Instruction.abc .testSet r · stop.toNat) location)
      (inner.into scope r last) location (fun σ e => σ.decisive stop e)
      (fun σ => σ.evaluate true last) hb ?_ ?_
    · refine hmade.mono fun code c _ hm => ⟨hm.free, hm.valid, hm.works.imp fun σ _ hc => ?_⟩
      rw [← Setting.junction_append, hsplit] at hc
      exact hc
    · intro e he c hf hv
      obtain ⟨he, hsc⟩ := hes e (List.dropLast_subset es he)
      have hm : Generates c (inner.tested scope e (Instruction.abc .testSet r · stop.toNat) location)
          _ := testSet_made h hs hv he hsc ht (hf ▸ hr) stop
      rwa [hf] at hm
    · intro c hf hv
      obtain ⟨he, hsc⟩ := hes last (List.mem_of_getLast? hlast)
      have hm := h.into hs hv he hsc ht (hf ▸ hr)
      rwa [hf] at hm

/-- The value of an alternative, or nil if there is none. -/
theorem alternative_made (h : inner.Correct n) (hs : scope.Valid) (hb : b.Valid scope outer)
    {o : Option Expr} (ho : ∀ e ∈ o, e.height ≤ n ∧ e.Scoped (scope :: outer))
    (ht : scope.registers ≤ r.val) (hr : r.val < b.free) :
    Generates b (inner.alternative scope r o location) fun code c =>
      c.Made b.free 0 code fun σ : Setting scope outer =>
        σ.Computes b.free r (σ.alternativeValue o) code := by
  cases o with
  | some e =>
    obtain ⟨he, hsc⟩ := ho e rfl
    refine (h.into hs hb he hsc ht hr).mono fun code c _ hm => ?_
    refine ⟨hm.free, hm.valid, hm.works.imp fun σ _ hc => ?_⟩
    rwa [Setting.alternativeValue, Evaluating.alternativeValue]
  | none =>
    refine (loadNil_made hb (Nat.lt_of_lt_of_le hr hb.free_le)).mono fun code c _ hm => ?_
    refine ⟨hm.free, hm.valid, hm.works.imp fun σ _ hset => ?_⟩
    rw [Setting.alternativeValue, Evaluating.alternativeValue]
    exact hset.computes ht b.free

theorem branch_made (h : inner.Correct n) (hs : scope.Valid) (hb : b.Valid scope outer)
    {test consequent : Expr} {otherwise : Option Expr}
    (hheight : (Expr.branch test consequent otherwise location).height ≤ n + 1)
    (hsc : (Expr.branch test consequent otherwise location).Scoped (scope :: outer))
    (ht : scope.registers ≤ r.val) (hr : r.val < b.free) :
    Generates b (inner.branch scope r test consequent otherwise location) fun code c =>
      c.Made b.free 0 code fun σ : Setting scope outer => σ.Computes b.free r
        (σ.evaluate true (.branch test consequent otherwise location)) code := by
  obtain _ | _ | _ | ⟨hst, hsc, hso⟩ := hsc
  simp only [Expr.height, Nat.add_le_add_iff_right, Nat.max_le, Expr.heightOfOption_le] at hheight
  obtain ⟨hht, hhc, hho⟩ := hheight
  refine Keeps.bind (test_made h hs hb hht hst) fun t c hbc htest => ?_
  have hf := htest.free
  refine Keeps.bind (h.into hs htest.valid hhc hsc ht (hf ▸ hr)) fun body d hcd hbody => ?_
  rw [hf] at hbody
  refine Keeps.bind (jump_keeps _) fun toElse d' _ hj => ?_
  obtain ⟨rfl, hj⟩ := hj
  refine Keeps.bind (alternative_made h hs hbody.valid (fun e he => ⟨hho e he, hso e he⟩) ht
    (hbody.free ▸ hr)) fun other d'' hdd hother => ?_
  rw [hbody.free] at hother
  refine Keeps.bind (jump_keeps _) fun exit d''' _ hexit => .pure (.refl _) ?_
  obtain ⟨rfl, hexit⟩ := hexit
  simp only [List.append_assoc]
  have hbodyWorks := hbody.works.grows hdd
  have htestWorks := htest.works.grows (hcd.trans hdd)
  refine ⟨hother.free, hother.valid, ?_, fun σ hσ => ?_⟩
  · refine htestWorks.fits.append ((hj.fits (Nat.le_refl _)).append (hbodyWorks.fits.append
      ((hexit.fits (Nat.le_refl _)).append hother.works.fits ?_) ?_) ?_) ?_
    all_goals
      simp +arith only [List.length_append, hexit.length, hj.length]
  · rw [Setting.evaluate, Evaluating.evaluate]
    exact (htestWorks.runs σ hσ).branch hj (hbodyWorks.runs σ hσ) hexit (hother.works.runs σ hσ)

theorem clause_made (h : inner.Correct n) (hs : scope.Valid) (hb : b.Valid scope outer)
    {c : Clause Expr} (hheight : c.test.height ≤ n ∧ ∀ e ∈ c.body, e.height ≤ n)
    (hst : c.test.Scoped (scope :: outer)) (hsb : ∀ e ∈ c.body, Expr.Scoped e (scope :: outer))
    (ht : scope.registers ≤ r.val) (hr : r.val < b.free) :
    Generates b (inner.clause scope r c location) fun code c' =>
      c'.Made b.free 1 code fun σ : Setting scope outer =>
        σ.Attempts b.free r (σ.clauseValue c) code := by
  obtain ⟨test, body⟩ := c
  cases body with
  | none => exact testSet_made h hs hb hheight.1 hst ht hr true
  | some body =>
    refine Keeps.bind (test_made h hs hb hheight.1 hst) fun t d hbd htest => ?_
    have hf := htest.free
    refine Keeps.bind (h.into hs htest.valid (hheight.2 body rfl) (hsb body rfl) ht (hf ▸ hr))
      fun code d' hdd hbody => ?_
    rw [hf] at hbody
    refine Keeps.bind (jump_keeps _) fun toNext d'' _ hj => .pure (.refl _) ?_
    obtain ⟨rfl, hj⟩ := hj
    rw [List.append_assoc]
    have htestWorks := htest.works.grows hdd
    refine ⟨hbody.free, hbody.valid, ?_, fun σ hσ => ?_⟩
    · refine htestWorks.fits.append ((hj.fits (Nat.le_refl _)).append
        (hbody.works.fits.weaken (Nat.zero_le _)) (Nat.le_refl _)) ?_
      rw [List.length_append, hj.length]
      omega
    · exact (htestWorks.runs σ hσ).clause hj (hbody.works.runs σ hσ)

theorem cond_made (h : inner.Correct n) (hs : scope.Valid) (hb : b.Valid scope outer)
    {clauses : List (Clause Expr)} {otherwise : Option Expr}
    (hheight : (Expr.cond clauses otherwise location).height ≤ n + 1)
    (hsc : (Expr.cond clauses otherwise location).Scoped (scope :: outer))
    (ht : scope.registers ≤ r.val) (hr : r.val < b.free) :
    Generates b (inner.cond scope r clauses otherwise location) fun code c =>
      c.Made b.free 0 code fun σ : Setting scope outer =>
        σ.Computes b.free r (σ.evaluate true (.cond clauses otherwise location)) code := by
  cases hsc with
  | cond hst hsb hso =>
  simp only [Expr.height, Nat.add_le_add_iff_right, Nat.max_le, Expr.heightOfOption_le,
    Expr.heightOfClauses_le] at hheight
  obtain ⟨hhc, hho⟩ := hheight
  have hmade := joined_made (r := r) clauses (fun c => inner.clause scope r c location)
    (inner.alternative scope r otherwise location) location (fun σ c => σ.clauseValue c)
    (fun σ => σ.alternativeValue otherwise) hb ?_ ?_
  · refine hmade.mono fun code c _ hm => ⟨hm.free, hm.valid, hm.works.imp fun σ _ hc => ?_⟩
    rw [Setting.evaluate, Evaluating.evaluate, Setting.clausesValue_eq]
    exact hc
  · intro c hc d hf hv
    have hm : Generates d (inner.clause scope r c location) _ :=
      clause_made h hs hv (hhc c hc) (hst c hc) (hsb c hc) ht (hf ▸ hr)
    rwa [hf] at hm
  · intro d hf hv
    have hm : Generates d (inner.alternative scope r otherwise location) _ :=
      alternative_made h hs hv (fun e he => ⟨hho e he, hso e he⟩) ht (hf ▸ hr)
    rwa [hf] at hm

end Lowering

end RegisterScheme
