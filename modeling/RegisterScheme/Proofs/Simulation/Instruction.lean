import RegisterScheme.Proofs.Simulation.Fragment
import RegisterScheme.Proofs.Template.Building
import RegisterScheme.Proofs.Template.Shape

/-! What single instructions do to agreeing states. -/

namespace RegisterScheme

namespace Setting

open Running

variable {scope : Scope} {outer : List Scope} {σ : Setting scope outer} {P : Nat → Prop}
  {w w' : World} {s s' : Store} {r : Register} {v : Value} {i : Instruction}
  (location : Option Location)

/-- A value goes to a register: to its variable, or else nowhere that evaluation knows of. -/
def settle (σ : Setting scope outer) (r : Register) (v : Value) : Evaluating Value :=
  if r.val < scope.registers then do
    Evaluating.write (.register σ.here.address r) v
    return v
  else return v

theorem settle_temporary (hr : scope.registers ≤ r.val) (v : Value) : σ.settle r v = pure v :=
  if_neg (Nat.not_lt_of_le hr)

theorem built_atom (a : Atom) : σ.Built w (.atom a) := trivial

/-- What a piece of code for a value leaves behind. -/
def Result (σ : Setting scope outer) (r : Nat) (v : Value) (k : Nat) (w : World) (s : Store) :
    Prop :=
  k = 0 ∧ σ.Holds s r v ∧ σ.Built w v

/-- Putting a value into a register. -/
theorem put_eq (hw : σ.Ready w s) (hv : σ.Built w v) (hr : r.val < σ.room.frameSize) :
    ∃ w', σ.settle r v w = .ok v w' ∧
      setRegister σ.here.address r v s = .ok () (s.set σ.here.address r v) ∧
      σ.Moves (· ≠ r.val) w s w' (s.set σ.here.address r v) ∧
      σ.Result r v 0 w' (s.set σ.here.address r v) := by
  have hset := setRegister_eq (hw.isSome hr) v
  have hholds : σ.Holds (s.set σ.here.address r v) r v := Store.register?_set (hw.isSome hr) v
  obtain ⟨e, he, hc⟩ := hw.environment
  have hkept (a : Nat) (d : Environment) (j : Nat) (hd : w.environments[a]? = some d)
      (hj : d.closure.template.tempBase ≤ j) (hk : σ.kept (· ≠ r.val) a j) :
      (s.set σ.here.address r v).register? a j = s.register? a j := by
    refine Store.register?_set_of_ne ?_ v
    by_cases ha : a = σ.here.address
    · subst ha
      obtain rfl : d = e := Option.some.inj (hd.symm.trans he)
      rw [hc, σ.tempBase_eq] at hj
      exact .inr (hk rfl hj)
    · exact .inl ha
  by_cases hlt : r.val < scope.registers
  · refine ⟨w.set σ.here.address r v, ?_, hset,
      ⟨hw.agrees.setVariable r hv, w.grows_set .., hkept⟩, rfl, hholds, hv.grows (w.grows_set ..)⟩
    rw [settle, if_pos hlt, bind_of_ok (Evaluating.write_register_eq he r v)]
    rfl
  · refine ⟨w, ?_, hset, ⟨hw.agrees.setTemporary he ?_ v, .refl w, hkept⟩, rfl, hholds, hv⟩
    · rw [settle, if_neg hlt]
      rfl
    · rw [hc, σ.tempBase_eq]
      exact Nat.le_of_not_lt hlt

/-- An instruction that puts a value into a register, after changes that evaluation does not know
of. -/
theorem put_runs (hw : σ.Ready w s) (hs : s'.Agrees σ.natives w) (hf : s'.frames = s.frames)
    (hv : σ.Built w v) (hr : r.val < σ.room.frameSize) (skip : Bool)
    (h : step σ.machine.caching σ.call σ.here i s =
      (setRegister σ.here.address r v >>= fun _ => proceed skip) s') :
    σ.Runs (· ≠ r.val) w s (σ.settle r v) [⟨i, location⟩] 0 fun u k w' s' =>
      u = v ∧ k = skip.toNat ∧ σ.Holds s' r v ∧ σ.Built w' v := by
  have hm : σ.Moves (· ≠ r.val) w s w s' :=
    ⟨hs, .refl w, fun a _ j _ _ _ => by simp only [Store.register?, hf]⟩
  obtain ⟨w', hx, hset, hm', -, hh, hb⟩ := put_eq (hw.moves hm) hv hr
  refine .of_ok hx (run_line location (h.trans ?_)) (hm.trans hm') ⟨rfl, rfl, hh, hb⟩
  rw [bind_of_ok hset]
  rfl

theorem move_runs {source : Nat} (hi : i.opcode = .move ∧ i.a = r ∧ i.b = source ∧ i.c = 0)
    (hw : σ.Ready w s) (hh : σ.Holds s source v) (hv : σ.Built w v)
    (hr : r.val < σ.room.frameSize) :
    σ.Runs (· ≠ r.val) w s (σ.settle r v) [⟨i, location⟩] 0 fun u k w' s' =>
      u = v ∧ σ.Result r v k w' s' := by
  obtain ⟨ho, rfl, hb, -⟩ := hi
  refine (put_runs location hw hw.agrees rfl hv hr false ?_).imp fun u k w' s' _ h => h
  simp only [step, ho, hb]
  rw [bind_of_ok (getRegister_eq hh)]

theorem loadConstant_runs {index : Nat}
    (hi : i.opcode = .loadConstant ∧ i.a = r ∧ i.field.val = index) (hw : σ.Ready w s)
    {l : Literal Template} (hl : σ.template.literals[index]? = some l)
    (hv : l = .unspecified ∧ v = .unspecified ∨ ∃ q, l = .quotation q ∧ v = .ofQuotation q)
    (hr : r.val < σ.room.frameSize) :
    σ.Runs (· ≠ r.val) w s (σ.settle r v) [⟨i, location⟩] 0 fun u k w' s' =>
      u = v ∧ σ.Result r v k w' s' := by
  obtain ⟨ho, rfl, hf⟩ := hi
  have hb : σ.Built w v := by
    obtain ⟨-, rfl⟩ | ⟨q, -, rfl⟩ := hv
    · trivial
    · exact Value.builtFrom_ofQuotation q
  have hvalue : literalValue σ.template i.field.val s = .ok v s := by
    rw [literalValue, hf, hl]
    obtain ⟨rfl, rfl⟩ | ⟨q, rfl, rfl⟩ := hv <;> rfl
  refine (put_runs location hw hw.agrees rfl hb hr false ?_).imp fun u k w' s' _ h => h
  simp only [step, ho]
  exact bind_of_ok hvalue

theorem loadBoolean_runs {b skip : Bool}
    (hi : i.opcode = .loadBoolean ∧ i.a = r ∧ i.b = b.toNat ∧ i.c = skip.toNat)
    (hw : σ.Ready w s) (hr : r.val < σ.room.frameSize) :
    σ.Runs (· ≠ r.val) w s (σ.settle r (.boolean b)) [⟨i, location⟩] 0 fun u k w' s' =>
      u = .boolean b ∧ k = skip.toNat ∧ σ.Holds s' r (.boolean b) ∧ σ.Built w' (.boolean b) := by
  obtain ⟨ho, rfl, hb, hc⟩ := hi
  refine put_runs location hw hw.agrees rfl (built_atom _) hr skip ?_
  simp only [step, ho, hb, hc]
  cases b <;> cases skip <;> rfl

theorem loadNil_runs (hi : i.opcode = .loadNil ∧ i.a = r ∧ i.b = r.val ∧ i.c = 0)
    (hw : σ.Ready w s) (hr : r.val < σ.room.frameSize) :
    σ.Runs (· ≠ r.val) w s (σ.settle r .nil) [⟨i, location⟩] 0 fun u k w' s' =>
      u = .nil ∧ σ.Result r .nil k w' s' := by
  obtain ⟨ho, rfl, hb, -⟩ := hi
  refine (put_runs location hw hw.agrees rfl (built_atom _) hr false ?_).imp fun u k w' s' _ h => h
  have hone : i.a.val + 1 - i.a.val = 1 := Nat.add_sub_cancel_left ..
  simp only [step, ho, hb, hone, clear, bind_assoc, pure_bind]
  exact bind_of_ok (checkSlice_eq (hw.isSome hr) (Nat.le_succ _))

theorem closure_runs {t : Template} {f : Function} {index : Nat}
    (hi : i.opcode = .closure ∧ i.a = r ∧ i.field.val = index) (hw : σ.Ready w s)
    (hl : σ.template.literals[index]? = some (.template t)) (ht : f.template = .ok t)
    (hf : f.Scoped (scope :: outer)) (hr : r.val < σ.room.frameSize) :
    σ.Runs (· ≠ r.val) w s
      (do σ.settle r (.closure (← Evaluating.newClosure f (some σ.here.address))))
      [⟨i, location⟩] 0 fun u k w' s' => σ.Result r u k w' s' := by
  obtain ⟨ho, rfl, hfield⟩ := hi
  have hagrees := hw.agrees.addClosure f (some σ.here.address)
  have hm : σ.Moves (· ≠ i.a.val) w s (w.addClosure f (some σ.here.address)) s.addClosure :=
    ⟨hagrees, w.grows_addClosure .., fun _ _ _ _ _ _ => rfl⟩
  have hknown := World.known_addClosure (w := w) ht hw.encloses hf
  obtain ⟨w', hx, hset, hm', hres⟩ := put_eq (r := i.a) (hw.moves hm)
    (v := .closure ⟨w.procedures.size, t, some σ.here.address⟩) hknown hr
  refine .of_ok ?_ (run_line location ?_) (hm.trans hm') hres
  · rw [bind_of_ok (t := w.addClosure f (some σ.here.address))
      (a := ⟨w.procedures.size, t, some σ.here.address⟩)]
    · exact hx
    · rw [Evaluating.newClosure, ht]
      rfl
  · have hnested : σ.template.nested i.field = .ok t := by
      rw [Template.nested, hfield, hl]
    have hnew : newClosure t (some σ.here.address) s =
        .ok ⟨w.procedures.size, t, some σ.here.address⟩ s.addClosure := by
      rw [← hw.agrees.caches_size]
      rfl
    simp only [step, ho]
    rw [bind_of_ok (a := t) (t := s), bind_of_ok hnew, bind_of_ok hset]
    · rfl
    · change ofExcept ((σ.template.nested i.field).mapError .fault) s = _
      rw [hnested]
      rfl

/-- A captured variable lies in the activation that the scopes around the procedure say. -/
theorem Ready.captured (hw : σ.Ready w s) {name : String} {distance : Nat} {q : Register}
    (hb : ⟨name, .variable (.captured distance q)⟩ ∈ scope.bindings) :
    ∃ a e, w.ancestor (distance - 1) σ.here.closure.parent = some a ∧
      w.environments[a]? = some e ∧ q.val < e.closure.template.tempBase := by
  obtain ⟨f, hf, rfl⟩ := hw.known
  have hcaptures : f.scope.Captures outer := by
    cases hf.function_scoped with
    | intro _ captures => exact captures
  obtain ⟨d, o, rfl, ho, hholds⟩ := hcaptures name distance q hb
  obtain ⟨a, e, g, ha, he, hg, rfl, hv⟩ := hf.around.ancestor ho
  refine ⟨a, e, ha, he, ?_⟩
  obtain ⟨g', outer', hk⟩ := hw.agrees.valid.closures a e he
  obtain rfl : g = g' := congrArg Prod.fst (Option.some.inj (hg.symm.trans hk.procedure))
  rw [Function.template_tempBase hk.template]
  exact hv.holds_lt hholds

theorem place_captured_eq (hw : σ.Ready w s) {slot : Nat} {name : String} {distance : Nat}
    {q : Register} (hb : scope.bindings[slot]? = some ⟨name, .variable (.captured distance q)⟩)
    {a : Nat} (ha : w.ancestor (distance - 1) σ.here.closure.parent = some a) :
    Evaluating.place σ.here.address scope (.captured slot) w = .ok (.register a q) w := by
  obtain ⟨e, he, hc⟩ := hw.environment
  have hout : Evaluating.outward (distance - 1) e.closure.parent w = .ok (some a) w :=
    Evaluating.outward_eq (hc ▸ ha)
  simp only [Evaluating.place, hb]
  rw [bind_of_ok (Evaluating.environment_eq he), bind_of_ok hout]
  rfl

/-- The slots of the template are those of the scope. -/
theorem slot_eq_some (hk : σ.room.kinds = scope.bindings.map Binding.variableKind) {slot : Nat}
    {name : String} {k : VariableKind} (hb : scope.bindings[slot]? = some ⟨name, .variable k⟩) :
    ∃ u, σ.template.slots[slot]? = some u ∧ u.kind = k := by
  have h := congrArg (·[slot]?) hk
  simp only [List.getElem?_map, hb, Option.map_some] at h
  change (σ.template.slots.map Variable.kind)[slot]? = some k at h
  rwa [List.getElem?_map, Option.map_eq_some_iff] at h

section

variable {slot : Nat} {name : String}

theorem capturedPlace_eq (hw : σ.Ready w s)
    (hk : σ.room.kinds = scope.bindings.map Binding.variableKind) {distance : Nat} {q : Register}
    (hb : scope.bindings[slot]? = some ⟨name, .variable (.captured distance q)⟩) {a : Nat}
    (ha : w.ancestor (distance - 1) σ.here.closure.parent = some a) :
    ∃ s', capturedPlace σ.machine.caching σ.here.closure slot s = .ok (a, q) s' ∧
      s'.Agrees σ.natives w ∧ s'.frames = s.frames := by
  obtain ⟨u, hs, hu⟩ := slot_eq_some hk hb
  obtain ⟨f, hf, -⟩ := hw.known
  exact Running.capturedPlace_eq hw.agrees hf.procedure hf.template hs hu ha

theorem getCaptured_runs (hi : i.opcode = .getCaptured ∧ i.a = r ∧ i.b = slot ∧ i.c = 0)
    (hw : σ.Ready w s) (hk : σ.room.kinds = scope.bindings.map Binding.variableKind)
    {distance : Nat} {q : Register}
    (hb : scope.bindings[slot]? = some ⟨name, .variable (.captured distance q)⟩)
    (hr : r.val < σ.room.frameSize) :
    σ.Runs (· ≠ r.val) w s (do
      σ.settle r (← Evaluating.read (← Evaluating.place σ.here.address scope (.captured slot))))
      [⟨i, location⟩] 0 fun u k w' s' => σ.Result r u k w' s' := by
  obtain ⟨ho, rfl, hfield, -⟩ := hi
  obtain ⟨a, e, ha, he, hq⟩ := hw.captured (List.mem_of_getElem? hb)
  obtain ⟨s', hplace, hs', hf⟩ := capturedPlace_eq hw hk hb ha
  have hget : getRegister a q s' = .ok (e.values q) s' :=
    Running.getRegister_eq (hs'.variable_eq he hq)
  have hput := put_runs (r := i.a) (i := i) location hw hs' hf
    (hw.agrees.valid.values a e q he) hr false (by
      simp only [step, ho, hfield]
      rw [bind_of_ok hplace]
      dsimp only
      rw [bind_of_ok hget])
  have hread : (do σ.settle i.a (← Evaluating.read
      (← Evaluating.place σ.here.address scope (.captured slot)))) w =
      σ.settle i.a (e.values q) w := by
    rw [bind_of_ok (place_captured_eq hw hb ha), bind_of_ok (Evaluating.read_register_eq he q)]
  refine Simulates.congr_left hread.symm (hput.imp fun u k w' s' _ h => ?_)
  obtain ⟨rfl, h⟩ := h
  exact h

theorem setCaptured_runs {source : Register}
    (hi : i.opcode = .setCaptured ∧ i.a = source ∧ i.b = slot ∧ i.c = 0)
    (hw : σ.Ready w s) (hk : σ.room.kinds = scope.bindings.map Binding.variableKind)
    {distance : Nat} {q : Register}
    (hb : scope.bindings[slot]? = some ⟨name, .variable (.captured distance q)⟩)
    (hh : σ.Holds s source v) (hv : σ.Built w v) :
    σ.Runs P w s (do
      Evaluating.write (← Evaluating.place σ.here.address scope (.captured slot)) v)
      [⟨i, location⟩] 0 fun _ k _ _ => k = 0 := by
  obtain ⟨ho, rfl, hfield, -⟩ := hi
  obtain ⟨a, e, ha, he, hq⟩ := hw.captured (List.mem_of_getElem? hb)
  obtain ⟨s', hplace, hs', hf⟩ := capturedPlace_eq hw hk hb ha
  have hget : getRegister σ.here.address i.a s' = .ok v s' := by
    refine Running.getRegister_eq ?_
    rw [Store.register?, hf]
    exact hh
  have hset := Running.setRegister_eq (s := s') (a := a) (i := q)
    (by rw [hs'.variable_eq he hq]; rfl) v
  refine .of_ok (a := ()) (v := w.set a q v) (t := s'.set a q v) ?_ (run_line location ?_) ⟨?_, ?_, ?_⟩ rfl
  · rw [bind_of_ok (place_captured_eq hw hb ha), Evaluating.write_register_eq he q v]
  · simp only [step, ho, hfield]
    rw [bind_of_ok hplace]
    dsimp only
    rw [bind_of_ok hget, bind_of_ok hset]
    rfl
  · exact hs'.setVariable q hv
  · exact w.grows_set ..
  · intro b d j hd hj _
    rw [Store.register?_set_of_ne]
    · rw [Store.register?, hf, Store.register?]
    · by_cases hab : b = a
      · subst hab
        obtain rfl : d = e := Option.some.inj (hd.symm.trans he)
        exact .inr (Nat.ne_of_gt (Nat.lt_of_lt_of_le hq hj))
      · exact .inl hab

theorem globalCell_eq (hw : σ.Ready w s) {index first : Nat}
    (hl : σ.template.literals[index]? = some (.quotation ⟨first, .atom (.symbol name)⟩)) :
    ∃ b s', globalCell σ.machine.caching σ.here.closure index s = .ok b s' ∧
      s'.Agrees σ.natives w ∧ s'.frames = s.frames ∧ s'.globals.address? name = some b := by
  obtain ⟨f, hf, -⟩ := hw.known
  exact Running.globalCell_eq hw.agrees hf.procedure hf.template hl

theorem getGlobal_runs {index first : Nat}
    (hi : i.opcode = .getGlobal ∧ i.a = r ∧ i.field.val = index) (hw : σ.Ready w s)
    {k : BindingKind} (hb : scope.bindings[slot]? = some ⟨name, k⟩)
    (hl : σ.template.literals[index]? = some (.quotation ⟨first, .atom (.symbol name)⟩))
    (hr : r.val < σ.room.frameSize) :
    σ.Runs (· ≠ r.val) w s (do
      σ.settle r (← Evaluating.read (← Evaluating.place σ.here.address scope (.global slot))))
      [⟨i, location⟩] 0 fun u k w' s' => σ.Result r u k w' s' := by
  obtain ⟨ho, rfl, rfl⟩ := hi
  obtain ⟨b, s', hcell, hs', hf, ha⟩ := globalCell_eq hw hl
  have hvalue : readCell b s' = .ok ((w.globals name).getD .nil) s' := by
    rw [readCell, bind_of_ok (x := get) (s := s') rfl, Globals.read?_of_address? ha, hs'.globals]
    rfl
  have hv : σ.Built w ((w.globals name).getD .nil) := by
    cases hg : w.globals name with
    | none => exact built_atom _
    | some v => exact hw.agrees.valid.globals name v hg
  have hput := put_runs (r := i.a) (i := i) location hw hs' hf hv hr false (by
      simp only [step, ho]
      rw [bind_of_ok hcell, bind_of_ok hvalue])
  have hread : (do σ.settle i.a (← Evaluating.read
      (← Evaluating.place σ.here.address scope (.global slot)))) w =
      σ.settle i.a ((w.globals name).getD .nil) w := by
    rw [bind_of_ok (Evaluating.place_global_eq hb), bind_of_ok (Evaluating.read_global_eq name)]
  refine Simulates.congr_left hread.symm (hput.imp fun u k w' s' _ h => ?_)
  obtain ⟨rfl, h⟩ := h
  exact h

theorem setGlobal_runs {index first : Nat} {source : Register}
    (hi : i.opcode = .setGlobal ∧ i.a = source ∧ i.field.val = index) (hw : σ.Ready w s)
    {k : BindingKind} (hb : scope.bindings[slot]? = some ⟨name, k⟩)
    (hl : σ.template.literals[index]? = some (.quotation ⟨first, .atom (.symbol name)⟩))
    (hh : σ.Holds s source v) (hv : σ.Built w v) :
    σ.Runs P w s (do
      Evaluating.write (← Evaluating.place σ.here.address scope (.global slot)) v)
      [⟨i, location⟩] 0 fun _ k _ _ => k = 0 := by
  obtain ⟨ho, rfl, rfl⟩ := hi
  obtain ⟨b, s', hcell, hs', hf, ha⟩ := globalCell_eq hw hl
  have hget : getRegister σ.here.address i.a s' = .ok v s' := by
    refine Running.getRegister_eq ?_
    rw [Store.register?, hf]
    exact hh
  refine .of_ok (a := ()) (v := w.setGlobal name v)
    (t := { s' with globals := s'.globals.write b v }) ?_ (run_line location ?_) ⟨?_, ?_, ?_⟩ rfl
  · rw [bind_of_ok (Evaluating.place_global_eq hb)]
    rfl
  · simp only [step, ho]
    rw [bind_of_ok hcell, bind_of_ok hget]
    rfl
  · exact hs'.setGlobal ha hv
  · exact w.grows_setGlobal ..
  · intro a d j _ _ _
    simp only [Store.register?, hf]

end

end Setting

end RegisterScheme
