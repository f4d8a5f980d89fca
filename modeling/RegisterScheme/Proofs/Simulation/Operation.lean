import RegisterScheme.Proofs.Simulation.Instruction
import RegisterScheme.Proofs.Template.Encoding

/-! Instructions that compute: their results go to temporaries, and they fail as evaluation does. -/

namespace RegisterScheme

namespace Setting

open Running

variable {scope : Scope} {outer : List Scope} {σ : Setting scope outer} {P : Nat → Prop}
  {w w' : World} {s s' : Store} {r : Register} {v : Value} {i : Instruction}
  (location : Option Location)

/-- What an operand reads. -/
def Reads (σ : Setting scope outer) (s : Store) (o : Operand) (v : Value) : Prop :=
  match o with
  | .register r => r < 256 ∧ σ.Holds s r v
  | .constant index => index ≤ maxConstant ∧
    ∃ q, σ.template.literals[index]? = some (.quotation q) ∧ v = .ofQuotation q

theorem operand_eq {o : Operand} (h : σ.Reads s o v) : operand σ.here o.half s = .ok v s := by
  cases o with
  | register r =>
    rw [operand, Operand.ofHalf_register h.1]
    exact getRegister_eq h.2
  | constant index =>
    obtain ⟨hi, q, hq, rfl⟩ := h
    rw [operand, Operand.ofHalf_constant hi]
    change literalValue σ.template index s = _
    rw [literalValue, hq]
    rfl

/-- An instruction whose result goes to a temporary. -/
theorem compute_runs {x : Evaluating Value} {y : Running Value}
    (hstep : step σ.machine.caching σ.call σ.here i s =
      (y >>= fun v => setRegister σ.here.address r v >>= fun _ => proceed false) s)
    (hx : Simulates σ.machine σ.natives (σ.kept (· ≠ r.val)) w s x y fun a b w' _ =>
      b = a ∧ σ.Built w' a)
    (hw : σ.Ready w s) (ht : scope.registers ≤ r.val) (hr : r.val < σ.room.frameSize) :
    σ.Runs (· ≠ r.val) w s (Evaluating.located location x) [⟨i, location⟩] 0 (σ.Result r) := by
  refine .line (.located (.congr_right hstep.symm ?_) location)
  have h : Simulates σ.machine σ.natives (σ.kept (· ≠ r.val)) w s (x >>= fun a => σ.settle r a)
      (y >>= fun v => setRegister σ.here.address r v >>= fun _ => proceed false)
      fun a k w' s' => ∃ j, k = .skip j ∧ σ.Result r a j w' s' := by
    refine .bind hx fun a b w' s' hm hb => ?_
    obtain ⟨rfl, hb⟩ := hb
    obtain ⟨w'', hset, hreg, hm', hres⟩ := put_eq (hw.moves hm) hb hr
    refine .of_ok hset ?_ hm' ⟨0, rfl, hres⟩
    rw [bind_of_ok hreg]
    rfl
  simpa only [settle_temporary ht, bind_pure] using h

theorem simulates_except {r : Except Failure Value} {G : Value → Prop} (hw : σ.Ready w s)
    (hr : Except.Gives r G) (hG : ∀ v, G v → σ.Built w v) {K : Nat → Nat → Prop} :
    Simulates σ.machine σ.natives K w s (Evaluating.ofExcept r) (Running.ofExcept r)
      fun a b w' _ => b = a ∧ σ.Built w' a := by
  refine (Simulates.ofExcept hw.agrees hr).imp fun a b w' s' _ h => ?_
  obtain ⟨hb, ha, rfl, -⟩ := h
  exact ⟨hb, hG a ha⟩

section

variable {x y : Operand} {u : Value}

theorem step_arithmetic {op : Arithmetic} (ho : arithmetic? i.opcode = some op) :
    step σ.machine.caching σ.call σ.here i = (do
      let u ← operand σ.here i.b
      let v ← operand σ.here i.c
      let result ← Running.ofExcept (op.apply u v)
      setRegister σ.here.address i.a result
      proceed false) := by
  unfold step
  cases hop : i.opcode <;> rw [hop] at ho <;> cases ho <;> rfl

theorem arithmetic_runs {opcode : Opcode} {op : Arithmetic} (hop : arithmetic? opcode = some op)
    (hi : i.opcode = opcode ∧ i.a = r ∧ i.b = x.half ∧ i.c = y.half) (hw : σ.Ready w s)
    (hx : σ.Reads s x u) (hy : σ.Reads s y v) (ht : scope.registers ≤ r.val)
    (hr : r.val < σ.room.frameSize) :
    σ.Runs (· ≠ r.val) w s (Evaluating.located location (Evaluating.ofExcept (op.apply u v)))
      [⟨i, location⟩] 0 (σ.Result r) := by
  obtain ⟨ho, rfl, hb, hc⟩ := hi
  refine compute_runs location ?_ (simulates_except hw (op.gives_apply u v) fun v hv => hv) hw ht hr
  rw [step_arithmetic (ho ▸ hop), hb, hc, bind_of_ok (operand_eq hx), bind_of_ok (operand_eq hy)]

theorem negate_runs {source : Nat} (hi : i.opcode = .negate ∧ i.a = r ∧ i.b = source ∧ i.c = 0)
    (hw : σ.Ready w s) (hh : σ.Holds s source v) (ht : scope.registers ≤ r.val)
    (hr : r.val < σ.room.frameSize) :
    σ.Runs (· ≠ r.val) w s (Evaluating.located location (Evaluating.ofExcept (Arithmetic.negate v)))
      [⟨i, location⟩] 0 (σ.Result r) := by
  obtain ⟨ho, rfl, hb, -⟩ := hi
  refine compute_runs location ?_ (simulates_except hw (Arithmetic.gives_negate v) fun v hv => hv) hw ht hr
  simp only [step, ho, hb]
  rw [bind_of_ok (getRegister_eq hh)]

theorem not_runs {source : Nat} (hi : i.opcode = .not ∧ i.a = r ∧ i.b = source ∧ i.c = 0)
    (hw : σ.Ready w s) (hh : σ.Holds s source v) (ht : scope.registers ≤ r.val)
    (hr : r.val < σ.room.frameSize) :
    σ.Runs (· ≠ r.val) w s (Evaluating.located location (pure (.boolean !v.isTruthy)))
      [⟨i, location⟩] 0 (σ.Result r) := by
  obtain ⟨ho, rfl, hb, -⟩ := hi
  refine compute_runs location (y := pure (.boolean !v.isTruthy)) ?_
    (.pure hw.agrees ⟨rfl, built_atom _⟩) hw ht hr
  simp only [step, ho, hb, pure_bind]
  rw [bind_of_ok (getRegister_eq hh)]

/-- The parts of a pair. -/
theorem part_runs {source : Nat} {opcode : Opcode} {part : Value × Value → Value}
    (hpart : opcode = .car ∧ part = Prod.fst ∨ opcode = .cdr ∧ part = Prod.snd)
    (hi : i.opcode = opcode ∧ i.a = r ∧ i.b = source ∧ i.c = 0) (hw : σ.Ready w s)
    (hh : σ.Holds s source v) (hv : σ.Built w v) (ht : scope.registers ≤ r.val)
    (hr : r.val < σ.room.frameSize) :
    σ.Runs (· ≠ r.val) w s
      (Evaluating.located location (do return part (← Evaluating.ofExcept v.toPair)))
      [⟨i, location⟩] 0 (σ.Result r) := by
  obtain ⟨ho, rfl, hb, -⟩ := hi
  refine compute_runs location (y := do return part (← Running.ofExcept v.toPair)) ?_ ?_ hw ht hr
  · obtain ⟨rfl, rfl⟩ | ⟨rfl, rfl⟩ := hpart <;>
    · simp only [step, ho, hb, bind_assoc, pure_bind]
      rw [bind_of_ok (getRegister_eq hh)]
  · refine .bind (.ofExcept hw.agrees (Value.gives_toPair hv)) fun p q w' s' hm h => ?_
    obtain ⟨rfl, hp, rfl, -⟩ := h
    refine .pure hm.agrees ⟨rfl, ?_⟩
    obtain ⟨-, rfl⟩ | ⟨-, rfl⟩ := hpart
    · exact hp.1
    · exact hp.2

theorem cons_runs (hi : i.opcode = .cons ∧ i.a = r ∧ i.b = x.half ∧ i.c = y.half)
    (hw : σ.Ready w s) (hx : σ.Reads s x u) (hy : σ.Reads s y v) (hu : σ.Built w u)
    (hv : σ.Built w v) (ht : scope.registers ≤ r.val) (hr : r.val < σ.room.frameSize) :
    σ.Runs (· ≠ r.val) w s
      (Evaluating.located location (Evaluating.allocating (Allocating.cons u v)))
      [⟨i, location⟩] 0 (σ.Result r) := by
  obtain ⟨ho, rfl, hb, hc⟩ := hi
  refine compute_runs location (y := allocating (Allocating.cons u v)) ?_ ?_ hw ht hr
  · simp only [step, ho, hb, hc]
    rw [bind_of_ok (operand_eq hx), bind_of_ok (operand_eq hy)]
  · refine (Simulates.allocating hw.agrees (Allocating.gives_cons hu hv)).imp ?_
    intro a b w' s' hm h
    exact ⟨h.1, Built.grows h.2.1 hm.grows⟩

theorem step_comparison {op : Comparison} (ho : comparison? i.opcode = some op) :
    step σ.machine.caching σ.call σ.here i = (do
      let u ← operand σ.here i.b
      let v ← operand σ.here i.c
      proceed ((← Running.ofExcept (op.holds u v)) != (i.a.val != 0))) := by
  unfold step
  cases hop : i.opcode <;> rw [hop] at ho <;> cases ho <;> rfl

theorem comparison_runs {opcode : Opcode} {op : Comparison}
    (hop : comparison? opcode = some op)
    (hi : i.opcode = opcode ∧ i.a.val = 0 ∧ i.b = x.half ∧ i.c = y.half) (hw : σ.Ready w s)
    (hx : σ.Reads s x u) (hy : σ.Reads s y v) :
    σ.Runs P w s (Evaluating.located location (Evaluating.ofExcept (op.holds u v)))
      [⟨i, location⟩] 0 fun holds k w' s' => k = holds.toNat ∧ w' = w ∧ s' = s := by
  obtain ⟨ho, ha, hb, hc⟩ := hi
  have hstep : step σ.machine.caching σ.call σ.here i s =
      (Running.ofExcept (op.holds u v) >>= fun holds => proceed (holds != (i.a.val != 0))) s := by
    rw [step_comparison (ho ▸ hop), hb, hc, bind_of_ok (operand_eq hx), bind_of_ok (operand_eq hy)]
  refine .line (.located (.congr_right hstep.symm ?_) location)
  have h : Simulates σ.machine σ.natives (σ.kept P) w s
      (Evaluating.ofExcept (op.holds u v) >>= fun a => pure a)
      (Running.ofExcept (op.holds u v) >>= fun holds => proceed (holds != (i.a.val != 0)))
      fun holds k w' s' => ∃ j, k = .skip j ∧ j = holds.toNat ∧ w' = w ∧ s' = s := by
    refine .bind (.ofExcept hw.agrees (op.gives_holds u v)) fun a b w' s' hm h => ?_
    obtain ⟨rfl, -, rfl, rfl⟩ := h
    refine .pure hm.agrees ⟨_, rfl, ?_, rfl, rfl⟩
    rw [ha]
    cases b <;> rfl
  simpa only [bind_pure] using h

end

theorem test_runs {source : Register}
    (hi : i.opcode = .test ∧ i.a = source ∧ i.b = 0 ∧ i.c = 0) (hw : σ.Ready w s)
    (hh : σ.Holds s source v) :
    σ.Runs P w s (pure v) [⟨i, location⟩] 0 fun u k _ _ => u = v ∧ k = v.isTruthy.toNat := by
  obtain ⟨ho, rfl, -, hc⟩ := hi
  refine .of_ok rfl (run_line location ?_) (.refl hw.agrees) ⟨rfl, rfl⟩
  simp only [step, ho, hc]
  rw [bind_of_ok (getRegister_eq hh)]
  cases v.isTruthy <;> rfl

/-- The value is kept if it is of the given truth; else the next line is skipped. -/
theorem testSet_runs {source : Nat} {stop : Bool}
    (hi : i.opcode = .testSet ∧ i.a = r ∧ i.b = source ∧ i.c = stop.toNat) (hw : σ.Ready w s)
    (hh : σ.Holds s source v) (hv : σ.Built w v) (ht : scope.registers ≤ r.val)
    (hr : r.val < σ.room.frameSize) :
    σ.Runs (· ≠ r.val) w s (pure v) [⟨i, location⟩] 0 fun u k w' s' => u = v ∧
      if v.isTruthy = stop then σ.Result r v k w' s' else k = 1 := by
  obtain ⟨ho, rfl, hb, hc⟩ := hi
  have hstep : step σ.machine.caching σ.call σ.here i s =
      (if v.isTruthy == stop then do
        setRegister σ.here.address i.a v
        proceed false
      else proceed true : Running Continuation) s := by
    simp only [step, ho, hb, hc]
    rw [bind_of_ok (getRegister_eq hh)]
    cases stop <;> rfl
  by_cases htruth : v.isTruthy = stop
  · rw [if_pos (by simpa using htruth)] at hstep
    have hput := put_runs location hw hw.agrees rfl hv hr false hstep
    rw [settle_temporary ht] at hput
    refine hput.imp fun u k w' s' _ h => ⟨h.1, ?_⟩
    rw [if_pos htruth]
    exact h.2
  · rw [if_neg (by simpa using htruth)] at hstep
    refine .of_ok rfl (run_line location hstep) (.refl hw.agrees) ⟨rfl, ?_⟩
    rw [if_neg htruth]
    rfl

theorem jump_eq {lines : Nat} (hi : i.opcode = .jump ∧ i.displacement = lines) :
    σ.run [⟨i, location⟩] 0 s = .ok (.skip lines) s := by
  obtain ⟨ho, hd⟩ := hi
  refine run_line location ?_
  simp only [step, ho, hd]
  rw [if_neg (Int.not_lt.mpr (Int.natCast_nonneg lines)), Int.toNat_natCast]
  rfl

theorem registersFrom_eq {vs : List Value} {first : Nat}
    (h : ∀ j v, vs[j]? = some v → σ.Holds s (first + j) v) :
    registersFrom σ.here.address first vs.length s = .ok vs s := by
  induction vs generalizing first with
  | nil => rfl
  | cons v vs ih =>
    have hfirst : σ.Holds s first v := h 0 v rfl
    rw [List.length_cons, registersFrom, bind_of_ok (getRegister_eq hfirst), bind_of_ok (ih ?_)]
    · rfl
    · intro j u hu
      rw [Nat.add_right_comm]
      exact h (j + 1) u hu

/-- The registers behind one that holds something, if they hold something themselves. -/
theorem slice_eq {vs : List Value} {first : Nat} {u : Value} (hu : σ.Holds s first u)
    (h : ∀ j v, vs[j]? = some v → σ.Holds s (first + 1 + j) v) :
    slice σ.here.address (first + 1) (first + (vs.length + 1)) s = .ok vs s := by
  have hlast : (s.register? σ.here.address (first + vs.length)).isSome := by
    cases hn : vs.length with
    | zero => exact Option.isSome_of_eq_some hu
    | succ n =>
      have hv := h n vs[n] (List.getElem?_eq_getElem (by omega))
      rw [Nat.add_assoc, Nat.add_comm 1 n] at hv
      exact Option.isSome_of_eq_some hv
  have hsize : first + vs.length + 1 - (first + 1) = vs.length := by omega
  rw [slice, ← Nat.add_assoc, bind_of_ok (checkSlice_eq hlast (by omega)), hsize]
  exact registersFrom_eq h

/-- A call of the procedure in a register with the arguments in the registers behind it. -/
theorem call_runs {vs : List Value}
    (hi : i.opcode = .call ∧ i.a = r ∧ i.b = vs.length + 1 ∧ i.c = 2) (hw : σ.Ready w s)
    (hh : σ.Holds s r v) (hv : σ.Built w v)
    (hvs : ∀ j u, vs[j]? = some u → σ.Holds s (r.val + 1 + j) u) (hbs : ∀ u ∈ vs, σ.Built w u)
    (ht : scope.registers ≤ r.val) (hr : r.val < σ.room.frameSize) :
    σ.Runs (· ≠ r.val) w s (Evaluating.located location (σ.evaluateCall v vs))
      [⟨i, location⟩] 0 (σ.Result r) := by
  obtain ⟨ho, rfl, hb, hc⟩ := hi
  have hcall := σ.calls w s hw.agrees v vs hv hbs
  refine compute_runs location (y := σ.call v vs) ?_ (hcall.mono (fun _ _ _ => trivial) ?_) hw ht hr
  · simp only [step, ho, hb, hc]
    rw [bind_of_ok (getRegister_eq hh), bind_of_ok (slice_eq hh hvs)]
    rfl
  · exact fun a b w' s' _ h => h

end Setting

end RegisterScheme
