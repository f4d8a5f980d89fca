import RegisterScheme.Proofs.Generation.Operands

/-! Code for operators. Their operands are evaluated first; then instructions combine them in the
register of the result. -/

namespace RegisterScheme

theorem Code.fits_flatten {codes : List Code} {room : Room}
    (h : ∀ code ∈ codes, code.Fits 0 room) : Code.Fits codes.flatten 0 room := by
  induction codes with
  | nil => exact Code.fits_nil
  | cons code codes ih =>
    obtain ⟨hc, hcs⟩ := List.forall_mem_cons.mp h
    exact hc.append (ih hcs) (Nat.zero_le _)

/-- Code that was generated with some more temporaries. -/
structure Builder.Raised {scope : Scope} {outer : List Scope} (free after : Nat) (code : Code)
    (A : Setting scope outer → Prop) (b : Builder) : Prop where
  free_le : free ≤ b.free
  valid : b.Valid scope outer
  works : code.Works after (b.room scope) A

theorem Builder.Made.raised {scope : Scope} {outer : List Scope} {free after : Nat} {code : Code}
    {A : Setting scope outer → Prop} {b : Builder} (h : b.Made free after code A) :
    b.Raised free after code A :=
  ⟨Nat.le_of_eq h.free.symm, h.valid, h.works⟩

theorem Builder.Raised.imp {scope : Scope} {outer : List Scope} {free after : Nat} {code : Code}
    {A B : Setting scope outer → Prop} {b : Builder} (h : b.Raised free after code A)
    (hA : ∀ σ, A σ → B σ) : b.Raised free after code B :=
  ⟨h.free_le, h.valid, h.works.imp fun σ _ => hA σ⟩

namespace Setting

variable {scope : Scope} {outer : List Scope} {σ : Setting scope outer} {w w' : World}
  {s s' : Store} {r : Register}

/-- What an operator does with its operands. -/
def operation (σ : Setting scope outer) (op : Operator) (es : List Expr)
    (location : Option Location) : Evaluating Value := do
  let vs ← σ.values es
  Evaluating.located location (Evaluating.operate op vs)

/-- Operands, then what is done with them. -/
theorem Gathers.computes {first : Nat} {os : List Operand} {x : Evaluating (List Value)}
    {code k : Code} {f : List Value → Evaluating Value} (hg : σ.Gathers first os x code)
    (hf : ∀ vs w s, σ.Ready w s → List.Forall₂ (σ.Reads s) os vs → (∀ v ∈ vs, σ.Built w v) →
      σ.Runs (· ≠ r.val) w s (f vs) k 0 (σ.Result r)) :
    σ.Computes first r (x >>= f) (code ++ k) := by
  intro w s hw
  refine Runs.append ((hg w s hw).mono (fun _ _ hi => hi.1) fun _ _ _ _ _ hq => hq)
    fun vs k w' s' hm h => ?_
  obtain ⟨rfl, hr, hb⟩ := h
  exact (hf vs w' s' (hw.moves hm) hr hb).mono (fun _ _ hi => hi.2) fun _ _ _ _ _ hq => hq

/-- The first two operands, then the others one by one. -/
theorem folded_runs {opcode : Opcode} {op : Arithmetic}
    (hop : Running.arithmetic? opcode = some op) {location : Option Location} {i : Instruction}
    {x y : Operand} {os : List Operand} {codes : List Code} {vs : List Value}
    (hi : i.opcode = opcode ∧ i.a = r ∧ i.b = x.half ∧ i.c = y.half)
    (hc : Folds opcode r location os codes) (ht : scope.registers ≤ r.val)
    (hr : r.val < σ.room.frameSize) (ho : ∀ o ∈ os, o ≠ .register r) (hw : σ.Ready w s)
    (hvs : List.Forall₂ (σ.Reads s) (x :: y :: os) vs) : ∃ u v rest, vs = u :: v :: rest ∧
      σ.Runs (· ≠ r.val) w s (Evaluating.located location
        (Evaluating.ofExcept ((v :: rest).foldlM op.apply u)))
        ([⟨i, location⟩] ++ codes.flatten) 0 (σ.Result r) := by
  cases hvs with
  | @cons _ u _ _ hu hvs =>
    cases hvs with
    | @cons _ v _ rest hv hvs =>
      refine ⟨u, v, rest, rfl, ?_⟩
      rw [List.foldlM_cons, Evaluating.located_bind]
      refine (arithmetic_runs location hop hi hw hu hv ht hr).evaluated.append
        fun a k w' s' hm h => ?_
      obtain ⟨hx, rfl, hh, hb⟩ := h
      obtain rfl : w' = w := Evaluating.reading_ofExcept location _ w a w' hx
      refine fold_runs hop hc ht hr ho (hw.moves hm) hh hb ?_
      exact ((List.forall₂_and_left os rest).mpr ⟨ho, hvs⟩).imp fun o v ⟨hne, hread⟩ =>
        hread.moves hw hm fun q hq _ hqr => hne (hqr ▸ hq)

theorem values_singleton (σ : Setting scope outer) (e : Expr) :
    σ.values [e] = do return [← σ.evaluate true e] := by
  rw [values, Evaluating.values, Evaluating.values]
  simp only [pure_bind]

theorem Offers.singleton {first : Nat} {o : Operand} {code : Code} {x : Evaluating Value}
    (h : σ.Offers first o x code) : σ.Gathers first [o] (do return [← x]) code := by
  intro w s hw
  exact (h w s hw).map ([·]) fun v k w' s' _ ⟨hk, hr, hb⟩ =>
    ⟨hk, .cons hr .nil, List.forall_mem_cons.mpr ⟨hb, by simp⟩⟩

end Setting

namespace Lowering

open Generating

variable {inner : Lowering} {n : Nat} {scope : Scope} {outer : List Scope} {b : Builder}
  {e : Expr} {es : List Expr} {r : Register} {location : Option Location}

/-- The opcodes of instructions that take two operands and give a value. -/
def binaryOpcodes : List Opcode := [.add, .subtract, .multiply, .divide, .modulo, .remainder, .cons]

theorem fits_binary {room : Room} {i : Instruction} {opcode : Opcode} {x y : Operand}
    (hop : opcode ∈ binaryOpcodes)
    (hi : i.opcode = opcode ∧ i.a = r ∧ i.b = x.half ∧ i.c = y.half) (hr : r.val < room.frameSize)
    (hx : room.Holds x.half) (hy : room.Holds y.half) :
    Code.Fits [⟨i, location⟩] 0 room := by
  obtain ⟨rfl, rfl, hb, hc⟩ := hi
  refine Code.fits_line (Instruction.fits_of_operands (x := x) (y := y) ?_ hr hb hc hx hy) ?_
  · revert hop
    cases i.opcode <;> decide
  · refine Nat.le_of_eq (Instruction.reach_eq_zero fun hmem => ?_)
    revert hop hmem
    cases i.opcode <;> decide

/-- The parts of the code for an operation from the left. -/
structure FoldedMade (scope : Scope) (outer : List Scope) (b : Builder) (r : Register)
    (opcode : Opcode) (es : List Expr) (location : Option Location) (code : Code) (c : Builder) :
    Prop where
  free_le : b.free ≤ c.free
  valid : c.Valid scope outer
  fits : code.Fits 0 (c.room scope)
  parts : ∃ x y os, ∃ line : Code, ∃ i codes,
    code = line ++ ([⟨i, location⟩] ++ codes.flatten) ∧ (x :: y :: os).length = es.length ∧
    (i.opcode = opcode ∧ i.a = r ∧ i.b = x.half ∧ i.c = y.half) ∧
    Setting.Folds opcode r location os codes ∧ (∀ o ∈ os, o ≠ .register r) ∧
    ∀ σ : Setting scope outer, (c.room scope).Within σ.room →
      σ.Gathers b.free (x :: y :: os) (σ.values es) line

theorem folded_keeps (h : inner.Correct n) (hs : scope.Valid) (hb : b.Valid scope outer)
    (hes : ∀ e ∈ es, e.height ≤ n ∧ e.Scoped (scope :: outer)) (ht : scope.registers ≤ r.val)
    (hr : r.val < b.free) {opcode : Opcode} (hop : opcode ∈ binaryOpcodes)
    (hlen : 2 ≤ es.length) :
    Generates b (inner.folded scope r opcode es location) fun code c =>
      FoldedMade scope outer b r opcode es location code c := by
  refine Keeps.bind (operands_made h hs hes hb) fun p c hbc hp => ?_
  obtain ⟨line, os⟩ := p
  obtain ⟨ho, hl, hw⟩ := hp
  match os, hl with
  | [], hl => exact absurd (hl ▸ hlen) (by simp)
  | [x], hl => exact absurd (hl ▸ hlen) (by simp)
  | x :: y :: os, hl =>
    have hne (o : Operand) (hmem : o ∈ x :: y :: os) : o ≠ .register r := fun heq =>
      (ho.registers o hmem r heq).elim (fun hlt => absurd ht (Nat.not_le_of_lt hlt))
        fun hle => absurd hr (Nat.not_lt_of_le hle)
    have hsize {d : Builder} (hd : b.Grows d) : r.val < d.used :=
      Nat.lt_of_lt_of_le (Nat.lt_of_lt_of_le hr hb.free_le) hd.used
    refine Keeps.bind (emit_keeps location _) fun first c' _ hfirst => ?_
    obtain ⟨rfl, i, hi, rfl⟩ := hfirst
    have hi := Instruction.abc_eq_ok hi
    refine Keeps.bind (Keeps.mapM_forall₂ (I := fun d => d = c') (P := fun (o : Operand) (code : Code) (d : Builder) =>
      (∃ i, code = [⟨i, location⟩] ∧ i.opcode = opcode ∧ i.a = r ∧
        i.b = (Operand.register r).half ∧ i.c = o.half) ∧ code.Fits 0 (d.room scope))
      (fun _ _ d d' hd hdd' => ⟨hd.1, hd.2.mono (hdd'.within scope)⟩) rfl ?_)
      fun codes d _ hcodes => .pure (.refl d) ?_
    · rintro z hz _ - rfl
      refine (emit_keeps location _).mono fun code d _ hcode => ?_
      obtain ⟨rfl, j, hj, rfl⟩ := hcode
      have hj := Instruction.abc_eq_ok hj
      refine ⟨rfl, ⟨j, rfl, hj⟩, fits_binary (x := .register r) hop hj (hsize hbc) ?_ ?_⟩
      · exact Room.holds_register (hsize hbc) r.isLt
      · exact ho.holds z (List.mem_cons_of_mem _ (List.mem_cons_of_mem _ hz))
    · obtain ⟨rfl, hcodes⟩ := hcodes
      refine ⟨ho.free_le, ho.valid, ?_, x, y, os, line, i, codes, List.append_assoc .., hl, hi,
        hcodes.imp fun _ _ h => h.1, fun o hmem => hne o (by simp [hmem]), hw.runs⟩
      refine (hw.fits.append (fits_binary hop hi (hsize hbc) (ho.holds x (by simp))
        (ho.holds y (by simp))) (Nat.zero_le _)).append (Code.fits_flatten ?_) (Nat.zero_le _)
      intro code hmem
      obtain ⟨i, hi, rfl⟩ := List.getElem_of_mem hmem
      exact (hcodes.get (hcodes.length_eq ▸ hi) hi).2

/-- Arithmetic on at least two operands. -/
theorem folded_made (h : inner.Correct n) (hs : scope.Valid) (hb : b.Valid scope outer)
    (hes : ∀ e ∈ es, e.height ≤ n ∧ e.Scoped (scope :: outer)) (ht : scope.registers ≤ r.val)
    (hr : r.val < b.free) {opcode : Opcode} {arithmetic : Arithmetic} {op : Operator}
    (hop : Running.arithmetic? opcode = some arithmetic) (hlen : 2 ≤ es.length)
    (heq : ∀ u v rest, (u :: v :: rest).length = es.length →
      Evaluating.operate op (u :: v :: rest) =
        Evaluating.ofExcept ((v :: rest).foldlM arithmetic.apply u)) :
    Generates b (inner.folded scope r opcode es location) fun code c =>
      c.Raised b.free 0 code fun σ : Setting scope outer =>
        σ.Computes b.free r (σ.operation op es location) code := by
  have hbinary : opcode ∈ binaryOpcodes := by
    revert hop
    cases opcode <;> simp [Running.arithmetic?, binaryOpcodes]
  refine (folded_keeps h hs hb hes ht hr hbinary hlen).mono fun code c hbc hm => ?_
  obtain ⟨x, y, os, line, i, codes, rfl, hl, hi, hfolds, hne, hgather⟩ := hm.parts
  refine ⟨hm.free_le, hm.valid, hm.fits, fun σ hσ => ?_⟩
  refine (hgather σ hσ).computes fun vs w s hw hvs _ => ?_
  obtain ⟨u, v, rest, rfl, hrun⟩ := Setting.folded_runs hop hi hfolds ht
    (Nat.lt_of_lt_of_le (Nat.lt_of_lt_of_le (Nat.lt_of_lt_of_le hr hb.free_le) hbc.used)
      hσ.frameSize) hne hw hvs
  rwa [heq u v rest (by rw [← hvs.length_eq, hl])]

theorem lt_frameSize {c : Builder} (hb : b.Valid scope outer) (hr : r.val < b.free)
    (hbc : b.Grows c) {σ : Setting scope outer} (hσ : (c.room scope).Within σ.room) :
    r.val < σ.room.frameSize :=
  Nat.lt_of_lt_of_le (Nat.lt_of_lt_of_le (Nat.lt_of_lt_of_le hr hb.free_le) hbc.used) hσ.frameSize

/-- A new pair. -/
theorem cons_made (h : inner.Correct n) (hs : scope.Valid) (hb : b.Valid scope outer)
    (hes : ∀ e ∈ es, e.height ≤ n ∧ e.Scoped (scope :: outer)) (ht : scope.registers ≤ r.val)
    (hr : r.val < b.free) (hlen : es.length = 2) :
    Generates b (inner.folded scope r .cons es location) fun code c =>
      c.Raised b.free 0 code fun σ : Setting scope outer =>
        σ.Computes b.free r (σ.operation .cons es location) code := by
  refine (folded_keeps h hs hb hes ht hr (by decide) (Nat.le_of_eq hlen.symm)).mono
    fun code c hbc hm => ?_
  obtain ⟨x, y, os, line, i, codes, rfl, hl, hi, hfolds, -, hgather⟩ := hm.parts
  obtain rfl : os = [] := by
    rw [hlen, List.length_cons, List.length_cons] at hl
    exact List.length_eq_zero_iff.mp (by omega)
  cases hfolds
  refine ⟨hm.free_le, hm.valid, hm.fits, fun σ hσ => ?_⟩
  refine (hgather σ hσ).computes fun vs w s hw hvs hbs => ?_
  match vs, hvs with
  | [u, v], .cons hu (.cons hv .nil) =>
    exact Setting.cons_runs location hi hw hu hv (hbs u (by simp)) (hbs v (by simp)) ht
      (lt_frameSize hb hr hbc hσ)

/-- An atom as an operand. -/
theorem atomOperand_made (hb : b.Valid scope outer) (a : Atom) :
    Generates b (atomOperand a location) fun p c => c.Valid scope outer ∧ b.free ≤ c.free ∧
      (∀ q, p.2 = .register q → b.free ≤ q ∧ q < c.free) ∧ (c.room scope).Holds p.2.half ∧
      p.1.Works 0 (c.room scope) fun σ : Setting scope outer =>
        σ.Offers b.free p.2 (pure (.atom a)) p.1 := by
  refine Keeps.bind (atom_keeps hb a) fun index c hbc hc => ?_
  obtain ⟨hf, hv, first, hi⟩ := hc
  cases ho : Operand.constant? index with
  | some o =>
    refine .pure (.refl c) ⟨hv, Nat.le_of_eq hf.symm, fun q hq => ?_, constant_holds ho hi, ?_⟩
    · rw [(Operand.constant?_eq_some ho).1] at hq
      cases hq
    · exact constant_offers (q := ⟨first, .atom a⟩) ho hi rfl
  | none =>
    refine Keeps.bind (allocate_keeps hv) fun q d hcd hq => ?_
    obtain ⟨hq, hfree, hvd⟩ := hq
    have hsize : q.val < d.used := Nat.lt_of_lt_of_le (by omega) hvd.free_le
    refine Keeps.bind (loadConstant_made location hvd hsize (hcd.getElem? hi)
      (.inr ⟨⟨first, .atom a⟩, rfl, rfl⟩)) fun code d' hdd' hm => .pure (.refl d') ?_
    have hfree' := hm.free
    refine ⟨hm.valid, by omega, fun p hp => ?_, ?_, hm.works.imp fun σ _ hset => ?_⟩
    · cases hp
      omega
    · exact Room.holds_register (Nat.lt_of_lt_of_le hsize hdd'.used) q.isLt
    · have hreg : scope.registers ≤ q.val := by
        have := hv.registers_le
        omega
      have hdeliver := (hset.computes hreg b.free).delivers (by omega)
      exact hdeliver.offers q.isLt

/-- One operand after an atom. -/
theorem afterAtom_made (h : inner.Correct n) (hs : scope.Valid) (hb : b.Valid scope outer)
    (he : e.height ≤ n) (hsc : e.Scoped (scope :: outer)) (ht : scope.registers ≤ r.val)
    (hr : r.val < b.free) {opcode : Opcode} {arithmetic : Arithmetic} {op : Operator} {a : Atom}
    (hop : Running.arithmetic? opcode = some arithmetic)
    (heq : ∀ v, Evaluating.operate op [v] =
      Evaluating.ofExcept ([v].foldlM arithmetic.apply (.atom a))) :
    Generates b (inner.afterAtom scope r opcode a e location) fun code c =>
      c.Raised b.free 0 code fun σ : Setting scope outer =>
        σ.Computes b.free r (σ.operation op [e] location) code := by
  have hbinary : opcode ∈ binaryOpcodes := by
    revert hop
    cases opcode <;> simp [Running.arithmetic?, binaryOpcodes]
  refine Keeps.bind (atomOperand_made hb a) fun p c hbc hp => ?_
  obtain ⟨hv, hf, hreg, hholds, hload⟩ := hp
  refine Keeps.bind (toOperand_made h hs hv he hsc) fun p' d hcd hp' => ?_
  obtain ⟨ho, hcode⟩ := hp'
  refine Keeps.bind (emit_keeps location _) fun line d' _ hline => ?_
  obtain ⟨rfl, i, hi, rfl⟩ := hline
  have hi := Instruction.abc_eq_ok hi
  have hbd := hbc.trans hcd
  have hfits : Code.Fits [⟨i, location⟩] 0 (d'.room scope) :=
    fits_binary hbinary hi (Nat.lt_of_lt_of_le (Nat.lt_of_lt_of_le hr hb.free_le) hbd.used)
      ((hcd.within scope).holds hholds) ho.holds
  have hboth := (hload.grows hcd).append hcode (Nat.zero_le _)
    (C := fun σ => σ.Gathers b.free [p.2, p'.2]
      (do return (← (pure (.atom a) : Evaluating Value)) :: (← σ.values [e])) (p.1 ++ p'.1))
    fun σ _ hx hxs => hx.gathers (σ.values_singleton e ▸ hxs.singleton) hf (fun q hq _ => (hreg q hq).2)
      (.inr fun q hq => Nat.le_trans hb.registers_le (hreg q hq).1)
  refine .pure (.refl d') ⟨Nat.le_trans hf ho.free_le, ho.valid, ?_⟩
  refine hboth.append (Code.Works.mk (A := fun _ => True) hfits fun _ _ => trivial)
    (Nat.zero_le _) fun σ hσ hg _ => ?_
  have hcomputes := hg.computes (r := r) (k := [⟨i, location⟩]) (f := fun vs =>
    match vs with
    | u :: rest => Evaluating.located location
        (Evaluating.ofExcept (rest.foldlM arithmetic.apply u))
    | [] => pure .nil) fun vs w s hw hvs _ => ?_
  · simp only [pure_bind, bind_assoc] at hcomputes
    have hsame : σ.operation op [e] location = σ.values [e] >>= fun vs => Evaluating.located
        location (Evaluating.ofExcept (vs.foldlM arithmetic.apply (.atom a))) := by
      rw [Setting.operation, Setting.values_singleton]
      simp only [bind_assoc, pure_bind, heq]
    rwa [hsame]
  · obtain ⟨u, v, rest, rfl, hrun⟩ := Setting.folded_runs (i := i) hop hi .nil ht
      (lt_frameSize hb hr hbd hσ) (by simp) hw hvs
    exact hrun

/-- One operand in a register. -/
theorem unary_made (h : inner.Correct n) (hs : scope.Valid) (hb : b.Valid scope outer)
    (he : e.height ≤ n) (hsc : e.Scoped (scope :: outer)) (hr : r.val < b.free)
    {opcode : Opcode} {op : Operator}
    (hop : opcode ∈ [.negate, .not, .car, .cdr])
    (hrun : ∀ (σ : Setting scope outer) w s v q i, r.val < σ.room.frameSize → σ.Ready w s →
      σ.Holds s q v → σ.Built w v → i.opcode = opcode ∧ i.a = r ∧ i.b = q ∧ i.c = 0 →
      σ.Runs (· ≠ r.val) w s (Evaluating.located location (Evaluating.operate op [v]))
        [⟨i, location⟩] 0 (σ.Result r)) :
    Generates b (inner.unary scope r opcode [e] location) fun code c =>
      c.Raised b.free 0 code fun σ : Setting scope outer =>
        σ.Computes b.free r (σ.operation op [e] location) code := by
  refine Keeps.bind (toRegister_made h hs hb he hsc) fun p c hbc hp => ?_
  obtain ⟨hl, hw⟩ := hp
  refine Keeps.bind (emit_keeps location _) fun line c' _ hline => ?_
  obtain ⟨rfl, i, hi, rfl⟩ := hline
  have hi := Instruction.ab_eq_ok hi
  have hsize : r.val < c'.used :=
    Nat.lt_of_lt_of_le (Nat.lt_of_lt_of_le hr hb.free_le) hbc.used
  have hsource : p.2.val < c'.used := Nat.lt_of_lt_of_le hl.lt_free hl.valid.free_le
  have hfits : Code.Fits [⟨i, location⟩] 0 (c'.room scope) := by
    refine Code.fits_line (Instruction.fits_of_registers ?_ ?_) ?_
    · rw [hi.1]
      revert hop
      cases opcode <;> simp
    · intro q hq
      have hq' : q = r.val ∨ q = p.2.val := by
        unfold Instruction.registers at hq
        rw [hi.1, hi.2.1, hi.2.2.1] at hq
        simp only [List.mem_cons, List.not_mem_nil, or_false] at hop
        rcases hop with rfl | rfl | rfl | rfl
        all_goals simpa using hq
      obtain rfl | rfl := hq'
      · exact hsize
      · exact hsource
    · refine Nat.le_of_eq (Instruction.reach_eq_zero ?_)
      rw [hi.1]
      revert hop
      cases opcode <;> simp
  refine .pure (.refl c') ⟨hl.free_le, hl.valid, ?_⟩
  refine hw.append (Code.Works.mk (A := fun _ => True) hfits fun _ _ => trivial)
    (Nat.zero_le _) fun σ hσ hd _ w s hready => ?_
  rw [Setting.operation, Setting.values_singleton]
  simp only [bind_assoc, pure_bind]
  refine Setting.Runs.append ((hd w s hready).mono (fun _ _ hi => hi.1) fun _ _ _ _ _ hq => hq)
    fun v k w' s' hm hv => ?_
  obtain ⟨rfl, hh, hbuilt⟩ := hv
  exact (hrun σ w' s' v p.2 i (lt_frameSize hb hr hbc hσ) (hready.moves hm) hh hbuilt hi).mono
    (fun _ _ hi => hi.2) fun _ _ _ _ _ hq => hq

end Lowering

end RegisterScheme
