import RegisterScheme.Proofs.Generation.Permits

/-! Code for an expression keeps to its registers, one form after the other: it gives back what it
takes, and writes its destination, what was free, and the variables that the expression assigns. -/

namespace RegisterScheme

/-- Opcodes for single operands move values, for several they combine or compare them. -/
theorem Operator.plan_kinds (op : Operator) :
    op.plan.Sorted (·.combines) (·.moves) (·.compares) := by
  cases op <;> simp [plan, Plan.Sorted, Opcode.combines, Opcode.moves, Opcode.compares]

namespace Lowering

open Generating Permit

/-- Code for the parts of an expression keeps to its registers. -/
def Disciplined (inner : Lowering) : Prop :=
  ∀ (p : Permit) b d e, p.Holds b → p.Allows e → (∀ r, d = .register r → p.Takes b r) →
    Lays b (inner.expr p.scope d e) (p.Level b)

variable {inner : Lowering} {p : Permit} {b : Builder} {e : Expr} {es : List Expr}
  {r : Register} {location : Option Location}

namespace Disciplined

variable (h : inner.Disciplined)

include h

theorem into (hb : p.Holds b) (he : p.Allows e) (hr : p.Takes b r) :
    Lays b (inner.into p.scope r e) (p.Level b) := by
  refine h p b (.register r) e hb he fun q hq => ?_
  cases hq
  exact hr

theorem effect (hb : p.Holds b) (he : p.Allows e) :
    Lays b (inner.effect p.scope e) (p.Level b) := h p b .nowhere e hb he nofun

theorem toTemporary (hb : p.Holds b) (he : p.Allows e) :
    Lays b (inner.toTemporary p.scope e) fun x c =>
      x.2.val = b.free ∧ c.free = b.free + 1 ∧ p.Raised b x.1 c := by
  refine Keeps.bind (allocate_lays hb) fun q c _ hq => ?_
  obtain ⟨hq, hfree, hc, hmay⟩ := hq
  refine Keeps.bind (h.into hc he ⟨by omega, hmay⟩) fun code d hcd hcode => ?_
  refine Keeps.bind (freeFrom_lays d _ (q + 1)) fun _ d' hdd hd => .pure (.refl d') ?_
  have hfree' : d'.free = b.free + 1 := by omega
  exact ⟨hq, hfree', hc.level (hcd.trans hdd) (hfree'.trans hfree.symm), by omega,
    hcode.covers.grows hdd⟩

theorem toRegister (hb : p.Holds b) (he : p.Allows e) :
    Lays b (inner.toRegister p.scope e) fun x c => p.Raised b x.1 c ∧ x.2.val < c.free := by
  unfold Lowering.toRegister
  split
  · rename_i q l
    have hq := he.locals q (.reads (.refl _))
    exact .pure (.refl b) ⟨⟨hb, Nat.le_refl _, Code.confined_nil⟩,
      Nat.lt_of_lt_of_le hq hb.registers_le⟩
  · refine (h.toTemporary hb he).mono fun x c _ hx => ⟨hx.2.2, ?_⟩
    have hfree := hx.2.1
    omega

theorem toOperand (hb : p.Holds b) (he : p.Allows e) :
    Lays b (inner.toOperand p.scope e) fun x c =>
      p.Raised b x.1 c ∧ Operand.Below (p.size c) x.2.half := by
  rw [toOperand_eq]
  have hconstant : Lays b (constantOperand e) fun k c =>
      c.free = b.free ∧ ∀ o, k = some o → Operand.Below 0 o.half := by
    unfold constantOperand
    split
    · exact Keeps.bind (literal_lays b _) fun index c _ hf =>
        .pure (.refl c) ⟨hf, fun o ho => Operand.below_constant ho⟩
    · exact .pure (.refl b) ⟨rfl, nofun⟩
  refine Keeps.bind hconstant fun k c hbc hk => ?_
  obtain ⟨hf, hk⟩ := hk
  have hc := hb.level hbc hf
  cases k with
  | some o =>
    exact .pure (.refl c) ⟨⟨hc, Nat.le_of_eq hf.symm, Code.confined_nil⟩,
      (hk o rfl).mono (Nat.zero_le _)⟩
  | none =>
    refine Keeps.bind (h.toRegister hc he) fun x d _ hx => .pure (.refl d) ?_
    obtain ⟨hraised, hlt⟩ := hx
    exact ⟨⟨hraised.holds, hf ▸ hraised.free_le, hraised.covers⟩,
      Operand.below_register (hraised.holds.lt_size hlt)⟩

theorem nextOperand (hb : p.Holds b) (he : p.Allows e) :
    Lays b (inner.nextOperand p.scope e es) fun x c =>
      p.Raised b x.1 c ∧ Operand.Below (p.size c) x.2.half := by
  unfold Lowering.nextOperand
  split
  · split
    · exact h.toOperand hb he
    · refine Keeps.bind (h.toTemporary hb he) fun x c _ hx => .pure (.refl c) ?_
      obtain ⟨hx, hfree, hraised⟩ := hx
      exact ⟨hraised, Operand.below_register (hraised.holds.lt_size (by omega))⟩
  · exact h.toOperand hb he

theorem operands (hb : p.Holds b) (hes : ∀ e ∈ es, p.Allows e) :
    Lays b (inner.operands p.scope es) fun x c =>
      p.Raised b x.1 c ∧ ∀ o ∈ x.2, Operand.Below (p.size c) o.half := by
  induction es generalizing b with
  | nil => exact .pure (.refl b) ⟨⟨hb, Nat.le_refl _, Code.confined_nil⟩, nofun⟩
  | cons e es ih =>
    obtain ⟨he, hes⟩ := List.forall_mem_cons.mp hes
    rw [operands_cons]
    refine Keeps.bind (h.nextOperand hb he) fun x c _ hx => ?_
    refine Keeps.bind (ih hx.1.holds hes) fun xs d hcd hxs => .pure (.refl d) ?_
    exact ⟨hx.1.append hcd hxs.1, List.forall_mem_cons.mpr ⟨hx.2.mono (size_le hcd), hxs.2⟩⟩

theorem arguments (hb : p.Holds b) (hes : ∀ e ∈ es, p.Allows e) :
    Lays b (inner.arguments p.scope es) fun code c =>
      c.free = b.free + es.length ∧ p.Raised b code c := by
  induction es generalizing b with
  | nil => exact .pure (.refl b) ⟨rfl, hb, Nat.le_refl _, Code.confined_nil⟩
  | cons e es ih =>
    obtain ⟨he, hes⟩ := List.forall_mem_cons.mp hes
    refine Keeps.bind (h.toTemporary hb he) fun x c _ hx => ?_
    obtain ⟨-, hfree, hraised⟩ := hx
    refine Keeps.bind (ih hraised.holds hes) fun more d hcd hmore => .pure (.refl d) ?_
    refine ⟨?_, hraised.append hcd hmore.2⟩
    rw [hmore.1, hfree, List.length_cons]
    omega

/-- A value in some register, and a line that takes it from there. -/
theorem stored (hb : p.Holds b) (he : p.Allows e) (store : Register → Generating Code)
    (hstore : ∀ q c, p.Holds c → q.val < c.free → Lays c (store q) (p.Level c)) :
    Lays b (do
      let (code, source) ← inner.toRegister p.scope e
      return code ++ (← store source)) fun code c => p.Covers code c := by
  refine Keeps.bind (h.toRegister hb he) fun x c _ hx => ?_
  obtain ⟨hraised, hlt⟩ := hx
  refine Keeps.bind (hstore x.2 c hraised.holds hlt) fun line d hcd hline => .pure (.refl d) ?_
  exact (hraised.covers.grows hcd).append hline.covers

theorem assign (hb : p.Holds b) {target : VariableRef} {value : Expr}
    (he : p.Allows (.assignment target value location)) :
    Lays b (inner.assign p.scope target value location) (p.Level b) := by
  have hvalue : p.Allows value := he.part List.mem_cons_self
  rw [assign_eq]
  refine freed_lays (fun _ => inner.assignCode p.scope target value location) ?_
  cases target with
  | localVariable r =>
    have hr := Nat.lt_of_lt_of_le (he.locals r (.writes (.refl _))) hb.registers_le
    have hmay : p.may r := he.assigned r ⟨r, value, location, rfl, .refl _⟩
    simp only [assignCode]
    split
    · exact (h.into hb hvalue ⟨hr, hmay⟩).mono fun _ _ _ h => h.covers
    · -- the variable keeps its value until the new one is complete
      refine Keeps.bind (allocate_lays hb) fun scratch c _ hq => ?_
      obtain ⟨hscratch, hfree, hc, hq⟩ := hq
      refine Keeps.bind (h.into hc hvalue ⟨by omega, hq⟩) fun code d hcd hcode => ?_
      have hd := hcode.holds hc hcd
      have hdfree := hcode.free
      have hmove : Lays d (emit location (Instruction.ab .move r scratch)) (p.Level d) :=
        move_lays .move hd ⟨by omega, hmay⟩ (hd.lt_size (by omega)) rfl
      exact Keeps.bind hmove fun line d' hdd hline => .pure (.refl d')
        ((hcode.covers.grows hdd).append hline.covers)
  | captured slot =>
    refine h.stored hb hvalue (fun q => emit location (slotOperand slot >>=
      Instruction.ab .setCaptured q)) fun q c hc hq => ?_
    exact store_lays .setCaptured (hc.lt_size hq) rfl fun _ h =>
      have h := Instruction.ab_eq_ok (slotOperand_bind_eq_ok h)
      ⟨h.1, h.2.1⟩
  | global slot =>
    refine h.stored hb hvalue (storeGlobal p.scope slot location) fun q c hc hq => ?_
    refine then_lays (globalName_lays c p.scope slot) fun index d hcd hf => ?_
    exact store_lays .setGlobal ((hc.level hcd hf).lt_size (hf ▸ hq)) rfl fun _ h =>
      ⟨(Instruction.abx_eq_ok h).1, (Instruction.abx_eq_ok h).2.1⟩

/-- A test of a value that is no longer needed behind it. -/
theorem tested (hb : p.Holds b) (he : p.Allows e) {test : Register → Except Overrun Instruction}
    (htest : ∀ q c, b.free ≤ c.free → p.Holds c → q.val < c.free →
      Lays c (emit location (test q)) (p.Level c)) :
    Lays b (inner.tested p.scope e test location) (p.Level b) := by
  refine .get_bind (Keeps.bind (h.toRegister hb he) fun x c _ hx => ?_)
  obtain ⟨hraised, hlt⟩ := hx
  refine Keeps.bind (htest x.2 c hraised.free_le hraised.holds hlt) fun line d hcd hline => ?_
  refine Keeps.bind (freeFrom_lays d _ b.free) fun _ d' hdd hf => .pure (.refl d') ⟨hf, ?_⟩
  exact ((hraised.covers.grows hcd).append hline.covers).grows hdd

theorem test (hb : p.Holds b) (he : p.Allows e) :
    Lays b (inner.tested p.scope e (Instruction.abc .test · 0 0) location) (p.Level b) :=
  h.tested hb he fun _ _ _ hc hq => store_lays .test (hc.lt_size hq) rfl fun _ h =>
    ⟨(Instruction.abc_eq_ok h).1, (Instruction.abc_eq_ok h).2.1⟩

theorem testSet (hb : p.Holds b) (he : p.Allows e) (hr : p.Takes b r) (stop : Nat) :
    Lays b (inner.tested p.scope e (Instruction.abc .testSet r · stop) location) (p.Level b) :=
  h.tested hb he fun _ _ hf hc hq => move_lays .testSet hc (hr.raised hf) (hc.lt_size hq) rfl

theorem alternative (hb : p.Holds b) (hr : p.Takes b r) {otherwise : Option Expr}
    (he : ∀ e ∈ otherwise, p.Allows e) :
    Lays b (inner.alternative p.scope r otherwise location) (p.Level b) := by
  cases otherwise with
  | some e => exact h.into hb (he e rfl) hr
  | none => exact loadNil_lays hb hr

theorem branch (hb : p.Holds b) (hr : p.Takes b r) {test consequent : Expr}
    {otherwise : Option Expr} (he : p.Allows (.branch test consequent otherwise location)) :
    Lays b (inner.branch p.scope r test consequent otherwise location) (p.Level b) := by
  have htest : p.Allows test := he.part (by simp [Expr.parts])
  have hthen : p.Allows consequent := he.part (by simp [Expr.parts])
  have helse : ∀ e ∈ otherwise, p.Allows e := fun e hmem =>
    he.part (by simp [Expr.parts, Option.mem_toList.mpr hmem])
  refine Keeps.bind (h.test hb htest) fun test c hbc ht => ?_
  have hc := ht.holds hb hbc
  refine Keeps.bind (h.into hc hthen (hr.level ht.free)) fun consequent d hcd hd => ?_
  refine Keeps.bind (jump_lays (p := p) _) fun toElse d' hdd hj => ?_
  have hd' := hj.holds (hd.holds hc hcd) hdd
  have hfree := hj.free.trans (hd.free.trans ht.free)
  refine Keeps.bind (h.alternative hd' (hr.level hfree) helse) fun other f hdf hf => ?_
  refine Keeps.bind (jump_lays (p := p) _) fun exit g hfg hg => .pure (.refl g) ?_
  refine ⟨hg.free.trans (hf.free.trans hfree), ?_⟩
  have hfront := (ht.covers.grows (hcd.trans hdd)).append hj.covers
  have hthenCode := hfront.append (hd.covers.grows hdd)
  exact ((hthenCode.grows (hdf.trans hfg)).append hg.covers).append (hf.covers.grows hfg)

theorem clause (hb : p.Holds b) (hr : p.Takes b r) {c : Clause Expr} (ht : p.Allows c.test)
    (hbody : ∀ e ∈ c.body, p.Allows e) :
    Lays b (inner.clause p.scope r c location) (p.Level b) := by
  unfold Lowering.clause
  split
  · exact h.testSet hb ht hr 1
  · rename_i body hsome
    refine Keeps.bind (h.test hb ht) fun test d hbd hd => ?_
    have hd' := hd.holds hb hbd
    refine Keeps.bind (h.into hd' (hbody body hsome) (hr.level hd.free)) fun body f hdf hf => ?_
    refine Keeps.bind (jump_lays (p := p) _) fun toNext g hfg hg => .pure (.refl g) ?_
    refine ⟨hg.free.trans (hf.free.trans hd.free), ?_⟩
    exact ((hd.covers.grows (hdf.trans hfg)).append hg.covers).append (hf.covers.grows hfg)

theorem cond (hb : p.Holds b) (hr : p.Takes b r) {clauses : List (Clause Expr)}
    {otherwise : Option Expr} (he : p.Allows (.cond clauses otherwise location)) :
    Lays b (inner.cond p.scope r clauses otherwise location) (p.Level b) := by
  have hparts {c : Clause Expr} (hc : c ∈ clauses) {e : Expr} (hmem : e ∈ c.test :: c.body.toList) :
      p.Allows e :=
    he.part (List.mem_append_left _ (List.mem_flatMap.mpr ⟨c, hc, hmem⟩))
  have hothers : ∀ e ∈ otherwise, p.Allows e := fun e hmem =>
    he.part (List.mem_append_right _ (Option.mem_toList.mpr hmem))
  have hpieces : Lays b (clauses.mapM fun c => inner.clause p.scope r c location) fun codes c =>
      c.free = b.free ∧ ∀ code ∈ codes, p.Covers code c :=
    pieces_lays fun c hc d hbd hf => h.clause (hb.level hbd hf) (hr.level hf)
      (hparts hc List.mem_cons_self)
      fun e hmem => hparts hc (List.mem_cons_of_mem _ (Option.mem_toList.mpr hmem))
  exact pieces_joined_lays hb hr hpieces fun d hd hrd => h.alternative hd hrd hothers

theorem junction (hb : p.Holds b) (hr : p.Takes b r) (stop : Bool)
    (hes : ∀ e ∈ es, p.Allows e) :
    Lays b (inner.junction p.scope r stop es location) (p.Level b) := by
  unfold Lowering.junction
  split
  · exact loadBoolean_lays hb hr _ 0
  · rename_i last hlast
    refine pieces_joined_lays hb hr (pieces_lays fun e he c hbc hf => ?_) fun c hc hrc => ?_
    · exact h.testSet (hb.level hbc hf) (hes e (List.dropLast_subset es he)) (hr.level hf) _
    · exact h.into hc (hes last (List.mem_of_getLast? hlast)) hrc

theorem folded (hb : p.Holds b) (hr : p.Takes b r) {opcode : Opcode} (ho : opcode.combines)
    (hes : ∀ e ∈ es, p.Allows e) :
    Lays b (inner.folded p.scope r opcode es location) fun code c => p.Covers code c := by
  refine Keeps.bind (h.operands hb hes) fun x c _ hx => ?_
  obtain ⟨hraised, hos⟩ := hx
  have hrc := hr.raised hraised.free_le
  split
  · rename_i code x y rest
    obtain ⟨hx, hos⟩ := List.forall_mem_cons.mp hos
    obtain ⟨hy, hos⟩ := List.forall_mem_cons.mp hos
    refine Keeps.bind (combine_lays opcode hraised.holds hrc hx hy ho) fun first d hcd hd => ?_
    have hd' := hd.holds hraised.holds hcd
    -- from the third operand on the destination is the left one
    have hrest : Lays d (rest.mapM fun z => emit location (Instruction.abc opcode r r z.half))
        fun codes f => f.free = d.free ∧ ∀ code ∈ codes, p.Covers code f := by
      refine pieces_lays fun z hz f hdf hf => ?_
      have hrf := (hrc.level hd.free).level hf
      have hleft : Operand.Below (p.size f) (Operand.register r).half :=
        Operand.below_register ((hd'.level hdf hf).lt_size hrf.lt_free)
      exact combine_lays opcode (hd'.level hdf hf) hrf hleft
        ((hos z hz).mono (size_le (hcd.trans hdf))) ho
    refine Keeps.bind hrest fun more f hdf hf => .pure (.refl f) ?_
    exact ((hraised.covers.grows (hcd.trans hdf)).append (hd.covers.grows hdf)).append
      (Code.confined_flatten hf.2)
  · exact .throw (.refl c) trivial

theorem afterAtom (hb : p.Holds b) (hr : p.Takes b r) {opcode : Opcode} (ho : opcode.combines)
    (a : Atom) (he : p.Allows e) :
    Lays b (inner.afterAtom p.scope r opcode a e location) fun code c => p.Covers code c := by
  refine Keeps.bind (atomOperand_lays hb a) fun x c _ hx => ?_
  refine Keeps.bind (h.toOperand hx.1.holds he) fun y d hcd hy => ?_
  have hraised := hx.1.append hcd hy.1
  refine Keeps.bind (combine_lays opcode hraised.holds (hr.raised hraised.free_le)
    (hx.2.mono (size_le hcd)) hy.2 ho) fun line f hdf hline => .pure (.refl f) ?_
  exact (hraised.covers.grows hdf).append hline.covers

theorem unary (hb : p.Holds b) (hr : p.Takes b r) {opcode : Opcode} (ho : opcode.moves)
    (hes : ∀ e ∈ es, p.Allows e) :
    Lays b (inner.unary p.scope r opcode es location) fun code c => p.Covers code c := by
  cases es with
  | nil => exact .throw (.refl b) trivial
  | cons e es =>
    refine Keeps.bind (h.toRegister hb (hes e List.mem_cons_self)) fun x c _ hx => ?_
    obtain ⟨hraised, hlt⟩ := hx
    have hline : Lays c (emit location (Instruction.ab opcode r x.2)) (p.Level c) :=
      move_lays opcode hraised.holds (hr.raised hraised.free_le) (hraised.holds.lt_size hlt) ho
    exact Keeps.bind hline fun line d hcd hline => .pure (.refl d)
      ((hraised.covers.grows hcd).append hline.covers)

theorem compared (hb : p.Holds b) (hr : p.Takes b r) {opcode : Opcode} (ho : opcode.compares)
    (swap : Bool) (hes : ∀ e ∈ es, p.Allows e) :
    Lays b (do
      let (code, operands) ← inner.operands p.scope es
      pure (code ++ (← chain r opcode swap operands location))) fun code c => p.Covers code c := by
  refine Keeps.bind (h.operands hb hes) fun x c _ hx => ?_
  obtain ⟨hraised, hos⟩ := hx
  refine Keeps.bind (chain_lays hraised.holds (hr.raised hraised.free_le) ho swap hos)
    fun line d hcd hline => .pure (.refl d) ((hraised.covers.grows hcd).append hline.covers)

theorem isNull (hb : p.Holds b) (hr : p.Takes b r) (hes : ∀ e ∈ es, p.Allows e) :
    Lays b (do
      let (code, operands) ← inner.operands p.scope es
      let (load, nil) ← atomOperand .nil location
      pure (code ++ load ++ (← chain r .equivalent false (operands ++ [nil]) location)))
      fun code c => p.Covers code c := by
  refine Keeps.bind (h.operands hb hes) fun x c _ hx => ?_
  refine Keeps.bind (atomOperand_lays hx.1.holds .nil) fun y d hcd hy => ?_
  have hraised := hx.1.append hcd hy.1
  have hos : ∀ o ∈ x.2 ++ [y.2], Operand.Below (p.size d) o.half :=
    List.forall_mem_append.mpr
      ⟨fun o ho => (hx.2 o ho).mono (size_le hcd), List.forall_mem_singleton.mpr hy.2⟩
  refine Keeps.bind (chain_lays hraised.holds (hr.raised hraised.free_le) rfl false hos)
    fun line f hdf hline => .pure (.refl f) ((hraised.covers.grows hdf).append hline.covers)

theorem operationCode (hb : p.Holds b) (hr : p.Takes b r) {op : Operator}
    (hes : ∀ e ∈ es, p.Allows e) :
    Lays b (inner.operationCode p.scope r op es location) fun code c => p.Covers code c := by
  refine operationCode_cases (motive := fun act => Lays b act fun code c => p.Covers code c)
    op.plan_kinds ?load ?after ?folded ?unary ?chain ?null ?junction
  case load => exact fun q => (loadQuotation_lays hb hr q).mono fun _ _ _ h => h.covers
  case after => exact fun _ a e he ho => h.afterAtom hb hr ho a (hes e he)
  case folded => exact fun _ ho => h.folded hb hr ho hes
  case unary => exact fun _ ho => h.unary hb hr ho hes
  case chain => exact fun _ swap ho => h.compared hb hr ho swap hes
  case null => exact h.isNull hb hr hes
  case junction => exact fun stop => (h.junction hb hr stop hes).mono fun _ _ _ h => h.covers

theorem operation (hb : p.Holds b) (hr : p.Takes b r) {op : Operator}
    (hes : ∀ e ∈ es, p.Allows e) :
    Lays b (inner.operation p.scope r op es location) (p.Level b) := by
  rw [operation_eq]
  exact freed_lays (fun _ => inner.operationCode p.scope r op es location)
    (h.operationCode hb hr hes)

/-- The procedure and its arguments are in one row, which the call reads. -/
theorem call (hb : p.Holds b) (hr : p.Takes b r) {callee : Expr} (hcallee : p.Allows callee)
    (hes : ∀ e ∈ es, p.Allows e) :
    Lays b (inner.call p.scope r callee es location) (p.Level b) := by
  rw [call_eq]
  refine freed_lays (inner.callCode p.scope r callee es location) ?_
  refine Keeps.bind (rowFrom_lays hb hr) fun base c _ hrow => ?_
  obtain ⟨hc, hfree, hle, hmay⟩ := hrow
  have hbase : base.val < c.free := by omega
  refine Keeps.bind (h.into hc hcallee ⟨hbase, hmay⟩) fun callee d hcd hd => ?_
  refine Keeps.bind (h.arguments (hd.holds hc hcd) hes) fun arguments f hdf hf => ?_
  obtain ⟨hrow, hraised⟩ := hf
  -- the row reaches from its base to the last temporary, which is why the call reads no others
  have hend : f.free = base.val + 1 + es.length := by rw [hrow, hd.free, hfree]
  have hcall : Lays f (emit location (Instruction.abc .call base (es.length + 1) 2))
      (p.Level f) := by
    refine emit_lays fun i hi => ?_
    obtain ⟨hop, ha, hlength, -⟩ := Instruction.abc_eq_ok hi
    refine (Instruction.touches_of_call hop).confined (List.forall_mem_singleton.mpr (ha ▸ hmay))
      (fun q hq => hraised.holds.lt_size ?_) nofun
    rw [ha, hlength] at hq
    rcases List.mem_cons.mp hq with rfl | hq
    · omega
    · have hq := List.mem_range'_1.mp hq
      omega
  refine Keeps.bind hcall fun call g hfg hg => ?_
  have hg' := hg.holds hraised.holds hfg
  have hgfree := hg.free
  have hmove : Lays g (moveFrom base r location) (p.Level g) :=
    moveFrom_lays hg' (hr.raised (by omega)) (hg'.lt_size (by omega))
  refine Keeps.bind hmove fun move k hgk hk => .pure (.refl k) ?_
  have hfront := (hd.covers.grows hdf).append hraised.covers
  exact (((hfront.grows hfg).append hg.covers).grows hgk).append hk.covers

theorem sequence (hb : p.Holds b) (hr : p.Takes b r)
    (hes : ∀ e ∈ es, p.Allows e) {last : Expr} (hlast : p.Allows last) :
    Lays b (do
      let pieces ← es.mapM (inner.effect p.scope)
      return pieces.flatten ++ (← inner.into p.scope r last)) (p.Level b) := by
  have hpieces : Lays b (es.mapM (inner.effect p.scope)) fun codes c =>
      c.free = b.free ∧ ∀ code ∈ codes, p.Covers code c :=
    pieces_lays fun e he c hbc hf => h.effect (hb.level hbc hf) (hes e he)
  refine Keeps.bind hpieces fun pieces c hbc hp => ?_
  obtain ⟨hf, hcodes⟩ := hp
  refine Keeps.bind (h.into (hb.level hbc hf) hlast (hr.level hf)) fun code d hcd hd =>
    .pure (.refl d) ?_
  have hlevel : p.Level b pieces.flatten c := ⟨hf, Code.confined_flatten hcodes⟩
  exact hlevel.append hcd hd

theorem lowerInto (hb : p.Holds b) (he : p.Allows e) (hr : p.Takes b r) :
    Lays b (inner.lowerInto p.scope r e) (p.Level b) := by
  unfold Lowering.lowerInto
  cases e with
  | literal q location => exact loadQuotation_lays hb hr q
  | reference v location =>
    refine loadVariable_lays hb hr fun q hq => ?_
    subst hq
    exact he.locals q (.reads (.refl _))
  | assignment target value location =>
    refine Keeps.bind (h.assign hb he) fun code c hbc hc => ?_
    refine Keeps.bind (loadUnspecified_lays (hc.holds hb hbc) (hr.level hc.free))
      fun more d hcd hd => .pure (.refl d) (hc.append hcd hd)
  | branch => exact h.branch hb hr he
  | cond => exact h.cond hb hr he
  | operation => exact h.operation hb hr fun _ hmem => he.part hmem
  | call =>
    exact h.call hb hr (he.part List.mem_cons_self) fun _ hmem =>
      he.part (List.mem_cons_of_mem _ hmem)
  | lambda f =>
    dsimp only
    unfold Lowering.lambda
    split
    · exact loadIndex_lays .closure hb hr rfl (pushLiteral_lays b _)
    · exact .throw (.refl b) trivial
  | sequence items =>
    dsimp only
    split
    · exact loadUnspecified_lays hb hr
    · rename_i last hlast
      exact h.sequence hb hr (fun _ hmem => he.part (List.dropLast_subset items hmem))
        (he.part (List.mem_of_getLast? hlast))

theorem lowerEffect (hb : p.Holds b) (he : p.Allows e) :
    Lays b (inner.lowerEffect p.scope e) (p.Level b) := by
  unfold Lowering.lowerEffect
  split
  case h_4 items _ =>
    refine Keeps.bind (pieces_lays (p := p) fun e hmem c hbc hf =>
      h.effect (hb.level hbc hf) (he.part hmem)) fun pieces c _ hp => .pure (.refl c) ?_
    exact ⟨hp.1, Code.confined_flatten hp.2⟩
  case h_5 => exact h.assign hb he
  case h_6 =>
    have hcode : Lays b (do
        let scratch ← allocate
        inner.lowerInto p.scope scratch e) fun code c => p.Covers code c := by
      refine Keeps.bind (allocate_lays hb) fun scratch c _ hq => ?_
      obtain ⟨hscratch, hfree, hc, hmay⟩ := hq
      exact (h.lowerInto hc he ⟨by omega, hmay⟩).mono fun _ _ _ h => h.covers
    have hfreed := freed_lays (fun _ => do
      let scratch ← allocate
      inner.lowerInto p.scope scratch e) hcode
    simpa only [bind_assoc] using hfreed
  all_goals exact .pure (.refl b) ⟨rfl, Code.confined_nil⟩

end Disciplined

theorem within_disciplined (height : Nat) : (within height).Disciplined := by
  induction height with
  | zero => exact fun _ b _ _ _ _ _ => .throw (.refl b) trivial
  | succ height ih =>
    -- `ih` is for any permit, so each part is generated under that of the whole expression
    intro p b d e hb he hd
    cases d with
    | register r => exact ih.lowerInto hb he (hd r rfl)
    | nowhere => exact ih.lowerEffect hb he

end Lowering

end RegisterScheme
