import RegisterScheme.Proofs.Generation.Leaves

/-! Code for operands, arguments and tests, given code for the expressions that they are. -/

namespace RegisterScheme

namespace Expr

/-- Constants, variables and procedures, whose code makes no use of temporaries. -/
def isDirect : Expr → Bool
  | literal _ _ | reference _ _ | lambda _ _ => true
  | _ => false

end Expr

namespace Setting

variable {scope : Scope} {outer : List Scope} (σ : Setting scope outer)

/-- The value of an expression of the procedure. -/
abbrev evaluate (wanted : Bool) (e : Expr) : Evaluating Value :=
  Evaluating.evaluate σ.evaluateCall σ.here.address scope wanted e

abbrev values (es : List Expr) : Evaluating (List Value) :=
  Evaluating.values σ.evaluateCall σ.here.address scope es

end Setting

/-- Code for what is not too high does what evaluation does, and its generation fails only with
errors of the program. -/
structure Lowering.Correct (inner : Lowering) (height : Nat) : Prop where
  into : ∀ {scope : Scope} {outer : List Scope} {b : Builder} {e : Expr} {r : Register},
    scope.Valid → b.Valid scope outer → e.height ≤ height → e.Scoped (scope :: outer) →
    scope.registers ≤ r.val → r.val < b.free →
    Generates b (inner.into scope r e) fun code c =>
      c.Made b.free 0 code fun σ : Setting scope outer =>
        σ.Computes b.free r (σ.evaluate true e) code
  settle : ∀ {scope : Scope} {outer : List Scope} {b : Builder} {e : Expr} {r : Register},
    scope.Valid → b.Valid scope outer → e.height ≤ height → e.Scoped (scope :: outer) →
    e.isDirect → r.val < b.free →
    Generates b (inner.into scope r e) fun code c =>
      c.Made b.free 0 code fun σ : Setting scope outer => σ.Settles r (σ.evaluate true e) code
  effect : ∀ {scope : Scope} {outer : List Scope} {b : Builder} {e : Expr},
    scope.Valid → b.Valid scope outer → e.height ≤ height → e.Scoped (scope :: outer) →
    Generates b (inner.effect scope e) fun code c =>
      c.Made b.free 0 code fun σ : Setting scope outer =>
        σ.Effects b.free (σ.evaluate false e) code
  template : ∀ {f : Function} {t : Template}, f.height ≤ height → inner.function f = .ok t →
    f.template = .ok t
  error : ∀ {f : Function} {outer : List Scope} {e : Failure}, f.height ≤ height →
    f.Scoped outer → inner.function f = .error e → e.IsError

namespace Lowering

open Generating

variable {inner : Lowering} {n : Nat} {scope : Scope} {outer : List Scope} {b : Builder}
  {e : Expr} {r : Register} {location : Option Location}

/-- The value of an expression in the next temporary. -/
theorem toTemporary_made (h : inner.Correct n) (hs : scope.Valid) (hb : b.Valid scope outer)
    (he : e.height ≤ n) (hsc : e.Scoped (scope :: outer)) :
    Generates b (inner.toTemporary scope e) fun p c => p.2.val = b.free ∧
      c.Made (b.free + 1) 0 p.1 fun σ : Setting scope outer =>
        σ.Delivers b.free b.free (σ.evaluate true e) p.1 := by
  refine Keeps.bind (allocate_keeps hb) fun r c hbc hr => ?_
  obtain ⟨hr, hf, hv⟩ := hr
  refine Keeps.bind (h.into hs hv he hsc (hr ▸ hb.registers_le) (by omega)) fun code d hcd hm => ?_
  have hreg : scope.registers ≤ r.val + 1 := Nat.le_succ_of_le (hr ▸ hb.registers_le)
  refine Keeps.bind (freeFrom_keeps hm.valid hreg (by rw [hm.free]; omega)) fun _ d' hd hfree => ?_
  refine .pure (.refl d') ⟨hr, by rw [hfree.1, hr], hfree.2, (hm.works.grows hd).imp fun σ _ hc => ?_⟩
  rw [hf] at hc
  exact hc.temporary hr

/-- Where the value of an expression is: in the next temporary, or in place if it is a local. -/
structure Located (scope : Scope) (outer : List Scope) (b : Builder) (e : Expr) (q : Nat)
    (c : Builder) : Prop where
  valid : c.Valid scope outer
  free_le : b.free ≤ c.free
  lt_free : q < c.free
  lt_size : q < 256
  variable_or : q < scope.registers ∧ e.isSimple ∧ (∃ r l, e = .reference (.localVariable r) l) ∨
    b.free ≤ q

theorem toRegister_made (h : inner.Correct n) (hs : scope.Valid) (hb : b.Valid scope outer)
    (he : e.height ≤ n) (hsc : e.Scoped (scope :: outer)) :
    Generates b (inner.toRegister scope e) fun p c => Located scope outer b e p.2.val c ∧
      p.1.Works 0 (c.room scope) fun σ : Setting scope outer =>
        σ.Delivers b.free p.2.val (σ.evaluate true e) p.1 := by
  unfold toRegister
  split
  · rename_i r l
    obtain ⟨name, s, hscope, hholds⟩ : ∃ name s, (scope :: outer).head? = some s ∧
        s.Holds name r := by
      cases hsc with
      | @reference name _ _ _ hnames => exact ⟨name, hnames⟩
    obtain rfl := Option.some.inj hscope
    have hlt := hs.holds_lt hholds
    refine .pure (.refl b) ⟨⟨hb, Nat.le_refl _, Nat.lt_of_lt_of_le hlt hb.registers_le, r.isLt,
      .inl ⟨hlt, rfl, r, l, rfl⟩⟩, Code.fits_nil, fun σ _ w s hw => ?_⟩
    obtain ⟨e, he, -⟩ := hw.environment
    refine .of_ok (a := e.values r) (v := w) (t := s) ?_ rfl (.refl hw.agrees)
      ⟨rfl, hw.holds_variable he hlt, hw.agrees.valid.values _ e r he⟩
    rw [Setting.evaluate, Evaluating.evaluate, if_pos rfl]
    exact Evaluating.read_register_eq he r
  · refine (toTemporary_made h hs hb he hsc).mono fun p c _ hp => ?_
    obtain ⟨hr, hm⟩ := hp
    refine ⟨⟨hm.valid, by rw [hm.free]; omega, by rw [hm.free]; omega, p.2.isLt,
      .inr (Nat.le_of_eq hr.symm)⟩, hr ▸ hm.works⟩

/-- What is known of an operand: where its value is, and that it can be read. -/
structure OperandMade (scope : Scope) (outer : List Scope) (b : Builder) (e : Expr)
    (o : Operand) (c : Builder) : Prop where
  valid : c.Valid scope outer
  free_le : b.free ≤ c.free
  register : ∀ q, o = .register q → Located scope outer b e q c
  holds : (c.room scope).Holds o.half

/-- A constant of the pool as an operand. -/
theorem constant_offers {first index : Nat} {p q : Quotation} {o : Operand}
    (ho : Operand.constant? index = some o) (hp : b.literals[index]? = some (.quotation p))
    (hpq : Value.ofQuotation p = .ofQuotation q) :
    Code.Works 0 (b.room scope) [] fun σ : Setting scope outer =>
      σ.Offers first o (pure (.ofQuotation q)) [] := by
  obtain ⟨rfl, hi⟩ := Operand.constant?_eq_some ho
  refine ⟨Code.fits_nil, fun σ hσ w s hw => .nil hw.agrees ⟨rfl, ⟨hi, p, ?_, hpq.symm⟩, ?_⟩⟩
  · exact Builder.literal_of_within hσ hp
  · exact Value.builtFrom_ofQuotation q

theorem constant_holds {index : Nat} {p : Quotation} {o : Operand}
    (ho : Operand.constant? index = some o) (hp : b.literals[index]? = some (.quotation p)) :
    (b.room scope).Holds o.half := by
  obtain ⟨rfl, hi⟩ := Operand.constant?_eq_some ho
  exact Room.holds_constant hi (.inl ⟨p, Array.getElem?_toList.trans hp⟩)

/-- The constant that an expression is, as an operand. -/
def constantOperand (e : Expr) : Generating (Option Operand) :=
  match e with
  | .literal q _ => do return Operand.constant? (← literal q)
  | _ => return none

theorem toOperand_eq (inner : Lowering) (scope : Scope) (e : Expr) :
    inner.toOperand scope e = do
      match ← constantOperand e with
      | some operand => return ([], operand)
      | none =>
        let (code, r) ← inner.toRegister scope e
        return (code, .register r) := by
  unfold toOperand constantOperand
  cases e
  case literal q location =>
    dsimp only
    rw [bind_map_left, bind_assoc]
    exact bind_congr fun index => (pure_bind _ _).symm
  all_goals rfl

/-- A register with the value of an expression offers that value. -/
theorem registerOperand_made (h : inner.Correct n) (hs : scope.Valid) {c : Builder}
    (hc : c.Valid scope outer) (hf : c.free = b.free) (he : e.height ≤ n)
    (hsc : e.Scoped (scope :: outer)) :
    Generates c (do
        let (code, r) ← inner.toRegister scope e
        return (code, Operand.register r)) fun p d => OperandMade scope outer b e p.2 d ∧
      p.1.Works 0 (d.room scope) fun σ : Setting scope outer =>
        σ.Offers b.free p.2 (σ.evaluate true e) p.1 := by
  refine Keeps.bind (toRegister_made h hs hc he hsc) fun p d hcd hp => ?_
  obtain ⟨hl, hw⟩ := hp
  refine .pure (.refl d) ⟨⟨hl.valid, hf ▸ hl.free_le, ?_, ?_⟩, hw.imp fun σ _ hd => ?_⟩
  · intro q hq
    cases hq
    exact ⟨hl.valid, hf ▸ hl.free_le, hl.lt_free, hl.lt_size, hf ▸ hl.variable_or⟩
  · exact Room.holds_register (Nat.lt_of_lt_of_le hl.lt_free hl.valid.free_le) hl.lt_size
  · exact hf ▸ hd.offers hl.lt_size

theorem toOperand_made (h : inner.Correct n) (hs : scope.Valid) (hb : b.Valid scope outer)
    (he : e.height ≤ n) (hsc : e.Scoped (scope :: outer)) :
    Generates b (inner.toOperand scope e) fun p c => OperandMade scope outer b e p.2 c ∧
      p.1.Works 0 (c.room scope) fun σ : Setting scope outer =>
        σ.Offers b.free p.2 (σ.evaluate true e) p.1 := by
  rw [toOperand_eq]
  refine Keeps.bind (P := fun (k : Option Operand) (c : Builder) =>
    c.Valid scope outer ∧ c.free = b.free ∧ ∀ o, k = some o →
      (c.room scope).Holds o.half ∧ (∀ q, o ≠ .register q) ∧
        Code.Works 0 (c.room scope) [] fun σ : Setting scope outer =>
          σ.Offers b.free o (σ.evaluate true e) []) ?_ fun k c hbc hk => ?_
  · unfold constantOperand
    split
    · rename_i q l
      refine Keeps.bind (literal_keeps hb q) fun index c hc hi => .pure (.refl c) ?_
      obtain ⟨hf, hv, p, hp, hd, hpq⟩ := hi
      refine ⟨hv, hf, fun o ho => ⟨constant_holds ho hp, fun q hq => ?_, ?_⟩⟩
      · rw [(Operand.constant?_eq_some ho).1] at hq
        cases hq
      · have hoffers : Code.Works 0 (c.room scope) [] fun σ : Setting scope outer =>
            σ.Offers b.free o (pure (.ofQuotation q)) [] :=
          constant_offers ho hp (ofQuotation_congr hd hpq)
        refine hoffers.imp fun σ _ h => ?_
        rwa [Setting.evaluate, Evaluating.evaluate, if_pos rfl]
    · exact .pure (.refl b) ⟨hb, rfl, by simp⟩
  · obtain ⟨hv, hf, hk⟩ := hk
    cases k with
    | none => exact registerOperand_made h hs hv hf he hsc
    | some o =>
      obtain ⟨hh, hne, hw⟩ := hk o rfl
      exact .pure (.refl c) ⟨⟨hv, Nat.le_of_eq hf.symm, fun q hq => absurd hq (hne q), hh⟩, hw⟩

/-- Operands that can all be read, each in a register of its own or that of a variable. -/
structure OperandsMade (scope : Scope) (outer : List Scope) (b : Builder) (os : List Operand)
    (c : Builder) : Prop where
  valid : c.Valid scope outer
  free_le : b.free ≤ c.free
  registers : ∀ o ∈ os, ∀ q, o = .register q → q < scope.registers ∨ b.free ≤ q
  holds : ∀ o ∈ os, (c.room scope).Holds o.half

/-- An operand with others behind it. -/
def nextOperand (inner : Lowering) (scope : Scope) (e : Expr) (es : List Expr) :
    Generating (Code × Operand) :=
  match e with
  | .reference (.localVariable _) _ =>
    if es.all Expr.isSimple then inner.toOperand scope e
    else do
      let (code, r) ← inner.toTemporary scope e
      pure (code, .register r)
  | e => inner.toOperand scope e

theorem operands_cons (inner : Lowering) (scope : Scope) (e : Expr) (es : List Expr) :
    inner.operands scope (e :: es) = do
      let (code, operand) ← inner.nextOperand scope e es
      let (more, rest) ← inner.operands scope es
      return (code ++ more, operand :: rest) := by
  cases e
  case reference v location =>
    cases v
    case localVariable r =>
      by_cases hall : es.all Expr.isSimple
      · simp only [operands, nextOperand, hall, if_true]
      · simp only [operands, nextOperand, hall, if_false, bind_assoc, pure_bind,
          Bool.false_eq_true]
    all_goals rfl
  all_goals rfl

/-- The operand is in a register of its own unless the others only read. -/
theorem nextOperand_made (h : inner.Correct n) (hs : scope.Valid) (hb : b.Valid scope outer)
    (he : e.height ≤ n) (hsc : e.Scoped (scope :: outer)) {es : List Expr} :
    Generates b (inner.nextOperand scope e es) fun p c => OperandMade scope outer b e p.2 c ∧
      ((∀ e ∈ es, e.isSimple) ∨ ∀ q, p.2 = .register q → scope.registers ≤ q) ∧
      p.1.Works 0 (c.room scope) fun σ : Setting scope outer =>
        σ.Offers b.free p.2 (σ.evaluate true e) p.1 := by
  unfold nextOperand
  split
  · rename_i r l
    split
    · rename_i hall
      refine (toOperand_made h hs hb he hsc).mono fun p c _ hp => ⟨hp.1, .inl ?_, hp.2⟩
      simpa using hall
    · refine Keeps.bind (toTemporary_made h hs hb he hsc) fun p c hbc hp => .pure (.refl c) ?_
      obtain ⟨hr, hm⟩ := hp
      have hfree := hm.free
      refine ⟨⟨hm.valid, by omega, fun q hq => ?_, ?_⟩, .inr fun q hq => ?_,
        hm.works.imp fun σ _ hd => hr ▸ hd.offers (hr ▸ p.2.isLt)⟩
      · cases hq
        exact ⟨hm.valid, by omega, by omega, p.2.isLt, .inr (Nat.le_of_eq hr.symm)⟩
      · refine Room.holds_register (Nat.lt_of_lt_of_le ?_ hm.valid.free_le) p.2.isLt
        omega
      · cases hq
        exact hr ▸ hb.registers_le
  · rename_i hne
    refine (toOperand_made h hs hb he hsc).mono fun p c _ hp => ⟨hp.1, .inr fun q hq => ?_, hp.2⟩
    obtain ⟨-, -, r, l, rfl⟩ | hq := (hp.1.register q hq).variable_or
    · exact absurd rfl (hne r l)
    · exact Nat.le_trans hb.registers_le hq

theorem operands_made (h : inner.Correct n) (hs : scope.Valid) {es : List Expr}
    (hes : ∀ e ∈ es, e.height ≤ n ∧ e.Scoped (scope :: outer)) (hb : b.Valid scope outer) :
    Generates b (inner.operands scope es) fun p c => OperandsMade scope outer b p.2 c ∧
      p.2.length = es.length ∧ p.1.Works 0 (c.room scope) fun σ : Setting scope outer =>
        σ.Gathers b.free p.2 (σ.values es) p.1 := by
  induction es generalizing b with
  | nil =>
    refine .pure (.refl b) ⟨⟨hb, Nat.le_refl _, by simp, by simp⟩, rfl, Code.fits_nil,
      fun σ _ => ?_⟩
    rw [Setting.values, Evaluating.values]
    exact Setting.gathers_nil
  | cons e es ih =>
    obtain ⟨⟨he, hsc⟩, hes⟩ := List.forall_mem_cons.mp hes
    rw [operands_cons]
    refine Keeps.bind (nextOperand_made h hs hb he hsc) fun p c hbc hp => ?_
    obtain ⟨ho, hlast, hwp⟩ := hp
    refine Keeps.bind (ih hes ho.valid) fun ps d hcd hps => ?_
    obtain ⟨hos, hlen, hws⟩ := hps
    refine .pure (.refl d) ⟨⟨hos.valid, Nat.le_trans ho.free_le hos.free_le, ?_, ?_⟩, ?_, ?_⟩
    · intro o hmem q hq
      obtain rfl | hmem := List.mem_cons.mp hmem
      · exact ((ho.register q hq).variable_or).imp (fun h => h.1) id
      · exact (hos.registers o hmem q hq).imp id (Nat.le_trans ho.free_le)
    · intro o hmem
      obtain rfl | hmem := List.mem_cons.mp hmem
      · exact (hcd.within scope).holds ho.holds
      · exact hos.holds o hmem
    · rw [List.length_cons, List.length_cons, hlen]
    · refine (hwp.grows hcd).append hws (Nat.zero_le _) fun σ _ hx hxs => ?_
      have hgather := hx.gathers hxs ho.free_le
        (fun q hq _ => (ho.register q hq).lt_free)
        (hlast.imp (fun hsimple => Evaluating.reading_values hsimple) id)
      rwa [Setting.values, Evaluating.values]

/-- Values in a row of temporaries. -/
theorem arguments_made (h : inner.Correct n) (hs : scope.Valid) {es : List Expr}
    (hes : ∀ e ∈ es, e.height ≤ n ∧ e.Scoped (scope :: outer)) (hb : b.Valid scope outer) :
    Generates b (inner.arguments scope es) fun code c =>
      c.Made (b.free + es.length) 0 code fun σ : Setting scope outer =>
        ∀ w s, σ.Ready w s → σ.Runs (· < b.free) w s (σ.values es) code 0 fun vs k w' s' =>
          k = 0 ∧ vs.length = es.length ∧ (∀ j v, vs[j]? = some v → σ.Holds s' (b.free + j) v) ∧
            ∀ v ∈ vs, σ.Built w' v := by
  induction es generalizing b with
  | nil =>
    refine .pure (.refl b) ⟨rfl, hb, Code.fits_nil, fun σ _ w s hw => ?_⟩
    rw [Setting.values, Evaluating.values]
    exact .nil hw.agrees ⟨rfl, rfl, by simp, by simp⟩
  | cons e es ih =>
    obtain ⟨⟨he, hsc⟩, hes⟩ := List.forall_mem_cons.mp hes
    refine Keeps.bind (toTemporary_made h hs hb he hsc) fun p c hbc hp => ?_
    obtain ⟨-, hm⟩ := hp
    refine Keeps.bind (ih hes hm.valid) fun more d hcd hmore => ?_
    refine .pure (.refl d) ⟨?_, hmore.valid, ?_⟩
    · rw [hmore.free, hm.free, List.length_cons]
      omega
    · refine (hm.works.grows hcd).append hmore.works (Nat.zero_le _) fun σ _ hx hxs w s hw => ?_
      rw [Setting.values, Evaluating.values]
      refine (hx w s hw).append fun v k w' s' hmoves hv => ?_
      obtain ⟨rfl, hh, hbuilt⟩ := hv
      have hw' := hw.moves hmoves
      rw [hm.free] at hxs
      refine ((hxs w' s' hw').map (v :: ·) fun vs k w'' s'' hmoves' hvs => ?_).mono
        (fun i _ hi => Nat.lt_succ_of_lt hi)
        (R := fun vs k w' s' => k = 0 ∧ vs.length = (e :: es).length ∧
          (∀ j v, vs[j]? = some v → σ.Holds s' (b.free + j) v) ∧ ∀ v ∈ vs, σ.Built w' v)
        fun _ _ _ _ _ hq => hq
      obtain ⟨rfl, hlen, hholds, hbs⟩ := hvs
      refine ⟨rfl, congrArg (· + 1) hlen, fun j u hu => ?_,
        List.forall_mem_cons.mpr ⟨hbuilt.grows hmoves'.grows, hbs⟩⟩
      cases j with
      | zero =>
        cases hu
        exact hh.moves hw' hmoves' hb.registers_le (Nat.lt_succ_self _)
      | succ j =>
        have hj := hholds j u hu
        rwa [Nat.add_assoc, Nat.add_comm 1] at hj

/-- Code that leaves a value in a register for an instruction that tests it. -/
theorem tested_made (h : inner.Correct n) (hs : scope.Valid) (hb : b.Valid scope outer)
    (he : e.height ≤ n) (hsc : e.Scoped (scope :: outer))
    (test : Register → Except Overrun Instruction) :
    Generates b (inner.tested scope e test location) fun code c => c.free = b.free ∧
      c.Valid scope outer ∧ ∃ q i, ∃ line : Code, code = line ++ [⟨i, location⟩] ∧ test q = .ok i ∧
        q.val < c.used ∧ line.Works 0 (c.room scope) fun σ : Setting scope outer =>
          σ.Delivers b.free q (σ.evaluate true e) line := by
  refine Keeps.bind (P := fun a c => a = b ∧ c = b) ⟨.refl b, rfl, rfl⟩ ?_
  rintro _ b _ ⟨rfl, rfl⟩
  refine Keeps.bind (toRegister_made h hs hb he hsc) fun p c hbc hp => ?_
  obtain ⟨hl, hw⟩ := hp
  refine Keeps.bind (emit_keeps location _) fun line c' hcc' hline => ?_
  obtain ⟨rfl, i, hi, rfl⟩ := hline
  refine Keeps.bind (freeFrom_keeps hl.valid hb.registers_le hl.free_le) fun _ d hcd hd => ?_
  refine .pure (.refl d) ⟨hd.1, hd.2, p.2, i, p.1, rfl, hi, ?_, hw.grows hcd⟩
  exact Nat.lt_of_lt_of_le (Nat.lt_of_lt_of_le hl.lt_free hl.valid.free_le) hcd.used

/-- A test that skips the next line if it holds. -/
theorem test_made (h : inner.Correct n) (hs : scope.Valid) (hb : b.Valid scope outer)
    (he : e.height ≤ n) (hsc : e.Scoped (scope :: outer)) :
    Generates b (inner.tested scope e (Instruction.abc .test · 0 0) location) fun code c =>
      c.Made b.free 1 code fun σ : Setting scope outer =>
        σ.Tests b.free (σ.evaluate true e) code := by
  refine (tested_made h hs hb he hsc _).mono fun code c _ hc => ?_
  obtain ⟨hf, hv, q, i, line, rfl, hi, hq, hw⟩ := hc
  have hi := Instruction.abc_eq_ok hi
  refine ⟨hf, hv, hw.append (Code.Works.mk (A := fun _ => True) ?_ fun _ _ => trivial)
    (Nat.zero_le _) fun σ _ hd _ => hd.tests hi⟩
  refine Code.fits_line (Instruction.fits_of_registers (by simp [hi.1]) ?_) ?_
  · simpa [Instruction.registers, hi.1, hi.2.1] using hq
  · simp [Instruction.reach, hi.1]

/-- A test that keeps the value if it is of the given truth, and else skips the next line. -/
theorem testSet_made (h : inner.Correct n) (hs : scope.Valid) (hb : b.Valid scope outer)
    (he : e.height ≤ n) (hsc : e.Scoped (scope :: outer)) (ht : scope.registers ≤ r.val)
    (hr : r.val < b.free) (stop : Bool) :
    Generates b (inner.tested scope e (Instruction.abc .testSet r · stop.toNat) location)
      fun code c => c.Made b.free 1 code fun σ : Setting scope outer =>
        σ.Attempts b.free r (do
          let v ← σ.evaluate true e
          return if v.isTruthy == stop then some v else none) code := by
  refine (tested_made h hs hb he hsc _).mono fun code c hbc hc => ?_
  obtain ⟨hf, hv, q, i, line, rfl, hi, hq, hw⟩ := hc
  have hi := Instruction.abc_eq_ok hi
  have hsize : r.val < c.used := Nat.lt_of_lt_of_le (Nat.lt_of_lt_of_le hr hb.free_le) hbc.used
  refine ⟨hf, hv, hw.append (Code.Works.mk (A := fun _ => True) ?_ fun _ _ => trivial)
    (Nat.zero_le _) fun σ hσ hd _ =>
      hd.attempts hi ht (Nat.lt_of_lt_of_le hsize hσ.frameSize)⟩
  refine Code.fits_line (Instruction.fits_of_registers (by simp [hi.1]) ?_) ?_
  · simp [Instruction.registers, hi.1, hi.2.1, hi.2.2.1, hq, hsize]
  · simp [Instruction.reach, hi.1]

end Lowering

end RegisterScheme
