import RegisterScheme.Proofs.Generation.Calls
import RegisterScheme.Proofs.Template.Guards
import RegisterScheme.Proofs.Template.Shape

/-! Generated code joins whatever comes next: the pieces that an expression is made of are put
together with the jumps that their tests need. -/

namespace RegisterScheme

/-- An instruction that goes on with the next line, whatever that is. -/
def Opcode.isPlain : Opcode → Bool
  | .jump | .loadBoolean | .return => false
  | op => !op.isTest

theorem Instruction.joins_of_isPlain {i : Instruction} {behind : Code} (h : i.opcode.isPlain) :
    i.Joins behind := by
  refine joins_of_plain ?_ ?_ ?_
  · unfold Opcode.isPlain at h
    split at h
    · cases h
    · cases h
    · cases h
    · simpa using h
  · unfold leap?
    split
    · rename_i hop
      rw [hop] at h
      cases h
    · rename_i hop
      rw [hop] at h
      cases h
    · rfl
  · intro hop
    rw [hop] at h
    cases h

/-- Comparisons test, the other opcodes of a plan go on. -/
theorem Operator.plan_sorted (op : Operator) :
    op.plan.Sorted (·.isPlain) (·.isPlain) (·.isTest) := by
  cases op <;> simp [plan, Plan.Sorted, Opcode.isPlain, Opcode.isTest]

namespace Generating

variable {α β : Type} {location : Option Location}

/-- What is generated has a property. -/
abbrev Makes (act : Generating α) (Q : α → Prop) : Prop := Ends (fun _ : Failure => True) act Q

theorem makes_any (act : Generating α) : Makes act fun _ => True := by
  constructor
  intro b
  cases act b <;> trivial

/-- What is generated in the end does not depend on what came before. -/
theorem makes_then {act : Generating α} {f : α → Generating β} {Q : β → Prop}
    (h : ∀ a, Makes (f a) Q) : Makes (act >>= f) Q :=
  (makes_any act).bind fun a _ => h a

/-- Code after which the temporaries are freed that it has taken. -/
theorem makes_freed {f : Nat → Generating Code} {Q : Code → Prop}
    (h : ∀ mark, Makes (f mark) Q) : Makes (do
      let mark := (← get).free
      let code ← f mark
      freeFrom scope mark
      return code) Q :=
  makes_then fun b => (h b.free).bind fun _ hcode => makes_then fun _ => .pure hcode

/-- What is generated from every builder. -/
theorem makes_of_keeps {act : Generating α} {Q : α → Prop}
    (h : ∀ b, Generates b act fun a _ => Q a) : Makes act Q := by
  constructor
  intro b
  cases hb : act b with
  | ok a c => exact ((h b).of_ok hb).2
  | error e c => trivial

theorem makes_emit {i : Except Overrun Instruction} {Q : Code → Prop}
    (h : ∀ i', i = .ok i' → Q [⟨i', location⟩]) : Makes (emit location i) Q :=
  makes_of_keeps fun b => (emit_keeps location i).mono fun code _ _ hcode => by
    obtain ⟨-, i', hi, rfl⟩ := hcode
    exact h i' hi

theorem makes_plain {i : Except Overrun Instruction} (h : ∀ i', i = .ok i' → i'.opcode.isPlain) :
    Makes (emit location i) Code.Whole :=
  makes_emit fun i' hi _ _ => Code.joins_singleton.mpr (Instruction.joins_of_isPlain (h i' hi))

theorem makes_test {i : Except Overrun Instruction} (h : ∀ i', i = .ok i' → i'.opcode.isTest) :
    Makes (emit location i) Code.Exiting :=
  makes_emit fun i' hi _ _ hjump _ =>
    Code.joins_singleton.mpr (Instruction.joins_of_test (h i' hi) hjump)

theorem makes_jump (lines : Nat) : Makes (jump location lines) (Code.Jump lines) :=
  makes_of_keeps fun _ => (jump_keeps lines).mono fun _ _ _ h => h.2

/-- Pieces that end in tests of their own, put together. -/
theorem makes_joined {pieces : List Code} {last : Code} (hp : ∀ piece ∈ pieces, piece.Exiting)
    (hl : ∀ line, last.getLast? = some line → line.instruction.opcode.isTest = false) :
    Makes (joined location pieces last) fun code =>
      ∀ next, next ≠ [] → last.Joins next → code.Joins next :=
  makes_of_keeps fun _ => (joined_keeps last pieces).mono fun _ _ _ h _ hne hlast =>
    (h.2.joins hp hl hne hlast).1

theorem makes_joined_whole {pieces : List Code} {last : Code}
    (hp : ∀ piece ∈ pieces, piece.Exiting) (hl : last.Whole) :
    Makes (joined location pieces last) Code.Whole :=
  (makes_joined hp fun _ => hl.isTest_getLast).mono fun _ h next hne => h next hne (hl next hne)

end Generating

namespace Lowering

open Generating

/-- The code of the parts joins whatever comes next. -/
def Whole (inner : Lowering) : Prop := ∀ scope d e, Makes (inner.expr scope d e) Code.Whole

theorem isPlain_of_ab {op : Opcode} {a : Register} {b : Nat} (ho : op.isPlain) (i : Instruction)
    (h : Instruction.ab op a b = .ok i) : i.opcode.isPlain := by
  rwa [(Instruction.ab_eq_ok h).1]

theorem isPlain_of_abc {op : Opcode} {a : Register} {b c : Nat} (ho : op.isPlain)
    (i : Instruction) (h : Instruction.abc op a b c = .ok i) : i.opcode.isPlain := by
  rwa [(Instruction.abc_eq_ok h).1]

theorem isPlain_of_abx {op : Opcode} {a : Register} {field : Nat} (ho : op.isPlain)
    (i : Instruction) (h : Instruction.abx op a field = .ok i) : i.opcode.isPlain := by
  rwa [(Instruction.abx_eq_ok h).1]

variable {inner : Lowering} {scope : Scope} {r : Register} {location : Option Location}

theorem loadNil_whole : Makes (loadNil r location) Code.Whole := makes_plain (isPlain_of_ab rfl)

theorem loadConstant_whole (index : Nat) :
    Makes (emit location (Instruction.abx .loadConstant r index)) Code.Whole :=
  makes_plain (isPlain_of_abx rfl)

theorem loadBoolean_makes (v : Bool) (skip : Nat) :
    Makes (loadBoolean r v skip location) fun code => ∃ line, code = [line] ∧
      line.instruction.opcode = .loadBoolean ∧ line.instruction.c = skip :=
  makes_emit fun i hi => ⟨⟨i, location⟩, rfl, (Instruction.abc_eq_ok hi).1,
    (Instruction.abc_eq_ok hi).2.2.2⟩

theorem joins_of_loadBoolean {line : Line} {next : Code}
    (ho : line.instruction.opcode = .loadBoolean) (hc : line.instruction.c = 0) :
    Code.Joins [line] next :=
  Code.joins_singleton.mpr (Instruction.joins_of_plain (by simp [ho, Opcode.isTest])
    (by simp [Instruction.leap?, ho, hc]) (by simp [ho]))

theorem loadBoolean_whole (v : Bool) : Makes (loadBoolean r v 0 location) Code.Whole := by
  refine (loadBoolean_makes v 0).mono fun code hcode next _ => ?_
  obtain ⟨line, rfl, ho, hc⟩ := hcode
  exact joins_of_loadBoolean ho hc

theorem loadQuotation_whole (q : Quotation) : Makes (loadQuotation r q location) Code.Whole := by
  unfold loadQuotation
  split
  · exact loadNil_whole
  · exact loadBoolean_whole _
  · exact makes_then fun index => loadConstant_whole index

theorem loadUnspecified_whole : Makes (loadUnspecified r location) Code.Whole :=
  makes_then fun index => loadConstant_whole index

theorem loadVariable_whole (v : VariableRef) :
    Makes (loadVariable scope r v location) Code.Whole := by
  unfold loadVariable
  split
  · split
    · exact .pure Code.whole_nil
    · exact makes_plain (isPlain_of_ab rfl)
  · exact makes_plain fun i hi => isPlain_of_ab rfl i (slotOperand_bind_eq_ok hi)
  · exact makes_then fun index => makes_plain (isPlain_of_abx rfl)

theorem atomOperand_whole (a : Atom) :
    Makes (atomOperand a location) fun p => p.1.Whole := by
  refine makes_then fun index => ?_
  split
  · exact .pure Code.whole_nil
  · exact makes_then fun q => (loadConstant_whole index).bind fun code hcode => .pure hcode

/-- Comparisons jump to the boolean at the end, which the boolean in front of it skips. -/
theorem chain_whole {opcode : Opcode} (ho : opcode.isTest) (swap : Bool)
    (operands : List Operand) : Makes (chain r opcode swap operands location) Code.Whole := by
  refine Ends.bind (P := fun pieces => ∀ piece ∈ pieces, Code.Exiting piece) ?_ fun pieces hp => ?_
  · refine Ends.mapM fun p _ => makes_test fun i hi => ?_
    rwa [(Instruction.abc_eq_ok hi).1]
  refine (loadBoolean_makes true 1).bind fun last hlast => ?_
  obtain ⟨skipping, rfl, hop, hc⟩ := hlast
  have hskipping : skipping.instruction.opcode.isTest = false := by simp [hop, Opcode.isTest]
  refine (makes_joined hp fun l hl => ?_).bind fun code hcode => ?_
  · obtain rfl := Option.some.inj hl
    exact hskipping
  refine (loadBoolean_makes false 0).bind fun more hmore => .pure fun next hne => ?_
  obtain ⟨line, rfl, hop', hc'⟩ := hmore
  refine Code.joins_append.mpr ⟨hcode _ (List.cons_ne_nil _ _) ?_, joins_of_loadBoolean hop' hc'⟩
  have hlength : 1 < ([line] ++ next).length := by
    have hpos := List.length_pos_iff.mpr hne
    rw [List.length_append, List.length_singleton]
    omega
  refine Code.joins_singleton.mpr (Instruction.joins_of_leap hskipping (by simp [hop])
    (by simp [Instruction.leap?, hop, hc]) hlength fun above _ habove => ?_)
  obtain rfl := Option.some.inj habove
  simp [hop', Opcode.isTest]

namespace Whole

variable (h : inner.Whole)

include h

theorem into (e : Expr) : Makes (inner.into scope r e) Code.Whole := h _ _ _

theorem effect (e : Expr) : Makes (inner.effect scope e) Code.Whole := h _ _ _

theorem toTemporary (e : Expr) : Makes (inner.toTemporary scope e) fun p => p.1.Whole :=
  makes_then fun _ => (h.into e).bind fun _ hcode => makes_then fun _ => .pure hcode

theorem toRegister (e : Expr) : Makes (inner.toRegister scope e) fun p => p.1.Whole := by
  unfold Lowering.toRegister
  split
  · exact .pure Code.whole_nil
  · exact h.toTemporary _

theorem toOperand (e : Expr) : Makes (inner.toOperand scope e) fun p => p.1.Whole := by
  rw [toOperand_eq]
  refine makes_then fun constant => ?_
  cases constant with
  | some operand => exact .pure Code.whole_nil
  | none => exact (h.toRegister e).bind fun _ hcode => .pure hcode

theorem operands (es : List Expr) : Makes (inner.operands scope es) fun p => p.1.Whole := by
  induction es with
  | nil => exact .pure Code.whole_nil
  | cons e es ih =>
    rw [operands_cons]
    refine Ends.bind (P := fun p : Code × Operand => p.1.Whole) ?_ fun p hp =>
      ih.bind fun more hmore => .pure (hp.append hmore)
    unfold nextOperand
    split
    · split
      · exact h.toOperand _
      · exact (h.toTemporary _).bind fun _ hcode => .pure hcode
    · exact h.toOperand _

theorem assign (target : VariableRef) (value : Expr) :
    Makes (inner.assign scope target value location) Code.Whole := by
  rw [assign_eq]
  refine makes_freed (f := fun _ => inner.assignCode scope target value location) fun _ => ?_
  unfold assignCode
  split
  · split
    · exact h.into _
    · exact makes_then fun scratch => (h.into _).bind fun code hcode =>
        (makes_plain (isPlain_of_ab rfl)).bind fun move hmove => .pure (hcode.append hmove)
  · refine (h.toRegister _).bind fun p hcode => ?_
    refine (makes_plain fun i hi => ?_).bind fun store hstore => .pure (hcode.append hstore)
    exact isPlain_of_ab rfl i (slotOperand_bind_eq_ok hi)
  · refine (h.toRegister _).bind fun p hcode => ?_
    have hstore (slot : Nat) : Makes (storeGlobal scope slot location p.2) Code.Whole :=
      makes_then fun _ => makes_plain (isPlain_of_abx rfl)
    exact (hstore _).bind fun store hstore => .pure (hcode.append hstore)

/-- A test ends in an instruction that has its jump yet to come. -/
theorem tested (e : Expr) {test : Register → Except Overrun Instruction}
    (ht : ∀ r i, test r = .ok i → i.opcode.isTest) :
    Makes (inner.tested scope e test location) Code.Exiting := by
  refine makes_then fun mark => (h.toRegister e).bind fun p hcode => ?_
  refine (makes_test (ht p.2)).bind fun line hline => makes_then fun _ => .pure ?_
  intro exit next hjump hne
  exact Code.joins_append.mpr ⟨hcode _ (by simp), hline exit next hjump hne⟩

theorem test (e : Expr) :
    Makes (inner.tested scope e (Instruction.abc .test · 0 0) location) Code.Exiting :=
  h.tested e fun r i hi => by rw [(Instruction.abc_eq_ok hi).1]; rfl

theorem testSet (e : Expr) (stop : Nat) :
    Makes (inner.tested scope e (Instruction.abc .testSet r · stop) location) Code.Exiting :=
  h.tested e fun r i hi => by rw [(Instruction.abc_eq_ok hi).1]; rfl

theorem alternative (e : Option Expr) :
    Makes (inner.alternative scope r e location) Code.Whole := by
  cases e with
  | some e => exact h.into e
  | none => exact loadNil_whole

theorem branch (test consequent : Expr) (otherwise : Option Expr) :
    Makes (inner.branch scope r test consequent otherwise location) Code.Whole := by
  refine (h.test test).bind fun test ht => (h.into consequent).bind fun consequent hc => ?_
  refine (makes_jump _).bind fun toElse hj => (h.alternative otherwise).bind fun other ho => ?_
  exact (makes_jump _).bind fun exit he => .pure (ht.branch hj hc he ho)

theorem clause (c : Clause Expr) : Makes (inner.clause scope r c location) Code.Exiting := by
  unfold Lowering.clause
  split
  · exact h.testSet _ 1
  · refine (h.test _).bind fun test ht => (h.into _).bind fun body hb => ?_
    exact (makes_jump _).bind fun toNext hj => .pure (ht.clause hj hb)

theorem cond (clauses : List (Clause Expr)) (otherwise : Option Expr) :
    Makes (inner.cond scope r clauses otherwise location) Code.Whole := by
  have hpieces : Makes (clauses.mapM fun c => inner.clause scope r c location) fun pieces =>
      ∀ piece ∈ pieces, Code.Exiting piece := Ends.mapM fun c _ => h.clause c
  exact hpieces.bind fun pieces hp => (h.alternative otherwise).bind fun last hl =>
    makes_joined_whole hp hl

theorem junction (stop : Bool) (es : List Expr) :
    Makes (inner.junction scope r stop es location) Code.Whole := by
  unfold Lowering.junction
  split
  · exact loadBoolean_whole _
  · have hpieces : Makes (es.dropLast.mapM fun e =>
        inner.tested scope e (Instruction.abc .testSet r · stop.toNat) location) fun pieces =>
        ∀ piece ∈ pieces, Code.Exiting piece := Ends.mapM fun e _ => h.testSet e _
    exact hpieces.bind fun pieces hp => (h.into _).bind fun last hl => makes_joined_whole hp hl

theorem folded {opcode : Opcode} (ho : opcode.isPlain) (es : List Expr) :
    Makes (inner.folded scope r opcode es location) Code.Whole := by
  refine (h.operands es).bind fun p hcode => ?_
  split
  · rename_i code x y rest
    have hmore : Makes (rest.mapM fun z => emit location (Instruction.abc opcode r r z.half))
        fun lines => ∀ line ∈ lines, Code.Whole line :=
      Ends.mapM fun z _ => makes_plain (isPlain_of_abc ho)
    refine (makes_plain (isPlain_of_abc ho)).bind fun first hfirst => hmore.bind fun more hm => ?_
    exact .pure ((Code.Whole.append hcode hfirst).append (Code.whole_flatten hm))
  · exact .throw trivial

theorem afterAtom {opcode : Opcode} (ho : opcode.isPlain) (a : Atom) (e : Expr) :
    Makes (inner.afterAtom scope r opcode a e location) Code.Whole := by
  refine (atomOperand_whole a).bind fun p hload => (h.toOperand e).bind fun q hcode => ?_
  exact (makes_plain (isPlain_of_abc ho)).bind fun line hline =>
    .pure ((hload.append hcode).append hline)

theorem unary {opcode : Opcode} (ho : opcode.isPlain) (es : List Expr) :
    Makes (inner.unary scope r opcode es location) Code.Whole := by
  cases es with
  | nil => exact .throw trivial
  | cons e es =>
    refine (h.toRegister e).bind fun p hcode => ?_
    exact (makes_plain (isPlain_of_ab ho)).bind fun line hline => .pure (hcode.append hline)

theorem operation (op : Operator) (es : List Expr) :
    Makes (inner.operation scope r op es location) Code.Whole := by
  rw [operation_eq]
  refine makes_freed (f := fun _ => inner.operationCode scope r op es location) fun _ => ?_
  refine operationCode_cases (motive := fun act => Makes act Code.Whole) op.plan_sorted
    ?load ?after ?folded ?unary ?chain ?null ?junction
  case load => exact loadQuotation_whole
  case after => exact fun _ a e _ ho => h.afterAtom ho a e
  case folded => exact fun _ ho => h.folded ho es
  case unary => exact fun _ ho => h.unary ho es
  case chain =>
    exact fun _ swap ho => (h.operands es).bind fun p hcode => (chain_whole ho swap _).bind
      fun chain hc => .pure (hcode.append hc)
  case null =>
    exact (h.operands es).bind fun p hcode => (atomOperand_whole _).bind fun q hload =>
      (chain_whole rfl _ _).bind fun chain hc => .pure ((hcode.append hload).append hc)
  case junction => exact fun stop => h.junction stop es

theorem arguments (es : List Expr) : Makes (inner.arguments scope es) Code.Whole := by
  induction es with
  | nil => exact .pure Code.whole_nil
  | cons e es ih =>
    exact (h.toTemporary e).bind fun p hcode => ih.bind fun more hmore =>
      .pure (hcode.append hmore)

theorem call (callee : Expr) (es : List Expr) :
    Makes (inner.call scope r callee es location) Code.Whole := by
  rw [call_eq]
  refine makes_freed fun mark => makes_then fun base => ?_
  have hmove : Makes (moveFrom base r location) Code.Whole := by
    unfold moveFrom
    split
    · exact .pure Code.whole_nil
    · exact makes_plain (isPlain_of_ab rfl)
  refine (h.into callee).bind fun callee hcallee => (h.arguments es).bind fun arguments hargs => ?_
  refine (makes_plain (isPlain_of_abc rfl)).bind fun call hcall => hmove.bind fun move hm => ?_
  exact .pure (((hcallee.append hargs).append hcall).append hm)

theorem lowerInto (e : Expr) : Makes (inner.lowerInto scope r e) Code.Whole := by
  unfold Lowering.lowerInto
  cases e with
  | literal => exact loadQuotation_whole _
  | reference => exact loadVariable_whole _
  | assignment =>
    exact (h.assign _ _).bind fun code hcode => loadUnspecified_whole.bind fun more hmore =>
      .pure (hcode.append hmore)
  | branch => exact h.branch _ _ _
  | cond => exact h.cond _ _
  | operation => exact h.operation _ _
  | call => exact h.call _ _
  | lambda f =>
    dsimp only
    unfold Lowering.lambda
    split
    · exact makes_then fun index => makes_plain (isPlain_of_abx rfl)
    · exact .throw trivial
  | sequence items =>
    dsimp only
    split
    · exact loadUnspecified_whole
    · have hpieces : Makes (items.dropLast.mapM (inner.effect scope)) fun pieces =>
          ∀ piece ∈ pieces, Code.Whole piece := Ends.mapM fun e _ => h.effect e
      exact hpieces.bind fun pieces hp => (h.into _).bind fun last hl =>
        .pure ((Code.whole_flatten hp).append hl)

theorem lowerEffect (e : Expr) : Makes (inner.lowerEffect scope e) Code.Whole := by
  unfold Lowering.lowerEffect
  split
  case h_4 items _ =>
    have hpieces : Makes (items.mapM (inner.effect scope)) fun pieces =>
        ∀ piece ∈ pieces, Code.Whole piece := Ends.mapM fun e _ => h.effect e
    exact hpieces.bind fun pieces hp => .pure (Code.whole_flatten hp)
  case h_5 => exact h.assign _ _
  case h_6 =>
    exact makes_then fun _ => makes_then fun _ => (h.lowerInto _).bind fun code hcode =>
      makes_then fun _ => .pure hcode
  all_goals exact .pure Code.whole_nil

/-- Behind the body there is nothing but the return. -/
theorem procedureBody (f : Function) :
    Makes (inner.procedureBody scope f) Code.Guarded := by
  have hreturn {i : Except Overrun Instruction} (hi : ∀ i', i = .ok i' → i'.opcode = .return)
      {code : Code} (hcode : code.Whole) :
      Makes (emit f.location i) fun line => Code.Guarded (code ++ line) :=
    makes_emit fun i' h => (hcode _ (List.cons_ne_nil _ _)).guarded (hi i' h)
  unfold Lowering.procedureBody
  split
  · refine (h.effect f.body).bind fun code hcode => ?_
    exact (hreturn (fun i hi => (Instruction.ab_eq_ok hi).1) hcode).bind fun _ hg => .pure hg
  · refine (h.toRegister f.body).bind fun p hcode => ?_
    exact (hreturn (fun i hi => (Instruction.ab_eq_ok hi).1) hcode).bind fun _ hg => .pure hg

end Whole

theorem within_whole (height : Nat) : (within height).Whole := by
  induction height with
  | zero => exact fun _ _ _ => .throw trivial
  | succ height ih =>
    intro scope d e
    cases d with
    | register r => exact ih.lowerInto e
    | nowhere => exact ih.lowerEffect e

end Lowering

/-- In the template of a procedure tests have their jumps. -/
theorem Function.template_guarded {f : Function} {t : Template} (h : f.template = .ok t) :
    Code.Guarded t.code := by
  obtain ⟨n, slots, code, b, -, hparts, ha⟩ := Function.template_eq_ok h
  have hmakes : Generating.Makes ((Lowering.within n).procedureParts f) fun p =>
      Code.Guarded p.2 :=
    Generating.makes_then fun _ => Generating.makes_then fun _ =>
      ((Lowering.within_whole n).procedureBody f).bind fun _ hg => .pure hg
  rw [ha.code]
  exact hmakes.of_ok hparts

end RegisterScheme
