import RegisterScheme.Proofs.Expr.Addressing
import RegisterScheme.Proofs.Generation.Calls
import RegisterScheme.Proofs.Template.Registers

/-! Generated code keeps to its registers. Temporaries are taken from the first free one on and
given back; below it code writes its destination and the variables that it assigns, no others. -/

namespace RegisterScheme

/-- An expression assigns the variable in a register itself, at any depth; a procedure inside it has
registers of its own. -/
def Expr.Assigns (e : Expr) (q : Nat) : Prop :=
  ∃ (r : Register) (value : Expr) (location : Option Location),
    r.val = q ∧ (assignment (.localVariable r) value location).Within e

/-- What code for an expression may do to the frame of its procedure. -/
structure Permit where
  scope : Scope
  /-- The registers that may be written. -/
  may : Nat → Prop
  /-- So many registers were in use before. -/
  entry : Nat

/-- The generation of code, with what it adds, if it succeeds. -/
abbrev Lays {α : Type} (b : Builder) (act : Generating α) (Q : α → Builder → Prop) : Prop :=
  Keeps Builder.Grows (fun _ => True) b act Q

namespace Permit

variable (p : Permit)

/-- So many registers the frame has by now. -/
def size (b : Builder) : Nat := max p.entry b.used

/-- Temporaries lie above the variables, and all that are free may be written. -/
structure Holds (b : Builder) : Prop where
  registers_le : p.scope.registers ≤ b.free
  free_le : b.free ≤ p.size b
  may : ∀ q, b.free ≤ q → p.may q

/-- The locals of an expression are variables, and those that it assigns may be written. -/
structure Allows (e : Expr) : Prop where
  locals : ∀ q, e.Mentions (.localVariable q) → q.val < p.scope.registers
  assigned : ∀ q, e.Assigns q → p.may q

/-- A destination in use that may be written. -/
structure Takes (b : Builder) (r : Register) : Prop where
  lt_free : r.val < b.free
  may : p.may r

def Covers (code : Code) (b : Builder) : Prop := code.Confined p.may (p.size b)

/-- The code is confined, and the temporaries that were taken for it are free again. -/
structure Level (b : Builder) (code : Code) (c : Builder) : Prop where
  free : c.free = b.free
  covers : p.Covers code c

/-- The code is confined; temporaries may be in use. -/
structure Raised (b : Builder) (code : Code) (c : Builder) : Prop where
  holds : p.Holds c
  free_le : b.free ≤ c.free
  covers : p.Covers code c

variable {p} {b c d : Builder} {e : Expr} {xs ys : Code} {r : Register}

theorem size_le (h : b.Grows c) : p.size b ≤ p.size c :=
  Nat.max_le.mpr ⟨Nat.le_max_left _ _, Nat.le_trans h.used (Nat.le_max_right _ _)⟩

theorem Holds.level (h : p.Holds b) (hg : b.Grows c) (hf : c.free = b.free) : p.Holds c where
  registers_le := hf ▸ h.registers_le
  free_le := hf ▸ Nat.le_trans h.free_le (size_le hg)
  may q hq := h.may q (hf ▸ hq)

theorem Holds.lt_size (h : p.Holds b) {q : Nat} (hq : q < b.free) : q < p.size b :=
  Nat.lt_of_lt_of_le hq h.free_le

theorem Covers.grows (h : p.Covers xs b) (hg : b.Grows c) : p.Covers xs c := h.mono (size_le hg)

theorem Covers.append (hx : p.Covers xs b) (hy : p.Covers ys b) : p.Covers (xs ++ ys) b :=
  Code.Confined.append hx hy

theorem Takes.level (h : p.Takes b r) (hf : c.free = b.free) : p.Takes c r :=
  ⟨hf ▸ h.lt_free, h.may⟩

theorem Takes.raised (h : p.Takes b r) (hf : b.free ≤ c.free) : p.Takes c r :=
  ⟨Nat.lt_of_lt_of_le h.lt_free hf, h.may⟩

theorem Level.holds (h : p.Level b xs c) (hb : p.Holds b) (hg : b.Grows c) : p.Holds c :=
  hb.level hg h.free

/-- Code behind other code, neither of which keeps temporaries. -/
theorem Level.append (hx : p.Level b xs c) (hg : c.Grows d) (hy : p.Level c ys d) :
    p.Level b (xs ++ ys) d :=
  ⟨hy.free.trans hx.free, (hx.covers.grows hg).append hy.covers⟩

/-- Code behind code that may keep temporaries. -/
theorem Raised.append (hx : p.Raised b xs c) (hg : c.Grows d) (hy : p.Raised c ys d) :
    p.Raised b (xs ++ ys) d :=
  ⟨hy.holds, Nat.le_trans hx.free_le hy.free_le, (hx.covers.grows hg).append hy.covers⟩

theorem Allows.part (h : p.Allows e) {d : Expr} (hpart : d ∈ e.parts) : p.Allows d where
  locals q hq := by
    cases hq with
    | reads hw => exact h.locals q (.reads (.part hpart hw))
    | writes hw => exact h.locals q (.writes (.part hpart hw))
  assigned q hq := by
    obtain ⟨r, value, location, hr, hw⟩ := hq
    exact h.assigned q ⟨r, value, location, hr, .part hpart hw⟩

end Permit

namespace Generating

open Permit

variable {α : Type} {p : Permit} {b : Builder} {r : Register} {location : Option Location}

theorem allocate_lays (hb : p.Holds b) :
    Lays b allocate fun r c => r.val = b.free ∧ c.free = b.free + 1 ∧ p.Holds c ∧ p.may r := by
  refine .get_bind ?_
  split
  · refine ⟨⟨List.prefix_rfl, Nat.le_max_left _ _⟩, rfl, rfl, ?_, hb.may _ (Nat.le_refl _)⟩
    refine ⟨Nat.le_succ_of_le hb.registers_le, ?_, fun q hq => hb.may q (Nat.le_of_succ_le hq)⟩
    exact Nat.le_trans (Nat.le_max_right _ _) (Nat.le_max_right _ _)
  · exact .throw (.refl b) trivial

theorem freeFrom_lays (b : Builder) (scope : Scope) (n : Nat) :
    Lays b (freeFrom scope n) fun _ c => c.free = n := by
  unfold freeFrom
  split
  · exact ⟨⟨List.prefix_rfl, Nat.le_refl _⟩, rfl⟩
  · exact .throw (.refl b) trivial

theorem pushLiteral_lays (b : Builder) (l : Literal Template) :
    Lays b (pushLiteral l) fun _ c => c.free = b.free := by
  refine .get_bind ?_
  split
  · exact .throw (.refl b) trivial
  · exact ⟨⟨by simp, Nat.le_refl _⟩, rfl⟩

theorem literal_lays (b : Builder) (q : Quotation) :
    Lays b (literal q) fun _ c => c.free = b.free := by
  refine .get_bind ?_
  split
  · exact .pure (.refl b) rfl
  · exact pushLiteral_lays b _

theorem globalName_lays (b : Builder) (scope : Scope) (slot : Nat) :
    Lays b (globalName scope slot) fun _ c => c.free = b.free := by
  refine .get_bind ?_
  split
  · exact .pure (.refl b) rfl
  · split
    · exact .throw (.refl b) trivial
    · split
      · refine Keeps.bind (literal_lays b _) fun index c _ hf => ?_
        exact ⟨⟨List.prefix_rfl, Nat.le_refl _⟩, hf⟩
      · exact .throw (.refl b) trivial

theorem unspecified_lays (b : Builder) :
    Lays b unspecified fun _ c => c.free = b.free := by
  refine .get_bind ?_
  split
  · exact .pure (.refl b) rfl
  · refine Keeps.bind (pushLiteral_lays b _) fun index c _ hf => ?_
    exact ⟨⟨List.prefix_rfl, Nat.le_refl _⟩, hf⟩

theorem emit_lays {i : Except Overrun Instruction}
    (h : ∀ i', i = .ok i' → i'.Confined p.may (p.size b)) :
    Lays b (emit location i) (p.Level b) := by
  refine ((emit_keeps location i).imp fun _ _ => trivial).mono fun code c _ hcode => ?_
  obtain ⟨rfl, i', hi, rfl⟩ := hcode
  exact ⟨rfl, Code.confined_line (h i' hi)⟩

variable {i : Except Overrun Instruction} (op : Opcode)

theorem load_lays (hb : p.Holds b) (hr : p.Takes b r) (ho : op.loads)
    (hi : ∀ i', i = .ok i' → i'.opcode = op ∧ i'.a = r) :
    Lays b (emit location i) (p.Level b) := by
  refine emit_lays fun i' h => ?_
  obtain ⟨rfl, rfl⟩ := hi i' h
  exact (Instruction.touches_of_loads ho).confined (List.forall_mem_singleton.mpr hr.may)
    (List.forall_mem_singleton.mpr (hb.lt_size hr.lt_free)) nofun

theorem move_lays (hb : p.Holds b) (hr : p.Takes b r) {q last : Nat} (hq : q < p.size b)
    (ho : op.moves) : Lays b (emit location (Instruction.abc op r q last)) (p.Level b) := by
  refine emit_lays fun i h => ?_
  obtain ⟨rfl, rfl, rfl, -⟩ := Instruction.abc_eq_ok h
  refine (Instruction.touches_of_moves ho).confined (List.forall_mem_singleton.mpr hr.may) ?_ nofun
  exact List.forall_mem_cons.mpr ⟨hb.lt_size hr.lt_free, List.forall_mem_singleton.mpr hq⟩

theorem store_lays (hr : r.val < p.size b) (ho : op.stores)
    (hi : ∀ i', i = .ok i' → i'.opcode = op ∧ i'.a = r) :
    Lays b (emit location i) (p.Level b) := by
  refine emit_lays fun i' h => ?_
  obtain ⟨rfl, rfl⟩ := hi i' h
  exact (Instruction.touches_of_stores ho).confined nofun (List.forall_mem_singleton.mpr hr) nofun

variable {x y : Operand}

theorem combine_lays (hb : p.Holds b) (hr : p.Takes b r) (hx : Operand.Below (p.size b) x.half)
    (hy : Operand.Below (p.size b) y.half) (ho : op.combines) :
    Lays b (emit location (Instruction.abc op r x.half y.half)) (p.Level b) := by
  refine emit_lays fun i h => ?_
  obtain ⟨rfl, rfl, hleft, hright⟩ := Instruction.abc_eq_ok h
  refine (Instruction.touches_of_combines ho).confined (List.forall_mem_singleton.mpr hr.may)
    (List.forall_mem_singleton.mpr (hb.lt_size hr.lt_free)) ?_
  rw [hleft, hright]
  exact List.forall_mem_cons.mpr ⟨hx, List.forall_mem_singleton.mpr hy⟩

theorem compare_lays (hx : Operand.Below (p.size b) x.half) (hy : Operand.Below (p.size b) y.half)
    (ho : op.compares) :
    Lays b (emit location (Instruction.abc op .zero x.half y.half)) (p.Level b) := by
  refine emit_lays fun i h => ?_
  obtain ⟨rfl, -, hleft, hright⟩ := Instruction.abc_eq_ok h
  refine (Instruction.touches_of_compares ho).confined nofun nofun ?_
  rw [hleft, hright]
  exact List.forall_mem_cons.mpr ⟨hx, List.forall_mem_singleton.mpr hy⟩

theorem jump_lays (lines : Nat) : Lays b (jump location lines) (p.Level b) :=
  ((jump_keeps lines).imp fun _ _ => trivial).mono fun _ _ _ h => ⟨h.1 ▸ rfl, h.2.confined⟩

theorem joined_lays {pieces : List Code} {last : Code} (hp : ∀ piece ∈ pieces, p.Covers piece b)
    (hl : p.Covers last b) : Lays b (joined location pieces last) (p.Level b) := by
  refine ((joined_keeps last pieces).imp fun _ _ => trivial).mono fun code c _ h => ?_
  obtain ⟨rfl, hexits⟩ := h
  exact ⟨rfl, hexits.confined hp hl⟩

/-- Code after something that concerns no registers. -/
theorem then_lays {act : Generating α} {f : α → Generating Code}
    (hact : Lays b act fun _ c => c.free = b.free)
    (hf : ∀ a c, b.Grows c → c.free = b.free → Lays c (f a) (p.Level c)) :
    Lays b (act >>= f) (p.Level b) :=
  Keeps.bind hact fun a c hg hfree => (hf a c hg hfree).mono fun _ _ _ h =>
    ⟨h.free.trans hfree, h.covers⟩

/-- Code after which the temporaries are free that it has taken. -/
theorem freed_lays (act : Nat → Generating Code)
    (hact : Lays b (act b.free) fun code c => p.Covers code c) :
    Lays b (do
      let mark := (← get).free
      let code ← act mark
      freeFrom p.scope mark
      return code) (p.Level b) := by
  refine .get_bind (Keeps.bind hact fun code c _ hcode => ?_)
  refine Keeps.bind (freeFrom_lays c p.scope b.free) fun _ d hg hf => .pure (.refl d) ?_
  exact ⟨hf, hcode.grows hg⟩

/-- Pieces of code, one after the other. -/
theorem pieces_lays {l : List α} {f : α → Generating Code}
    (hf : ∀ a ∈ l, ∀ c, b.Grows c → c.free = b.free → Lays c (f a) (p.Level c)) :
    Lays b (l.mapM f) fun codes c => c.free = b.free ∧ ∀ code ∈ codes, p.Covers code c := by
  refine (Keeps.mapM_forall₂ (I := fun c => c.free = b.free) (P := fun _ code c => p.Covers code c)
    (fun _ _ _ _ h hg => h.grows hg) rfl fun a ha c hg hc => ?_).mono fun codes c _ h => ?_
  · exact (hf a ha c hg hc).mono fun code d _ h => ⟨h.free.trans hc, h.covers⟩
  · obtain ⟨hfree, hcodes⟩ := h
    refine ⟨hfree, fun code hmem => ?_⟩
    obtain ⟨j, hj, rfl⟩ := List.getElem_of_mem hmem
    exact hcodes.get (hcodes.length_eq ▸ hj) hj

end Generating

namespace Lowering

open Generating Permit

variable {p : Permit} {b : Builder} {r : Register} {location : Option Location}

theorem loadNil_lays (hb : p.Holds b) (hr : p.Takes b r) :
    Lays b (loadNil r location) (p.Level b) := by
  refine emit_lays fun i h => ?_
  obtain ⟨hop, ha, hb', -⟩ := Instruction.ab_eq_ok h
  refine (Instruction.touches_of_loadNil hop (hb'.trans (congrArg Fin.val ha.symm))).confined ?_ ?_
    nofun
  · exact List.forall_mem_singleton.mpr (ha ▸ hr.may)
  · exact List.forall_mem_singleton.mpr (ha ▸ hb.lt_size hr.lt_free)

theorem loadBoolean_lays (hb : p.Holds b) (hr : p.Takes b r) (v : Bool) (skip : Nat) :
    Lays b (loadBoolean r v skip location) (p.Level b) :=
  load_lays .loadBoolean hb hr rfl fun _ h =>
    ⟨(Instruction.abc_eq_ok h).1, (Instruction.abc_eq_ok h).2.1⟩

theorem loadConstant_lays (op : Opcode) (hb : p.Holds b) (hr : p.Takes b r) (ho : op.loads)
    (index : Nat) : Lays b (emit location (Instruction.abx op r index)) (p.Level b) :=
  load_lays op hb hr ho fun _ h => ⟨(Instruction.abx_eq_ok h).1, (Instruction.abx_eq_ok h).2.1⟩

theorem loadIndex_lays (op : Opcode) (hb : p.Holds b) (hr : p.Takes b r) (ho : op.loads)
    {act : Generating Nat} (hact : Lays b act fun _ c => c.free = b.free) :
    Lays b (do emit location (Instruction.abx op r (← act))) (p.Level b) :=
  then_lays hact fun index _ hg hf => loadConstant_lays op (hb.level hg hf) (hr.level hf) ho index

theorem loadQuotation_lays (hb : p.Holds b) (hr : p.Takes b r) (q : Quotation) :
    Lays b (loadQuotation r q location) (p.Level b) := by
  unfold loadQuotation
  split
  · exact loadNil_lays hb hr
  · exact loadBoolean_lays hb hr _ 0
  · exact loadIndex_lays .loadConstant hb hr rfl (literal_lays b q)

theorem loadUnspecified_lays (hb : p.Holds b) (hr : p.Takes b r) :
    Lays b (loadUnspecified r location) (p.Level b) :=
  loadIndex_lays .loadConstant hb hr rfl (unspecified_lays b)

theorem loadVariable_lays (hb : p.Holds b) (hr : p.Takes b r) {v : VariableRef}
    (hv : ∀ q, v = .localVariable q → q.val < p.scope.registers) :
    Lays b (loadVariable p.scope r v location) (p.Level b) := by
  unfold loadVariable
  cases v with
  | localVariable q =>
    dsimp only
    split
    · exact .pure (.refl b) ⟨rfl, Code.confined_nil⟩
    · have hq := Nat.lt_of_lt_of_le (hv q rfl) hb.registers_le
      exact move_lays .move hb hr (hb.lt_size hq) rfl
  | captured slot =>
    exact load_lays .getCaptured hb hr rfl fun _ h =>
      have h := Instruction.ab_eq_ok (slotOperand_bind_eq_ok h)
      ⟨h.1, h.2.1⟩
  | global slot => exact loadIndex_lays .getGlobal hb hr rfl (globalName_lays b p.scope slot)

theorem atomOperand_lays (hb : p.Holds b) (a : Atom) :
    Lays b (atomOperand a location) fun x c =>
      p.Raised b x.1 c ∧ Operand.Below (p.size c) x.2.half := by
  refine Keeps.bind (literal_lays b _) fun index c hbc hf => ?_
  have hc := hb.level hbc hf
  split
  · rename_i operand hoperand
    refine .pure (.refl c) ⟨⟨hc, Nat.le_of_eq hf.symm, Code.confined_nil⟩, ?_⟩
    exact Operand.below_constant hoperand
  · refine Keeps.bind (allocate_lays hc) fun q d hcd hq => ?_
    obtain ⟨hq, hfree, hd, hmay⟩ := hq
    have hlt : q.val < d.free := by omega
    refine Keeps.bind (loadConstant_lays .loadConstant hd ⟨hlt, hmay⟩ rfl index)
      fun code d' hdd h => .pure (.refl d') ⟨⟨h.holds hd hdd, ?_, h.covers⟩, ?_⟩
    · rw [h.free]
      omega
    · exact Operand.below_register ((h.holds hd hdd).lt_size (h.free.symm ▸ hlt))

theorem chain_lays (hb : p.Holds b) (hr : p.Takes b r) {opcode : Opcode} (ho : opcode.compares)
    (swap : Bool) {os : List Operand} (hos : ∀ o ∈ os, Operand.Below (p.size b) o.half) :
    Lays b (chain r opcode swap os location) (p.Level b) := by
  refine Keeps.bind (pieces_lays (p := p) ?_) fun pieces c hbc hp => ?_
  · rintro ⟨x, y⟩ hmem c hbc -
    have hx := (hos x (List.of_mem_zip hmem).1).mono (size_le hbc)
    have hy := (hos y (List.mem_of_mem_drop (List.of_mem_zip hmem).2)).mono (size_le hbc)
    cases swap with
    | false => exact compare_lays opcode hx hy ho
    | true => exact compare_lays opcode hy hx ho
  obtain ⟨hf, hpieces⟩ := hp
  -- true, if no comparison has left before it, and false behind that
  have hload {d : Builder} (hbd : b.Grows d) (hf : d.free = b.free) (v : Bool) (skip : Nat) :
      Lays d (loadBoolean r v skip location) (p.Level d) :=
    loadBoolean_lays (hb.level hbd hf) (hr.level hf) v skip
  refine Keeps.bind (hload hbc hf true 1) fun last d hcd hlast => ?_
  refine Keeps.bind (joined_lays (fun piece hm => (hpieces piece hm).grows hcd) hlast.covers)
    fun code d' hdd hcode => ?_
  have hfree := hcode.free.trans (hlast.free.trans hf)
  refine Keeps.bind (hload ((hbc.trans hcd).trans hdd) hfree false 0) fun more d'' hdd' hmore =>
    .pure (.refl d'') ?_
  exact ⟨hmore.free.trans hfree, (hcode.covers.grows hdd').append hmore.covers⟩

/-- The row of a call begins at a register that may be written, with no others in use behind it. -/
theorem rowFrom_lays (hb : p.Holds b) (hr : p.Takes b r) :
    Lays b (rowFrom p.scope r b.free) fun base c =>
      p.Holds c ∧ c.free = base.val + 1 ∧ b.free ≤ c.free ∧ p.may base := by
  unfold rowFrom
  split
  · rename_i hrow
    exact .pure (.refl b) ⟨hb, hrow.1.symm, Nat.le_refl _, hr.may⟩
  · refine (allocate_lays hb).mono fun base c _ h => ?_
    obtain ⟨hbase, hfree, hc, hmay⟩ := h
    exact ⟨hc, by omega, by omega, hmay⟩

theorem moveFrom_lays (hb : p.Holds b) (hr : p.Takes b r) {base : Register}
    (hbase : base.val < p.size b) : Lays b (moveFrom base r location) (p.Level b) := by
  unfold moveFrom
  split
  · exact .pure (.refl b) ⟨rfl, Code.confined_nil⟩
  · exact move_lays .move hb hr hbase rfl

theorem pieces_joined_lays (hb : p.Holds b) (hr : p.Takes b r) {act : Generating (List Code)}
    {last : Generating Code} (hact : Lays b act fun codes c =>
      c.free = b.free ∧ ∀ code ∈ codes, p.Covers code c)
    (hlast : ∀ c, p.Holds c → p.Takes c r → Lays c last (p.Level c)) :
    Lays b (do
      let pieces ← act
      joined location pieces (← last)) (p.Level b) := by
  refine Keeps.bind hact fun pieces c hbc hp => ?_
  obtain ⟨hf, hpieces⟩ := hp
  refine Keeps.bind (hlast c (hb.level hbc hf) (hr.level hf)) fun last d hcd hl => ?_
  refine (joined_lays (fun piece hm => (hpieces piece hm).grows hcd) hl.covers).mono ?_
  exact fun code d' _ hcode => ⟨hcode.free.trans (hl.free.trans hf), hcode.covers⟩

end Lowering

end RegisterScheme
