import RegisterScheme.Proofs.Expr.Scoped
import RegisterScheme.Proofs.Template.Room
import RegisterScheme.Template.Generator

/-! What grows while code is generated. Literals stay where they are, the frame only gets larger,
and what is remembered about literals stays true. -/

namespace RegisterScheme

theorem Atom.eq_of_identical {a b : Atom} (h : a.identical b) : a = b := by
  cases a <;> cases b <;> simp_all [identical, equal]
  rename_i x y
  obtain ⟨⟨bits, valid⟩⟩ := x
  obtain ⟨⟨bits', valid'⟩⟩ := y
  obtain rfl : bits = bits' := h
  rfl

/-- A template of a procedure inside scopes, innermost first. -/
def Template.CompiledIn (t : Template) (scopes : List Scope) : Prop :=
  ∃ f : Function, f.Scoped scopes ∧ f.template = .ok t

/-- The kind of a binding as a variable. -/
def Binding.variableKind (b : Binding) : VariableKind :=
  match b.kind with
  | .variable k => k
  | .primitive _ => .global

namespace Builder

/-- The room for code that is generated from here on. -/
def room (scope : Scope) (b : Builder) : Room :=
  ⟨b.used, b.literals.toList, scope.bindings.map Binding.variableKind⟩

/-- A builder with perhaps more literals and a larger frame. -/
structure Grows (b c : Builder) : Prop where
  literals : b.literals.toList <+: c.literals.toList
  used : b.used ≤ c.used

theorem Grows.refl (b : Builder) : b.Grows b := ⟨List.prefix_rfl, Nat.le_refl _⟩

theorem Grows.trans {b c d : Builder} (h : b.Grows c) (h' : c.Grows d) : b.Grows d :=
  ⟨h.literals.trans h'.literals, Nat.le_trans h.used h'.used⟩

instance : Std.Refl Grows := ⟨Grows.refl⟩

instance : Trans Grows Grows Grows := ⟨Grows.trans⟩

theorem Grows.within {b c : Builder} (h : b.Grows c) (scope : Scope) :
    (b.room scope).Within (c.room scope) :=
  ⟨h.used, h.literals, rfl⟩

/-- Temporaries lie above the variables, what is remembered about literals is true, and templates
in the pool are those of procedures inside this one. -/
structure Valid (scope : Scope) (outer : List Scope) (b : Builder) : Prop where
  registers_le : scope.registers ≤ b.free
  free_le : b.free ≤ b.used
  free_le_max : b.free ≤ maxRegisters
  names : ∀ slot index, b.globalNames.lookup slot = some index →
    ∃ binding first, scope.bindings[slot]? = some binding ∧
      b.literals[index]? = some (.quotation ⟨first, .atom (.symbol binding.name)⟩)
  unspecified : ∀ index, b.unspecified = some index → b.literals[index]? = some .unspecified
  templates : ∀ (i : Nat) t, b.literals[i]? = some (.template t) → t.CompiledIn (scope :: outer)

theorem Grows.getElem? {b c : Builder} (h : b.Grows c) {i : Nat} {l : Literal Template}
    (hl : b.literals[i]? = some l) : c.literals[i]? = some l := by
  rw [← Array.getElem?_toList] at hl ⊢
  exact (h.within .empty).getElem? hl

theorem valid_start {scope : Scope} (h : scope.registers ≤ maxRegisters) (outer : List Scope) :
    (start scope.registers).Valid scope outer :=
  ⟨Nat.le_refl _, Nat.le_refl _, h, by simp [start], by simp [start], by simp [start]⟩

end Builder

/-- The generation of code: literals and registers are only added, and it fails only with errors
of the program. -/
abbrev Generates {α : Type} (b : Builder) (act : Generating α) (Q : α → Builder → Prop) : Prop :=
  Keeps Builder.Grows (fun f => f.IsError) b act Q

namespace Generating

variable {scope : Scope} {outer : List Scope} {b : Builder}

theorem overrun_keeps {α : Type} (o : Overrun) {Q : α → Builder → Prop} :
    Generates b (overrun o : Generating α) Q :=
  .throw (.refl b) True.intro

theorem allocate_keeps (hb : b.Valid scope outer) :
    Generates b allocate fun r c => r.val = b.free ∧ c.free = b.free + 1 ∧ c.Valid scope outer := by
  refine Keeps.bind (P := fun a c => a = b ∧ c = b) ⟨.refl b, rfl, rfl⟩ ?_
  rintro _ b h ⟨rfl, rfl⟩
  split
  case isTrue hlt =>
    refine ⟨⟨List.prefix_rfl, Nat.le_max_left _ _⟩, rfl, rfl, ?_⟩
    exact ⟨Nat.le_succ_of_le hb.registers_le, Nat.le_max_right _ _, hlt, hb.names,
      hb.unspecified, hb.templates⟩
  case isFalse => exact overrun_keeps _

theorem freeFrom_keeps (hb : b.Valid scope outer) {r : Nat} (hr : scope.registers ≤ r)
    (hf : r ≤ b.free) :
    Generates b (freeFrom scope r) fun _ c => c.free = r ∧ c.Valid scope outer := by
  rw [freeFrom, if_pos hr]
  exact ⟨⟨List.prefix_rfl, Nat.le_refl _⟩, rfl, hr, Nat.le_trans hf hb.free_le,
    Nat.le_trans hf hb.free_le_max, hb.names, hb.unspecified, hb.templates⟩

theorem pushLiteral_keeps (hb : b.Valid scope outer) {l : Literal Template}
    (hl : ∀ t, l = .template t → t.CompiledIn (scope :: outer)) :
    Generates b (pushLiteral l) fun i c =>
      c.free = b.free ∧ c.Valid scope outer ∧ c.literals[i]? = some l ∧ c.unspecified = b.unspecified := by
  refine Keeps.bind (P := fun a c => a = b ∧ c = b) ⟨.refl b, rfl, rfl⟩ ?_
  rintro _ b h ⟨rfl, rfl⟩
  split
  · exact overrun_keeps _
  · have hg : b.Grows { b with literals := b.literals.push l } :=
      ⟨by simp, Nat.le_refl _⟩
    refine ⟨hg, rfl, ⟨hb.registers_le, hb.free_le, hb.free_le_max, fun slot index hl => ?_,
      fun index hu => hg.getElem? (hb.unspecified index hu), fun i t ht => ?_⟩, by simp, rfl⟩
    · obtain ⟨binding, first, hs, hi⟩ := hb.names slot index hl
      exact ⟨binding, first, hs, hg.getElem? hi⟩
    · rw [Array.getElem?_push] at ht
      split at ht
      · exact hl t (Option.some.inj ht)
      · exact hb.templates i t ht

/-- The literal for a quotation has the same datum, and the same objects if it has any. -/
theorem literal_keeps (hb : b.Valid scope outer) (q : Quotation) :
    Generates b (literal q) fun i c =>
      c.free = b.free ∧ c.Valid scope outer ∧ ∃ p, c.literals[i]? = some (.quotation p) ∧
        p.datum = q.datum ∧ (p = q ∨ ∃ a, q.datum = .atom a) := by
  refine Keeps.bind (P := fun a c => a = b ∧ c = b) ⟨.refl b, rfl, rfl⟩ ?_
  rintro _ b h ⟨rfl, rfl⟩
  split
  · rename_i index hfound
    rw [Array.findIdx?_eq_some_iff_getElem] at hfound
    obtain ⟨hlt, hsame, -⟩ := hfound
    refine .pure h ⟨rfl, hb, ?_⟩
    have hget : b.literals[index]? = some b.literals[index] := Array.getElem?_eq_getElem hlt
    unfold sameConstant at hsame
    split at hsame
    · rename_i first a a' hl hd
      obtain rfl := Atom.eq_of_identical hsame
      exact ⟨⟨first, .atom a⟩, by rw [hget, hl], hd.symm, .inr ⟨a, hd⟩⟩
    · cases hsame
  · exact (pushLiteral_keeps hb (by simp)).mono fun i c _ ⟨hf, hv, hi, _⟩ => ⟨hf, hv, q, hi, rfl, .inl rfl⟩

theorem atom_keeps (hb : b.Valid scope outer) (a : Atom) :
    Generates b (atom a) fun i c =>
      c.free = b.free ∧ c.Valid scope outer ∧ ∃ first, c.literals[i]? =
        some (.quotation ⟨first, .atom a⟩) :=
  (literal_keeps hb _).mono fun i c _ ⟨hf, hv, ⟨first, d⟩, hi, hd, _⟩ =>
    ⟨hf, hv, first, by rw [hi, show d = .atom a from hd]⟩

theorem globalName_keeps (hb : b.Valid scope outer) {slot : Nat} {name : String}
    (hs : scope.bindings[slot]? = some ⟨name, .variable .global⟩) :
    Generates b (globalName scope slot) fun i c =>
      c.free = b.free ∧ c.Valid scope outer ∧ ∃ first, c.literals[i]? =
        some (.quotation ⟨first, .atom (.symbol name)⟩) := by
  refine Keeps.bind (P := fun a c => a = b ∧ c = b) ⟨.refl b, rfl, rfl⟩ ?_
  rintro _ b h ⟨rfl, rfl⟩
  split
  · rename_i index hl
    obtain ⟨binding', first, hs', hi⟩ := hb.names slot index hl
    obtain rfl : ⟨name, .variable .global⟩ = binding' := Option.some.inj (hs.symm.trans hs')
    exact .pure h ⟨rfl, hb, first, hi⟩
  · rw [hs]
    dsimp only
    rw [if_pos rfl]
    refine Keeps.bind (atom_keeps hb _) fun index c hc ⟨hf, hv, first, hi⟩ => ?_
    refine ⟨⟨List.prefix_rfl, Nat.le_refl _⟩, hf, ⟨hv.registers_le, hv.free_le, hv.free_le_max, ?_,
      hv.unspecified, hv.templates⟩, first, hi⟩
    intro slot' index' hl
    simp only [List.lookup_cons] at hl
    split at hl
    · rename_i heq
      obtain rfl : slot' = slot := beq_iff_eq.mp heq
      obtain rfl := Option.some.inj hl
      exact ⟨_, first, hs, hi⟩
    · exact hv.names slot' index' hl

theorem unspecified_keeps (hb : b.Valid scope outer) :
    Generates b unspecified fun i c =>
      c.free = b.free ∧ c.Valid scope outer ∧ c.literals[i]? = some .unspecified := by
  refine Keeps.bind (P := fun a c => a = b ∧ c = b) ⟨.refl b, rfl, rfl⟩ ?_
  rintro _ b h ⟨rfl, rfl⟩
  split
  · rename_i index hu
    exact .pure h ⟨rfl, hb, hb.unspecified index hu⟩
  · refine Keeps.bind (pushLiteral_keeps hb (by simp)) fun index c hc ⟨hf, hv, hi, _⟩ => ?_
    refine ⟨⟨List.prefix_rfl, Nat.le_refl _⟩, hf, ⟨hv.registers_le, hv.free_le, hv.free_le_max,
      hv.names, fun index' hu => ?_, hv.templates⟩, hi⟩
    obtain rfl := Option.some.inj hu
    exact hi

theorem emit_keeps (location : Option Location) (i : Except Overrun Instruction) :
    Generates b (emit location i) fun code c =>
      c = b ∧ ∃ i', i = .ok i' ∧ code = [⟨i', location⟩] := by
  unfold emit
  split
  · exact .pure (.refl b) ⟨rfl, _, rfl, rfl⟩
  · exact overrun_keeps _

end Generating

end RegisterScheme
