import RegisterScheme.Proofs.Generation.Formals

/-! The template of a procedure: its code fits it and does what the body means, and its parameters
are those of the procedure. Where a procedure has no template, it is too large for one. -/

namespace RegisterScheme

/-- What is known of the template of a procedure inside scopes. -/
structure Template.Renders (t : Template) (f : Function) (outer : List Scope) : Prop where
  displayName : t.displayName = f.displayName
  arity : t.arity = f.parameters.arity
  tempBase : t.tempBase = f.scope.registers
  tempBase_le : t.tempBase ≤ t.frameSize
  kinds : t.slots.map Variable.kind = f.scope.bindings.map Binding.variableKind
  closed : Code.Closed t.code
  fits : Code.Fits t.code 0 t.room
  nested : ∀ (i : Nat) u, t.literals[i]? = some (.template u) → u.CompiledIn (f.scope :: outer)
  defaults : ∀ v ∈ t.slots, ∀ index ∈ v.initializer, t.room.Nested index
  formals : t.formals.Matches (f.DefaultAt outer t.literals) f.formals
  within : t.formals.Within t.tempBase
  marks : (t.parameters .key).length ≤ t.keys
  returns : ∀ σ : Setting f.scope outer, σ.template = t → σ.Returns (σ.evaluate true f.body) t.code

namespace Lowering

theorem Initialized.nested {scope : Scope} {ps : List (OptionalParameter Function)}
    {slots : List Variable} {literals : List (Literal Template)}
    (h : Initialized scope ps slots literals) {v : Variable} (hv : v ∈ slots) {index : Nat}
    (hi : index ∈ v.initializer) : ∃ t, literals[index]? = some (.template t) := by
  obtain ⟨i, hlt, rfl⟩ := List.getElem_of_mem hv
  have hslot := List.getElem?_eq_getElem hlt
  by_cases hp : ∃ p ∈ ps, p.slot = i
  · obtain ⟨p, hp, rfl⟩ := hp
    obtain ⟨u, hu, hd⟩ := h.given p hp
    obtain rfl : u = slots[p.slot] := Option.some.inj (hu.symm.trans hslot)
    rw [Option.mem_def.mp hi] at hd
    generalize p.default = y at hd
    cases hd with
    | some hd =>
      obtain ⟨t, ht, -⟩ := hd
      exact ⟨t, ht⟩
  · have hnone := h.missing i _ hslot fun p hp' heq => hp ⟨p, hp', heq⟩
    rw [hnone] at hi
    cases hi

end Lowering

theorem Function.Scoped.renders {f : Function} {outer : List Scope} (h : f.Scoped outer)
    {t : Template} (ht : f.template = .ok t) : t.Renders f outer := by
  obtain ⟨n, slots, code, b, hheight, hparts, ha⟩ := Function.template_eq_ok ht
  have hmade := (Lowering.procedureParts_made (Lowering.correct_within n) h
    (Nat.le_of_eq hheight)).of_ok hparts
  obtain ⟨-, hvalid, hinit, hclosed, hworks⟩ := hmade
  have hkinds : t.slots.map Variable.kind = f.scope.bindings.map Binding.variableKind := by
    have hsame := congrArg (List.map Prod.snd) hinit.same
    rwa [List.map_map, List.map_map, ← ha.slots] at hsame
  have hroom : t.room = b.room f.scope := by
    rw [Template.room, ha.frameSize, ha.literals, hkinds]
    rfl
  refine ⟨ha.displayName, ha.arity, ha.tempBase, ?_, hkinds, ha.code ▸ hclosed, ?_, fun i u hu => ?_,
    fun v hv index hi => ?_, ?_, ?_, ?_, fun σ hσ => ?_⟩
  · rw [ha.tempBase, ha.frameSize]
    exact Nat.le_trans hvalid.registers_le hvalid.free_le
  · rw [ha.code, hroom]
    exact hworks.fits
  · rw [ha.literals] at hu
    exact hvalid.templates i u (Array.getElem?_toList.symm.trans hu)
  · rw [hroom]
    exact hinit.nested (ha.slots ▸ hv) hi
  · rw [ha.literals]
    exact hinit.formals_matches h ha
  · rw [ha.tempBase]
    exact hinit.formals_within h ha
  · have hkeys := (hinit.formals_matches h ha).keys.length_eq
    rw [Template.formals, List.length_map, Function.formals, List.length_map] at hkeys
    exact Nat.le_of_eq (hkeys.trans ha.keys.symm)
  · rw [ha.code]
    refine hworks.runs σ ?_
    rw [Setting.room, hσ, hroom]
    exact .refl _

/-- Generation fails only with errors of the program. -/
theorem Function.Scoped.template_error {f : Function} {outer : List Scope} (h : f.Scoped outer)
    {e : Failure} (he : f.template = .error e) : e.IsError :=
  (Lowering.correct_within f.height).error (Nat.le_refl _) h he

end RegisterScheme
