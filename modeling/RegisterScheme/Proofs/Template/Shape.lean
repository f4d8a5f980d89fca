import RegisterScheme.Template.Generator

/-! What a template shows of the procedure it was made from. -/

namespace RegisterScheme

namespace Lowering

variable {inner : Lowering} {f : Function} {t : Template}

/-- The descriptions of the variables of a procedure, and its code. -/
def procedureParts (inner : Lowering) (f : Function) : Generating (List Variable × Code) := do
  let slots ← f.scope.bindings.mapM describe
  let slots ← (f.parameters.optional ++ f.parameters.keys).foldlM inner.initializer slots
  return (slots, ← inner.procedureBody f.scope f)

/-- A template with the parts that were made for a procedure. -/
structure Assembles (f : Function) (slots : List Variable) (code : Code) (b : Builder)
    (t : Template) : Prop where
  name : t.name = f.name
  code : t.code = code
  literals : t.literals = b.literals.toList
  slots : t.slots = slots
  required : t.required = f.parameters.required
  optional : t.optional = f.parameters.optional.length
  keys : t.keys = f.parameters.keys.length
  rest : t.rest = f.parameters.rest
  frameSize : t.frameSize = b.used
  tempBase : t.tempBase = f.scope.registers

theorem lowerFunction_eq : inner.lowerFunction f =
    match inner.procedureParts f (.start f.scope.registers) with
    | .error e _ => .error e
    | .ok (slots, code) b => .ok {
        name := f.name
        code := code
        literals := b.literals.toList
        slots := slots
        required := f.parameters.required
        optional := f.parameters.optional.length
        keys := f.parameters.keys.length
        rest := f.parameters.rest
        frameSize := b.used
        tempBase := f.scope.registers } :=
  rfl

theorem lowerFunction_eq_ok (h : inner.lowerFunction f = .ok t) : ∃ slots code b,
    inner.procedureParts f (.start f.scope.registers) = .ok (slots, code) b ∧
      Assembles f slots code b t := by
  rw [lowerFunction_eq] at h
  cases hp : inner.procedureParts f (.start f.scope.registers) with
  | error e b =>
    rw [hp] at h
    cases h
  | ok parts b =>
    rw [hp] at h
    cases h
    exact ⟨parts.1, parts.2, b, rfl, rfl, rfl, rfl, rfl, rfl, rfl, rfl, rfl, rfl, rfl⟩

theorem lowerFunction_eq_error {e : Failure} (h : inner.lowerFunction f = .error e) :
    ∃ b, inner.procedureParts f (.start f.scope.registers) = .error e b := by
  rw [lowerFunction_eq] at h
  cases hp : inner.procedureParts f (.start f.scope.registers) with
  | error e b =>
    rw [hp] at h
    cases h
    exact ⟨b, rfl⟩
  | ok parts b =>
    rw [hp] at h
    cases h

variable {slots : List Variable} {code : Code} {b : Builder}

theorem Assembles.displayName (h : Assembles f slots code b t) :
    t.displayName = f.name.getD "<anonymous>" := by
  rw [Template.displayName, h.name]

theorem Assembles.arity (h : Assembles f slots code b t) : t.arity = f.parameters.arity := by
  have hk : (0 < f.parameters.keys.length) = ((!f.parameters.keys.isEmpty) = true) := by
    cases f.parameters.keys <;> simp
  have ho : (f.parameters.optional.length = 0) = (f.parameters.optional.isEmpty = true) := by
    cases f.parameters.optional <;> simp
  simp only [Template.arity, Parameters.arity, h.required, h.optional, h.keys, h.rest, hk, ho,
    Bool.or_eq_true, Bool.decide_eq_true]

end Lowering

/-- A template comes from one pass over the procedure. -/
theorem Function.template_eq_ok {f : Function} {t : Template} (h : f.template = .ok t) :
    ∃ n slots code b, f.height = n + 1 ∧
      (Lowering.within n).procedureParts f (.start f.scope.registers) = .ok (slots, code) b ∧
      Lowering.Assembles f slots code b t := by
  rw [Function.template] at h
  cases hn : f.height with
  | zero =>
    rw [hn] at h
    cases h
  | succ n =>
    rw [hn] at h
    obtain ⟨slots, code, b, hp, ha⟩ := Lowering.lowerFunction_eq_ok h
    exact ⟨n, slots, code, b, rfl, hp, ha⟩

theorem Function.template_tempBase {f : Function} {t : Template} (h : f.template = .ok t) :
    t.tempBase = f.scope.registers := by
  obtain ⟨n, slots, code, b, -, -, ha⟩ := Function.template_eq_ok h
  exact ha.tempBase

end RegisterScheme
