import RegisterScheme.Proofs.Expr.Addressing
import RegisterScheme.Proofs.Generation.Formals
import RegisterScheme.Proofs.Machine.Dealing

/-! The parameters of a resolved procedure have a register each, no two the same, and keywords of
their own. -/

namespace RegisterScheme

namespace Scope

variable {s : Scope} {kind kind' : ParameterKind} {a a' : Nat × String × Register}

theorem argument_ext (ha : a ∈ s.arguments kind) (ha' : a' ∈ s.arguments kind')
    (hslot : a.1 = a'.1) : kind = kind' ∧ a = a' := by
  obtain ⟨i, name, r⟩ := a
  obtain ⟨j, name', r'⟩ := a'
  obtain rfl : i = j := hslot
  obtain ⟨b, hb, rfl, hr⟩ := mem_arguments.mp ha
  obtain ⟨b', hb', rfl, hr'⟩ := mem_arguments.mp ha'
  obtain rfl : b = b' := Option.some.inj (hb.symm.trans hb')
  obtain rfl := Binding.argument?_unique hr hr'
  obtain rfl := Option.some.inj (hr.symm.trans hr')
  exact ⟨rfl, rfl⟩

/-- Parameters with the same register are one. -/
theorem Valid.argument_unique (hs : s.Valid) (ha : a ∈ s.arguments kind)
    (ha' : a' ∈ s.arguments kind') (h : a.2.2 = a'.2.2) : kind = kind' ∧ a = a' := by
  obtain ⟨b, hb, -, hr⟩ := mem_arguments.mp ha
  obtain ⟨b', hb', -, hr'⟩ := mem_arguments.mp ha'
  exact argument_ext ha ha' (hs.slot_unique hb hb' (Binding.register?_of_argument? hr)
    (h ▸ Binding.register?_of_argument? hr'))

/-- Parameters with the same name are one. -/
theorem Valid.argument_named (hs : s.Valid) (ha : a ∈ s.arguments kind)
    (ha' : a' ∈ s.arguments kind') (h : a.2.1 = a'.2.1) : a = a' := by
  obtain ⟨b, hb, hn, -⟩ := mem_arguments.mp ha
  obtain ⟨b', hb', hn', -⟩ := mem_arguments.mp ha'
  have hnames : (s.bindings.map Binding.name)[a.1]? = (s.bindings.map Binding.name)[a'.1]? := by
    rw [List.getElem?_map, List.getElem?_map, hb, hb', Option.map_some, Option.map_some, hn, hn', h]
  have hlt : a.1 < (s.bindings.map Binding.name).length := by
    rw [List.length_map]
    exact (List.getElem?_eq_some_iff.mp hb).1
  exact (argument_ext ha ha' ((List.getElem?_inj hlt hs.names).mp hnames)).2

theorem nodup_arguments (s : Scope) (kind : ParameterKind) : (s.arguments kind).Nodup :=
  (s.arguments_nodup kind).of_map _

theorem Valid.argument_registers_nodup (hs : s.Valid) (kinds : List ParameterKind)
    (h : kinds.Nodup) :
    (kinds.flatMap fun kind => (s.arguments kind).map fun a => a.2.2).Nodup := by
  refine List.nodup_flatMap.mpr ⟨fun kind _ => ?_, h.imp fun {kind kind'} hne r hr hr' => ?_⟩
  · exact (s.nodup_arguments kind).map_on
      fun a ha a' ha' heq => (hs.argument_unique ha ha' heq).2
  · obtain ⟨a, ha, rfl⟩ := List.mem_map.mp hr
    obtain ⟨a', ha', heq⟩ := List.mem_map.mp hr'
    exact hne (hs.argument_unique ha ha' heq.symm).1

end Scope

namespace Function.Scoped

variable {f : Function} {outer : List Scope}

theorem positional_registers (h : f.Scoped outer) : f.formals.positional.map Formal.register =
    (f.scope.arguments .required ++ f.scope.arguments .optional).map fun a => a.2.2 := by
  rw [f.formals_positional, List.map_append, List.map_append, ← h.declared.optional, List.map_map,
    List.map_map, List.map_map]
  rfl

theorem key_registers (h : f.Scoped outer) : f.formals.keys.map Formal.register =
    (f.scope.arguments .key).map fun a => a.2.2 := by
  rw [← h.declared.keys, List.map_map, Function.formals, List.map_map]
  rfl

theorem formals_distinct (h : f.Scoped outer) : f.formals.Distinct where
  takesKeys := by
    rw [Function.formals]
    cases f.parameters.keys <;> rfl
  registers := by
    have hall := h.valid.argument_registers_nodup [.required, .optional, .key, .rest] (by decide)
    have hrest : f.formals.rest = f.parameters.rest := rfl
    rw [List.map_append, h.positional_registers, h.key_registers, hrest, h.declared.rest]
    simpa using hall
  names := by
    have hnames : f.formals.keys.map Formal.name = (f.scope.arguments .key).map fun a => a.2.1 := by
      rw [← h.declared.keys, List.map_map, Function.formals, List.map_map]
      rfl
    rw [hnames]
    exact (f.scope.nodup_arguments .key).map_on
      fun a ha a' ha' heq => h.valid.argument_named ha ha' heq

theorem formals_within (h : f.Scoped outer) : f.formals.Within f.scope.registers where
  positional p hp := by
    have hmem := List.mem_map_of_mem (f := Formal.register) hp
    rw [h.positional_registers] at hmem
    obtain ⟨a, ha, hr⟩ := List.mem_map.mp hmem
    rw [← hr]
    exact (List.mem_append.mp ha).elim h.valid.argument_lt h.valid.argument_lt
  keys p hp := by
    have hmem := List.mem_map_of_mem (f := Formal.register) hp
    rw [h.key_registers] at hmem
    obtain ⟨a, ha, hr⟩ := List.mem_map.mp hmem
    exact hr ▸ h.valid.argument_lt ha
  rest r hr := by
    have hmem : r ∈ f.parameters.rest.toList := Option.mem_toList.mpr hr
    rw [h.declared.rest] at hmem
    obtain ⟨a, ha, rfl⟩ := List.mem_map.mp hmem
    exact h.valid.argument_lt ha

end Function.Scoped

end RegisterScheme
