import RegisterScheme.Proofs.Generation.Procedure
import RegisterScheme.Proofs.Simulation.Arguments

/-! The variables of a template are those of the scope of its procedure, and its parameters take
arguments as those of the procedure do. -/

namespace RegisterScheme

/-- A variable as a parameter of a kind, with its register. -/
def Variable.argument? (kind : ParameterKind) (v : Variable) : Option (Variable × Register) :=
  match v.kind with
  | .argument r k => if k = kind then some (v, r) else none
  | _ => none

namespace Lowering.Initialized

variable {scope : Scope} {ps : List (OptionalParameter Function)} {slots : List Variable}
  {literals : List (Literal Template)} {kind : ParameterKind}

theorem forall₂_zipIdx (h : Initialized scope ps slots literals) :
    List.Forall₂ (fun v b => v.1.name = b.1.name ∧ v.1.kind = b.1.variableKind ∧ v.2 = b.2 ∧
      slots[v.2]? = some v.1 ∧ scope.bindings[b.2]? = some b.1)
      slots.zipIdx scope.bindings.zipIdx := by
  refine List.forall₂_iff_get.mpr ⟨by simp [h.length], fun i hi hi' => ?_⟩
  have hs : i < slots.length := by simpa using hi
  have hb : i < scope.bindings.length := by simpa using hi'
  have hsame := congrArg (·[i]?) h.same
  simp only [List.getElem?_map, List.getElem?_eq_getElem hs, List.getElem?_eq_getElem hb,
    Option.map_some, Option.some.injEq, Prod.mk.injEq] at hsame
  simp only [List.get_eq_getElem, List.getElem_zipIdx, Nat.zero_add]
  exact ⟨hsame.1, hsame.2, trivial, List.getElem?_eq_getElem hs, List.getElem?_eq_getElem hb⟩

/-- The parameters of a kind as the scope declares them. -/
theorem forall₂_arguments (h : Initialized scope ps slots literals) (hs : scope.Valid)
    (kind : ParameterKind) :
    List.Forall₂ (fun v a => v.2 = a.2.2 ∧ v.1.name = a.2.1 ∧ slots[a.1]? = some v.1)
      (slots.filterMap (Variable.argument? kind)) (scope.arguments kind) := by
  have hzip : slots.filterMap (Variable.argument? kind) =
      slots.zipIdx.filterMap fun v => Variable.argument? kind v.1 := by
    conv_lhs => rw [← List.zipIdx_map_fst 0 slots, List.filterMap_map]
    rfl
  rw [hzip]
  refine List.rel_filterMap (R := fun v b => v.1.name = b.1.name ∧ v.1.kind = b.1.variableKind ∧
    v.2 = b.2 ∧ slots[v.2]? = some v.1 ∧ scope.bindings[b.2]? = some b.1) ?_ h.forall₂_zipIdx
  rintro ⟨v, i⟩ ⟨b, j⟩ ⟨hname, hkind, rfl, hv, hb⟩
  dsimp only at hname hkind hv hb ⊢
  obtain ⟨k, hk⟩ := hs.kinds b (List.mem_of_getElem? hb)
  rw [Binding.variableKind, hk] at hkind
  rw [Variable.argument?, Binding.argument?, hkind, hk]
  cases k with
  | argument r k' =>
    dsimp only
    split
    · exact .some ⟨rfl, hname, hv⟩
    · exact .none
  | localVariable r => exact .none
  | global => exact .none
  | captured d r => exact .none

theorem mem_bindings (h : Initialized scope ps slots literals) (hs : scope.Valid) {v : Variable}
    (hv : v ∈ slots) : ∃ b ∈ scope.bindings, b.name = v.name ∧ b.kind = .variable v.kind := by
  have hmem : (v.name, v.kind) ∈ slots.map fun v => (v.name, v.kind) := List.mem_map_of_mem hv
  rw [h.same] at hmem
  obtain ⟨b, hb, heq⟩ := List.mem_map.mp hmem
  obtain ⟨hname, hkind⟩ := Prod.mk.inj heq
  obtain ⟨k, hk⟩ := hs.kinds b hb
  refine ⟨b, hb, hname, ?_⟩
  rw [Binding.variableKind, hk] at hkind
  rw [hk, ← hkind]

theorem argument_lt (h : Initialized scope ps slots literals) (hs : scope.Valid)
    {v : Variable × Register} (hv : v ∈ slots.filterMap (Variable.argument? kind)) :
    v.2.val < scope.registers := by
  obtain ⟨u, hu, hv⟩ := List.mem_filterMap.mp hv
  obtain ⟨b, hb, -, hk⟩ := h.mem_bindings hs hu
  unfold Variable.argument? at hv
  split at hv
  · rename_i r k hkind
    split at hv
    · cases hv
      refine hs.taken_lt r (List.mem_filterMap.mpr ⟨b, hb, ?_⟩)
      rw [Binding.register?, hk]
      exact congrArg VariableKind.register? hkind
    · cases hv
  · cases hv

end Lowering.Initialized

theorem forall₂_mem_right {α β : Type} {R : α → β → Prop} {l : List α} {u : List β}
    (h : List.Forall₂ R l u) : List.Forall₂ (fun a b => b ∈ u ∧ R a b) l u :=
  ((List.forall₂_and_left u l).mpr ⟨fun _ hb => hb, h.flip⟩).flip

/-- The required parameters of a procedure are those that its scope declares. -/
theorem Function.formals_positional (f : Function) : f.formals.positional =
    ((f.scope.arguments .required).map fun a => ⟨a.2.1, a.2.2, none⟩) ++
      f.parameters.optional.map fun p => ⟨p.name, p.register, p.default⟩ := by
  refine congrArg (· ++ _) ?_
  rw [Scope.arguments, List.map_filterMap]
  conv_lhs => rw [← List.zipIdx_map_fst 0 f.scope.bindings, List.filterMap_map]
  refine congrArg (List.filterMap · _) (funext ?_)
  rintro ⟨b, slot⟩
  simp only [Function.comp, Binding.argument?]
  cases b.kind with
  | primitive p => rfl
  | «variable» k =>
    cases k with
    | argument r k => cases k <;> rfl
    | localVariable r => rfl
    | global => rfl
    | captured d r => rfl

/-- A default and the literal that computes it. -/
def Function.DefaultAt (f : Function) (outer : List Scope) (literals : List (Literal Template))
    (index : Nat) (d : Function) : Prop :=
  Lowering.TemplateAt literals index d ∧ d.Scoped (f.scope :: outer)

namespace Lowering.Initialized

variable {f : Function} {outer : List Scope} {slots : List Variable} {kind : ParameterKind}
  {literals : List (Literal Template)}

theorem defaulted_matches
    (h : Initialized f.scope (f.parameters.optional ++ f.parameters.keys) slots literals)
    (hf : f.Scoped outer) {ps : List (OptionalParameter Function)}
    (hps : ps.map OptionalParameter.entry = f.scope.arguments kind)
    (hsub : ps ⊆ f.parameters.optional ++ f.parameters.keys) :
    List.Forall₂ (Formal.Matches (f.DefaultAt outer literals))
      ((slots.filterMap (Variable.argument? kind)).map fun v => ⟨v.1.name, v.2, v.1.initializer⟩)
      (ps.map fun p => ⟨p.name, p.register, p.default⟩) := by
  have hall := h.forall₂_arguments hf.valid kind
  rw [← hps, List.forall₂_map_right_iff] at hall
  rw [List.forall₂_map_left_iff, List.forall₂_map_right_iff]
  refine (forall₂_mem_right hall).imp fun v p ⟨hp, hr, hname, hslot⟩ => ⟨hname, hr, ?_⟩
  obtain ⟨u, hu, hd⟩ := h.given p (hsub hp)
  obtain rfl : u = v.1 := Option.some.inj (hu.symm.trans hslot)
  exact optionRel_mono hd fun index d hmem hd => ⟨hd, hf.default (hsub hp) hmem⟩

theorem required_matches
    (h : Initialized f.scope (f.parameters.optional ++ f.parameters.keys) slots literals)
    (hf : f.Scoped outer) :
    List.Forall₂ (Formal.Matches (f.DefaultAt outer literals))
      ((slots.filterMap (Variable.argument? .required)).map fun v =>
        ⟨v.1.name, v.2, v.1.initializer⟩)
      ((f.scope.arguments .required).map fun a => ⟨a.2.1, a.2.2, none⟩) := by
  rw [List.forall₂_map_left_iff, List.forall₂_map_right_iff]
  refine (forall₂_mem_right (h.forall₂_arguments hf.valid .required)).imp fun v a ⟨ha, hr, hname, hslot⟩ =>
    ⟨hname, hr, ?_⟩
  obtain ⟨b, hb, -, hkind⟩ := Scope.mem_arguments.mp ha
  have hnone : v.1.initializer = none := by
    refine h.missing a.1 v.1 hslot fun p hp heq => ?_
    obtain hp | hp := List.mem_append.mp hp
    · obtain ⟨b', hb', -, hkind'⟩ := hf.declared.optional_binding hp
      obtain rfl : b = b' := Option.some.inj (hb.symm.trans (heq ▸ hb'))
      exact nomatch Binding.argument?_unique hkind hkind'
    · obtain ⟨b', hb', -, hkind'⟩ := hf.declared.key_binding hp
      obtain rfl : b = b' := Option.some.inj (hb.symm.trans (heq ▸ hb'))
      exact nomatch Binding.argument?_unique hkind hkind'
  dsimp only
  rw [hnone]
  exact .none

variable {t : Template} {code : Code} {c : Builder}

/-- The parameters of a template take arguments as those of its procedure. -/
theorem formals_matches
    (h : Initialized f.scope (f.parameters.optional ++ f.parameters.keys) slots literals)
    (hf : f.Scoped outer) (ha : Assembles f slots code c t) :
    t.formals.Matches (f.DefaultAt outer literals) f.formals where
  required := ha.required
  positional := by
    have hparameters (kind : ParameterKind) :
        t.parameters kind = slots.filterMap (Variable.argument? kind) := by
      rw [Template.parameters, ha.slots]
      rfl
    rw [f.formals_positional, Template.formals, hparameters, hparameters, List.map_append]
    exact List.rel_append (h.required_matches hf)
      (h.defaulted_matches hf hf.declared.optional (List.subset_append_left _ _))
  takesKeys := by
    rw [Template.formals, Function.formals, ha.keys]
    cases f.parameters.keys <;> simp
  keys := by
    have hparameters : t.parameters .key = slots.filterMap (Variable.argument? .key) := by
      rw [Template.parameters, ha.slots]
      rfl
    rw [Template.formals, hparameters]
    exact h.defaulted_matches hf hf.declared.keys (List.subset_append_right _ _)
  rest := ha.rest

theorem formals_within
    (h : Initialized f.scope (f.parameters.optional ++ f.parameters.keys) slots literals)
    (hf : f.Scoped outer) (ha : Assembles f slots code c t) :
    t.formals.Within f.scope.registers := by
  have hparameters (kind : ParameterKind) (v : Variable × Register)
      (hv : v ∈ t.parameters kind) : v.2.val < f.scope.registers := by
    rw [Template.parameters, ha.slots] at hv
    exact h.argument_lt hf.valid hv
  refine ⟨fun p hp => ?_, fun p hp => ?_, fun r hr => ?_⟩
  · obtain ⟨v, hv, rfl⟩ := List.mem_map.mp hp
    exact (List.mem_append.mp hv).elim (hparameters _ v) (hparameters _ v)
  · obtain ⟨v, hv, rfl⟩ := List.mem_map.mp hp
    exact hparameters _ v hv
  · have hrest : r ∈ f.parameters.rest.toList := Option.mem_toList.mpr (ha.rest ▸ hr)
    rw [hf.declared.rest] at hrest
    obtain ⟨a, ha, rfl⟩ := List.mem_map.mp hrest
    exact hf.valid.argument_lt ha

end Lowering.Initialized

end RegisterScheme
