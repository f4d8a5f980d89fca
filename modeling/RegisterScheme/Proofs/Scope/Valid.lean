import Mathlib.Data.List.Nodup
import RegisterScheme.Scope.Basic

/-! What every scope satisfies by itself, and what a definition does to it. A binding that is made
stays in its slot, and the registers of variables are handed out in order. -/

namespace RegisterScheme

/-- The register of a parameter of a kind. -/
def Binding.argument? (kind : ParameterKind) (b : Binding) : Option Register :=
  match b.kind with
  | .variable (.argument r k) => if k = kind then some r else none
  | _ => none

/-- A binding is a parameter of one kind only. -/
theorem Binding.argument?_unique {b : Binding} {k k' : ParameterKind} {r r' : Register}
    (h : b.argument? k = some r) (h' : b.argument? k' = some r') : k = k' := by
  unfold argument? at h h'
  split at h
  · rename_i hb
    simp only [hb, Option.ite_none_right_eq_some] at h h'
    exact h.1.symm.trans h'.1
  · cases h

theorem Binding.register?_of_argument? {b : Binding} {kind : ParameterKind} {r : Register}
    (h : b.argument? kind = some r) : b.register? = some r := by
  unfold argument? at h
  split at h
  · rename_i hk
    rw [Option.ite_none_right_eq_some] at h
    rw [register?, hk, ← h.2]
    rfl
  · cases h

namespace Scope

/-- A scope holds a name in a register if an argument or a local of that name lies there. -/
def Holds (s : Scope) (name : String) (r : Register) : Prop :=
  ∃ b ∈ s.bindings, b.name = name ∧ b.register? = some r

/-- The parameters of a kind in order, with their slots, names and registers. -/
def arguments (s : Scope) (kind : ParameterKind) : List (Nat × String × Register) :=
  s.bindings.zipIdx.filterMap fun (b, slot) => (b.argument? kind).map fun r => (slot, b.name, r)

/-- The registers of arguments and locals, in the order of their slots. -/
def taken (s : Scope) : List Register := s.bindings.filterMap Binding.register?

/-- Names are bound once, to variables; registers are handed out in order and fit into a
frame. -/
structure Valid (s : Scope) : Prop where
  names : (s.bindings.map Binding.name).Nodup
  kinds : ∀ b ∈ s.bindings, ∃ k, b.kind = .variable k
  ascending : s.taken.Pairwise (· < ·)
  taken_lt : ∀ r ∈ s.taken, r.val < s.registers
  registers_le : s.registers ≤ maxRegisters

/-- A scope with perhaps more bindings and registers. -/
structure Grows (s t : Scope) : Prop where
  bindings : s.bindings <+: t.bindings
  registers : s.registers ≤ t.registers
  shadowed : s.shadowed <+: t.shadowed

theorem Grows.refl (s : Scope) : s.Grows s :=
  ⟨List.prefix_rfl, Nat.le_refl _, List.prefix_rfl⟩

theorem Grows.trans {s t u : Scope} (h : s.Grows t) (h' : t.Grows u) : s.Grows u :=
  ⟨h.bindings.trans h'.bindings, Nat.le_trans h.registers h'.registers,
    h.shadowed.trans h'.shadowed⟩

theorem Grows.getElem? {s t : Scope} (h : s.Grows t) {slot : Nat} {b : Binding}
    (hb : s.bindings[slot]? = some b) : t.bindings[slot]? = some b := by
  rw [← hb]
  exact (List.prefix_iff_getElem?.mp h.bindings) slot (List.getElem?_eq_some_iff.mp hb).1 |>.trans
    (List.getElem?_eq_getElem _).symm

theorem Holds.grows {s t : Scope} {name : String} {r : Register} (h : s.Holds name r)
    (hg : s.Grows t) : t.Holds name r := by
  obtain ⟨b, hb, hn, hr⟩ := h
  exact ⟨b, hg.bindings.subset hb, hn, hr⟩

theorem Valid.holds_lt {s : Scope} (hs : s.Valid) {name : String} {r : Register}
    (h : s.Holds name r) : r.val < s.registers := by
  obtain ⟨b, hb, -, hr⟩ := h
  exact hs.taken_lt r (List.mem_filterMap.mpr ⟨b, hb, hr⟩)

/-- In a valid scope a name is bound in one way. -/
theorem Valid.binding_unique {s : Scope} (hs : s.Valid) {b b' : Binding} (hb : b ∈ s.bindings)
    (hb' : b' ∈ s.bindings) (hn : b.name = b'.name) : b = b' :=
  List.inj_on_of_nodup_map hs.names hb hb' hn

theorem valid_empty : empty.Valid where
  names := List.nodup_nil
  kinds := by simp [empty]
  ascending := List.Pairwise.nil
  taken_lt := by simp [empty, taken]
  registers_le := by simp [empty]

theorem binds_eq_false {s : Scope} {name : String} :
    s.binds name = false ↔ ∀ b ∈ s.bindings, b.name ≠ name := by
  simp only [binds, List.any_eq_false, beq_iff_eq, ne_eq]

theorem find?_eq_some {s : Scope} {name : String} {slot : Nat} {b : Binding}
    (h : s.find? name = some (slot, b)) : s.bindings[slot]? = some b ∧ b.name = name := by
  simp only [find?, Option.bind_eq_some_iff, Option.map_eq_some_iff, Prod.mk.injEq] at h
  obtain ⟨i, hi, b, hb, rfl, rfl⟩ := h
  obtain ⟨hlt, hp, -⟩ := List.findIdx?_eq_some_iff_getElem.mp hi
  rw [List.getElem?_eq_getElem hlt, Option.some.injEq] at hb
  exact ⟨hb ▸ List.getElem?_eq_getElem hlt, hb ▸ beq_iff_eq.mp hp⟩

theorem find?_eq_none {s : Scope} {name : String} :
    s.find? name = none ↔ s.binds name = false := by
  constructor
  · intro h
    simp only [find?, Option.bind_eq_none_iff, Option.map_eq_none_iff] at h
    cases hi : s.bindings.findIdx? fun b => b.name == name with
    | none =>
      rw [List.findIdx?_eq_none_iff] at hi
      exact binds_eq_false.mpr fun b hb => by simpa using hi b hb
    | some i =>
      obtain ⟨hlt, -⟩ := List.findIdx?_eq_some_iff_getElem.mp hi
      have := h i hi
      rw [List.getElem?_eq_none_iff] at this
      omega
  · intro h
    have hi : (s.bindings.findIdx? fun b => b.name == name) = none :=
      List.findIdx?_eq_none_iff.mpr fun b hb => by simpa using binds_eq_false.mp h b hb
    simp only [find?, hi, Option.bind_none]

/-- A scope with one more binding. -/
def add (s : Scope) (b : Binding) : Scope := { s with bindings := s.bindings ++ [b] }

/-- A scope with one more register and a variable in it. -/
def addRegister (s : Scope) (b : Binding) : Scope :=
  { s with bindings := s.bindings ++ [b], registers := s.registers + 1 }

theorem define_eq_ok {s t : Scope} {name : String} {kind : BindingKind}
    {location : Option Location} {slot : Nat} (h : s.define name kind location = .ok (slot, t)) :
    s.binds name = false ∧ slot = s.bindings.length ∧ t = s.add ⟨name, kind⟩ := by
  unfold define at h
  by_cases hb : s.binds name
  · rw [if_pos hb] at h
    cases h
  · rw [if_neg hb, Except.ok.injEq, Prod.mk.injEq] at h
    exact ⟨by simpa using hb, h.1.symm, h.2.symm⟩

theorem define_of_not_binds {s : Scope} {name : String} (kind : BindingKind)
    (location : Option Location) (h : s.binds name = false) :
    s.define name kind location = .ok (s.bindings.length, s.add ⟨name, kind⟩) := by
  unfold define
  rw [if_neg (by simp [h])]
  rfl

theorem defineRegister_eq_ok {s t : Scope} {name : String} {kind : Register → VariableKind}
    {location : Option Location} {slot : Nat} {r : Register}
    (h : s.defineRegister name kind location = .ok ((slot, r), t)) :
    s.binds name = false ∧ s.registers < maxRegisters ∧ r.val = s.registers ∧
      slot = s.bindings.length ∧ t = s.addRegister ⟨name, .variable (kind r)⟩ := by
  unfold defineRegister at h
  by_cases hb : s.binds name
  · rw [if_pos hb] at h
    cases h
  · rw [if_neg hb] at h
    by_cases hr : s.registers < maxRegisters
    · simp only [allocate, dif_pos hr] at h
      have hb' : Scope.binds { s with registers := s.registers + 1 } name = false := by
        simpa [binds] using hb
      simp only [bind, Except.bind, pure, Except.pure,
        define_of_not_binds _ _ hb', Except.ok.injEq, Prod.mk.injEq] at h
      obtain ⟨⟨rfl, rfl⟩, rfl⟩ := h
      exact ⟨by simpa using hb, hr, rfl, rfl, rfl⟩
    · simp only [allocate, dif_neg hr] at h
      cases h

/-- A new binding is found under its name, and the others as before. -/
theorem find?_add {s : Scope} {b : Binding} {name : String} (hn : s.binds b.name = false) :
    (s.add b).find? name = if name = b.name then some (s.bindings.length, b) else s.find? name := by
  unfold find? add
  split
  · subst name
    have hi : (s.bindings.findIdx? fun b' => b'.name == b.name) = none :=
      List.findIdx?_eq_none_iff.mpr fun b' hb => by simpa using binds_eq_false.mp hn b' hb
    simp [List.findIdx?_append, hi]
  · rename_i hne
    rw [List.findIdx?_append]
    cases hi : s.bindings.findIdx? fun b' => b'.name == name with
    | none => simp [List.findIdx?_cons, Ne.symm hne]
    | some i =>
      have hlt := (List.findIdx?_eq_some_iff_getElem.mp hi).1
      simp [List.getElem?_append_left hlt]

theorem grows_add (s : Scope) (b : Binding) : s.Grows (s.add b) :=
  ⟨List.prefix_append _ _, Nat.le_refl _, List.prefix_rfl⟩

theorem grows_addRegister (s : Scope) (b : Binding) : s.Grows (s.addRegister b) :=
  ⟨List.prefix_append _ _, Nat.le_succ _, List.prefix_rfl⟩

theorem grows_shadow (s : Scope) (name : String) : s.Grows (s.shadow name) := by
  unfold shadow
  split
  · exact .refl s
  · exact ⟨List.prefix_rfl, Nat.le_refl _, List.prefix_append _ _⟩

@[simp] theorem shadow_bindings (s : Scope) (name : String) :
    (s.shadow name).bindings = s.bindings := by
  unfold shadow
  split <;> rfl

@[simp] theorem shadow_registers (s : Scope) (name : String) :
    (s.shadow name).registers = s.registers := by
  unfold shadow
  split <;> rfl

@[simp] theorem arguments_empty (kind : ParameterKind) : empty.arguments kind = [] := rfl

theorem mem_arguments {s : Scope} {kind : ParameterKind} {slot : Nat} {name : String}
    {r : Register} : (slot, name, r) ∈ s.arguments kind ↔
      ∃ b, s.bindings[slot]? = some b ∧ b.name = name ∧ b.argument? kind = some r := by
  simp only [arguments, List.mem_filterMap, Prod.exists, List.mem_zipIdx_iff_getElem?,
    Option.map_eq_some_iff, Prod.mk.injEq]
  constructor
  · rintro ⟨b, i, hb, q, hq, rfl, rfl, rfl⟩
    exact ⟨b, hb, rfl, hq⟩
  · rintro ⟨b, hb, rfl, hr⟩
    exact ⟨b, slot, hb, r, hr, rfl, rfl, rfl⟩

theorem Valid.argument_lt {s : Scope} (hs : s.Valid) {kind : ParameterKind}
    {a : Nat × String × Register} (ha : a ∈ s.arguments kind) : a.2.2.val < s.registers := by
  obtain ⟨b, hb, -, hr⟩ := mem_arguments.mp ha
  exact hs.taken_lt _ (List.mem_filterMap.mpr
    ⟨b, List.mem_of_getElem? hb, Binding.register?_of_argument? hr⟩)

/-- Parameters of one kind lie in different slots. -/
theorem arguments_nodup (s : Scope) (kind : ParameterKind) :
    ((s.arguments kind).map Prod.fst).Nodup := by
  have hslots : s.bindings.zipIdx.Pairwise fun p q => p.2 ≠ q.2 := by
    rw [← List.pairwise_map (f := Prod.snd) (R := (· ≠ ·)), List.zipIdx_map_snd]
    exact List.nodup_range'
  refine List.pairwise_map.mpr (List.Pairwise.filterMap _ ?_ hslots)
  rintro ⟨b, i⟩ ⟨b', i'⟩ hne a ha a' ha'
  obtain ⟨r, -, rfl⟩ := Option.map_eq_some_iff.mp ha
  obtain ⟨r', -, rfl⟩ := Option.map_eq_some_iff.mp ha'
  exact hne

theorem arguments_congr {s t : Scope} (h : s.bindings = t.bindings) (kind : ParameterKind) :
    s.arguments kind = t.arguments kind := by
  simp only [arguments, h]

theorem arguments_append {s t : Scope} {b : Binding} (h : t.bindings = s.bindings ++ [b])
    (kind : ParameterKind) :
    t.arguments kind = s.arguments kind ++
      ((b.argument? kind).map fun r => (s.bindings.length, b.name, r)).toList := by
  simp only [arguments, h, List.zipIdx_append, List.filterMap_append, List.zipIdx_singleton,
    Nat.zero_add]
  cases hb : b.argument? kind <;> simp [hb]

/-- What a scope satisfies whatever is bound in it: names are bound once; registers are handed out in
order and fit into a frame. -/
structure Ordered (s : Scope) : Prop where
  names : (s.bindings.map Binding.name).Nodup
  ascending : s.taken.Pairwise (· < ·)
  taken_lt : ∀ r ∈ s.taken, r.val < s.registers
  registers_le : s.registers ≤ maxRegisters

namespace Ordered

variable {s : Scope} {b : Binding}

theorem empty : Scope.empty.Ordered :=
  ⟨List.nodup_nil, List.Pairwise.nil, by simp [Scope.empty, taken], Nat.zero_le _⟩

theorem names_append (hs : s.Ordered) (hn : s.binds b.name = false) :
    ((s.bindings ++ [b]).map Binding.name).Nodup := by
  rw [List.map_append, List.nodup_append]
  refine ⟨hs.names, List.nodup_singleton _, ?_⟩
  intro n hb n' hn'
  obtain ⟨b', hb', rfl⟩ := List.mem_map.mp hb
  rw [List.map_singleton, List.mem_singleton] at hn'
  exact hn' ▸ binds_eq_false.mp hn b' hb'

theorem add (hs : s.Ordered) (hn : s.binds b.name = false) (hr : b.register? = none) :
    (s.add b).Ordered := by
  have htaken : (s.add b).taken = s.taken := by simp [taken, Scope.add, hr]
  exact ⟨hs.names_append hn, htaken ▸ hs.ascending, htaken ▸ hs.taken_lt, hs.registers_le⟩

theorem addRegister (hs : s.Ordered) {r : Register} (hn : s.binds b.name = false)
    (hb : b.register? = some r) (hr : r.val = s.registers) (hlt : s.registers < maxRegisters) :
    (s.addRegister b).Ordered := by
  have htaken : (s.addRegister b).taken = s.taken ++ [r] := by
    simp [taken, Scope.addRegister, hb]
  refine ⟨hs.names_append hn, ?_, ?_, hlt⟩
  · rw [htaken, List.pairwise_append]
    refine ⟨hs.ascending, List.pairwise_singleton _ _, ?_⟩
    intro q hq q' hq'
    rw [List.mem_singleton.mp hq', Fin.lt_def, hr]
    exact hs.taken_lt q hq
  · intro q hq
    rw [htaken] at hq
    obtain hq | hq := List.mem_append.mp hq
    · exact Nat.lt_succ_of_lt (hs.taken_lt q hq)
    · rw [List.mem_singleton.mp hq, hr]
      exact Nat.lt_succ_self _

/-- A register that is handed out and left without a variable. -/
theorem skipRegister (hs : s.Ordered) (hlt : s.registers < maxRegisters) :
    Ordered { s with registers := s.registers + 1 } :=
  ⟨hs.names, hs.ascending, fun r hr => Nat.lt_succ_of_lt (hs.taken_lt r hr), hlt⟩

theorem shadow (hs : s.Ordered) (name : String) : (s.shadow name).Ordered := by
  have htaken : (s.shadow name).taken = s.taken := by simp only [taken, shadow_bindings]
  exact ⟨by simpa using hs.names, htaken ▸ hs.ascending, by simpa [htaken] using hs.taken_lt,
    by simpa using hs.registers_le⟩

/-- A name is found in the slot in which it was bound. -/
theorem find?_eq (hs : s.Ordered) {slot : Nat} (hb : s.bindings[slot]? = some b) :
    s.find? b.name = some (slot, b) := by
  obtain ⟨hslot, rfl⟩ := List.getElem?_eq_some_iff.mp hb
  cases hf : s.find? s.bindings[slot].name with
  | none =>
    have hunbound := binds_eq_false.mp (find?_eq_none.mp hf)
    exact absurd rfl (hunbound _ (List.getElem_mem hslot))
  | some found =>
    obtain ⟨i, b'⟩ := found
    obtain ⟨hi, hn⟩ := find?_eq_some hf
    obtain ⟨hlt, rfl⟩ := List.getElem?_eq_some_iff.mp hi
    have hi' : i < (s.bindings.map Binding.name).length := by simpa using hlt
    have hslot' : slot < (s.bindings.map Binding.name).length := by simpa using hslot
    have hsame : (s.bindings.map Binding.name)[i] = (s.bindings.map Binding.name)[slot] := by
      simpa using hn
    obtain rfl := hs.names.getElem_inj_iff.mp hsame
    rfl

/-- No two variables share a register. -/
theorem taken_nodup (hs : s.Ordered) : s.taken.Nodup :=
  hs.ascending.imp Fin.ne_of_lt

end Ordered

theorem Valid.ordered {s : Scope} (hs : s.Valid) : s.Ordered :=
  ⟨hs.names, hs.ascending, hs.taken_lt, hs.registers_le⟩

theorem Ordered.valid {s : Scope} (hs : s.Ordered)
    (hk : ∀ b ∈ s.bindings, ∃ k, b.kind = .variable k) : s.Valid :=
  ⟨hs.names, hk, hs.ascending, hs.taken_lt, hs.registers_le⟩

/-- All bindings are variables if the others and the last are. -/
theorem Valid.kinds_append {s : Scope} (hs : s.Valid) (name : String) (k : VariableKind) :
    ∀ b ∈ s.bindings ++ [⟨name, .variable k⟩], ∃ k', b.kind = .variable k' := by
  intro b hb
  obtain hb | hb := List.mem_append.mp hb
  · exact hs.kinds b hb
  · exact ⟨k, by rw [List.mem_singleton.mp hb]⟩

theorem Valid.add {s : Scope} (hs : s.Valid) {name : String} {k : VariableKind}
    (hn : s.binds name = false) (hk : k.register? = none) :
    (s.add ⟨name, .variable k⟩).Valid :=
  (hs.ordered.add (b := ⟨name, .variable k⟩) hn hk).valid (hs.kinds_append name k)

theorem Valid.addRegister {s : Scope} (hs : s.Valid) {name : String} {k : VariableKind}
    {r : Register} (hn : s.binds name = false) (hk : k.register? = some r)
    (hr : r.val = s.registers) (hlt : s.registers < maxRegisters) :
    (s.addRegister ⟨name, .variable k⟩).Valid :=
  (hs.ordered.addRegister (b := ⟨name, .variable k⟩) hn hk hr hlt).valid (hs.kinds_append name k)

theorem Valid.shadow {s : Scope} (hs : s.Valid) (name : String) : (s.shadow name).Valid :=
  (hs.ordered.shadow name).valid (by simpa using hs.kinds)

end Scope

end RegisterScheme
