import RegisterScheme.Proofs.Scope.Operations

/-! What holds of every chain of scopes, however it came about: in each scope names and registers are
told apart, and a captured variable is where its captures say. Scopes are numbered from the outermost
inward. -/

namespace RegisterScheme

/-- Names and registers of a scope are told apart, and lookup finds every binding in its slot. -/
structure Scope.Distinct (s : Scope) : Prop where
  names : (s.bindings.map Binding.name).Nodup
  slots : ∀ slot b, s.bindings[slot]? = some b → s.find? b.name = some (slot, b)
  registers : s.taken.Nodup
  below : ∀ r ∈ s.taken, r.val < s.registers ∧ r.val ≤ 254

namespace ScopeChain

/-- The scope with a number, which is how many scopes lie around it. -/
def scope? (c : ScopeChain) (number : Nat) : Option Scope := c.scopes.reverse[number]?

/-- A variable of the scope so many scopes further out, captured in the scopes between. -/
structure Captured (c : ScopeChain) (number : Nat) (name : String) (distance : Nat)
    (r : Register) : Prop where
  pos : 1 ≤ distance
  le : distance ≤ number
  owner : ∃ o, c.scope? (number - distance) = some o ∧ o.Holds name r
  between : ∀ i, number - distance < i → i < number → ∃ t, c.scope? i = some t ∧
    ⟨name, .variable (.captured (i - (number - distance)) r)⟩ ∈ t.bindings

variable {c : ScopeChain} {number : Nat} {s : Scope}

theorem getElem?_of_scope? (h : c.scope? number = some s) :
    number < c.depth ∧ c.scopes[c.depth - 1 - number]? = some s := by
  have hlt := (List.getElem?_eq_some_iff.mp h).1
  rw [List.length_reverse] at hlt
  rw [scope?, List.getElem?_reverse hlt] at h
  exact ⟨hlt, h⟩

theorem scope?_of_getElem? {i : Nat} (h : c.scopes[i]? = some s) :
    i < c.depth ∧ c.scope? (c.depth - 1 - i) = some s := by
  have hlt := (List.getElem?_eq_some_iff.mp h).1
  refine ⟨hlt, ?_⟩
  have hnumber : c.depth - 1 - i < c.scopes.length := by
    simp only [depth]
    omega
  have hback : c.scopes.length - 1 - (c.depth - 1 - i) = i := by
    simp only [depth]
    omega
  rw [scope?, List.getElem?_reverse hnumber, hback, h]

theorem captured_of_linked (h : ScopesLinked c.scopes) (hs : c.scope? number = some s)
    {name : String} {distance : Nat} {r : Register}
    (hb : ⟨name, .variable (.captured distance r)⟩ ∈ s.bindings) :
    c.Captured number name distance r := by
  obtain ⟨hnumber, hs⟩ := getElem?_of_scope? hs
  obtain ⟨hlt, rfl⟩ := List.getElem?_eq_some_iff.mp hs
  have hlinked := h.drop (c.depth - 1 - number)
  rw [List.drop_eq_getElem_cons hlt] at hlinked
  obtain ⟨d, rfl, ⟨o, ho, hholds⟩, hbetween⟩ := hlinked.captured hb
  rw [List.getElem?_drop] at ho
  obtain ⟨hd, ho⟩ := scope?_of_getElem? ho
  refine ⟨by omega, by omega, ⟨o, ?_, hholds⟩, fun i hi hin => ?_⟩
  · rwa [show number - (d + 1) = c.depth - 1 - (c.depth - 1 - number + 1 + d) by omega]
  · obtain ⟨t, ht, hmem⟩ := hbetween (number - 1 - i) (by omega)
    rw [List.getElem?_drop] at ht
    have ht := (scope?_of_getElem? ht).2
    rw [show c.depth - 1 - (c.depth - 1 - number + 1 + (number - 1 - i)) = i by omega] at ht
    rw [show d - (number - 1 - i) = i - (number - (d + 1)) by omega] at hmem
    exact ⟨t, ht, hmem⟩

end ScopeChain

theorem Scope.Ordered.distinct {s : Scope} (hs : s.Ordered) : s.Distinct where
  names := hs.names
  slots _ _ hb := hs.find?_eq hb
  registers := hs.taken_nodup
  below r hr := by
    have hlt := hs.taken_lt r hr
    have hle := hs.registers_le
    simp only [maxRegisters] at hle
    exact ⟨hlt, by omega⟩

/-- A name is bound to a new register, or else the scope is as it was. -/
theorem Scoping.defineRegister_error {s t : Scope} {name : String} {kind : Register → VariableKind}
    {location : Option Location} {e : Error}
    (h : Scoping.defineRegister name kind location s = .error e t) : t = s := by
  rw [Scoping.defineRegister_eq, Scoping.ofStep] at h
  split at h
  · cases h
  · exact (EStateM.Result.error.inj h).2.symm

theorem Resolving.update_error {α : Type} {f : Scope → Except Error (α × Scope)} {c d : ScopeChain}
    {e : Failure} (h : Resolving.update f c = .error e d) : d = c := by
  cases hs : c.scopes with
  | nil =>
    rw [Resolving.update, bind_of_ok (x := get) (s := c) rfl, hs] at h
    exact (EStateM.Result.error.inj h).2.symm
  | cons s outer =>
    rw [Resolving.update_eq hs] at h
    split at h
    · cases h
    · exact (EStateM.Result.error.inj h).2.symm

namespace ScopeChain

/-- Whatever is done to a chain of scopes, also in vain, names and registers stay apart in each of
them and captures lead to their variables. A register that cannot be had changes nothing. -/
theorem perform_scopes (primitives : Primitives) (first : Nat) (ops : List Operation) :
    let c := ops.foldl perform (.start primitives first)
    (∀ number s, c.scope? number = some s → s.Distinct ∧
      ∀ name distance r, ⟨name, .variable (.captured distance r)⟩ ∈ s.bindings →
        c.Captured number name distance r) ∧
    (c.scopes ≠ [] → ∀ (op : Operation) e d, op.act c = .error e d → e.IsError) ∧
    (∀ name parameter location e d,
      Resolving.defineArgument name parameter location c = .error e d → d = c) ∧
    (∀ name location e d, Resolving.defineLocal name location c = .error e d → d = c) ∧
    ∀ name kind location s e t, Scoping.defineRegister name kind location s = .error e t → t = s := by
  intro c
  have hstart : ScopesLinked (ScopeChain.start primitives first).scopes := trivial
  have hc : ScopesLinked c.scopes := foldl_perform_linked hstart ops
  refine ⟨fun number s hs => ⟨?_, fun name distance r hb => captured_of_linked hc hs hb⟩,
    fun hne op e d hop => ((linking_act hne hc op).of_error hop).1,
    fun name parameter location e d h => Resolving.update_error h,
    fun name location e d h => Resolving.update_error h,
    fun name kind location s e t h => Scoping.defineRegister_error h⟩
  have hmem : s ∈ c.scopes := List.mem_reverse.mp (List.mem_of_getElem? hs)
  exact (hc.ordered s hmem).distinct

end ScopeChain

end RegisterScheme
