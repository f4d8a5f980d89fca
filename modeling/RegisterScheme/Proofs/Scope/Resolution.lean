import RegisterScheme.Expr.Variables
import RegisterScheme.Proofs.Outcome
import RegisterScheme.Proofs.Scope.Growth

/-! Looking names up and binding them keeps the scopes as they should be, whatever the name, and
never breaks off with a fault. The answer means a binding of that name in the innermost scope. -/

namespace RegisterScheme

/-- What a variable of a scope is called. -/
def VariableRef.Names (name : String) (v : VariableRef) (scopes : List Scope) : Prop :=
  ∃ s, scopes.head? = some s ∧
    match v with
    | .localVariable r => s.Holds name r
    | .global slot => s.bindings[slot]? = some ⟨name, .variable .global⟩
    | .captured slot => ∃ d r, s.bindings[slot]? = some ⟨name, .variable (.captured d r)⟩

theorem VariableRef.Names.grow {name : String} {v : VariableRef} {a b : List Scope}
    (h : v.Names name a) (hg : ScopesGrow a b) : v.Names name b := by
  obtain ⟨s, hs, h⟩ := h
  cases hg with
  | nil => cases hs
  | cons hst _ =>
    cases hs
    refine ⟨_, rfl, ?_⟩
    cases v with
    | localVariable r => exact h.grows hst
    | global slot => exact hst.getElem? h
    | captured slot =>
      obtain ⟨d, r, h⟩ := h
      exact ⟨d, r, hst.getElem? h⟩

/-- A computation inside a procedure: it extends the scopes and has no fault. -/
abbrev Resolves {α : Type} (c : ScopeChain) (act : Resolving α) (Q : α → ScopeChain → Prop) :
    Prop :=
  Keeps ScopeChain.Extends (fun f => f.IsError) c act Q

namespace Scope

theorem not_holds_of_binds_eq_false {s : Scope} {name : String} (h : s.binds name = false)
    (r : Register) : ¬ s.Holds name r := by
  rintro ⟨b, hb, hn, -⟩
  exact binds_eq_false.mp h b hb hn

/-- A binding without a register is the only one of its name. -/
theorem Valid.not_holds {s : Scope} (hs : s.Valid) {b : Binding} (hb : b ∈ s.bindings)
    (hr : b.register? = none) (r : Register) : ¬ s.Holds b.name r := by
  rintro ⟨b', hb', hn, hr'⟩
  rw [hs.binding_unique hb' hb hn, hr] at hr'
  cases hr'

theorem Leads.grows {s t : Scope} {name : String} {d : Nat} {r : Register}
    (h : s.Leads name d r) (hg : s.Grows t) : t.Leads name d r :=
  h.imp (fun h => ⟨h.1, h.2.grows hg⟩) fun h => hg.bindings.subset h

theorem imports_add {s : Scope} {name : String} {k : VariableKind} (hk : k.register? = none) :
    s.Imports (s.add ⟨name, .variable k⟩) where
  toGrows := grows_add s _
  arguments kind := by
    have hb : Binding.argument? kind ⟨name, .variable k⟩ = none := by
      cases k <;> first | rfl | cases hk
    rw [arguments_append (t := s.add ⟨name, .variable k⟩) rfl, hb]
    simp
  holds n r := by
    rintro ⟨b, hb, hn, hr⟩
    obtain hb | hb := List.mem_append.mp hb
    · exact ⟨b, hb, hn, hr⟩
    · rw [List.mem_singleton.mp hb] at hr
      cases hk.symm.trans hr

/-- What a scope satisfies stays true while the others import more. -/
theorem Inside.imports {s : Scope} {outer outer' : List Scope} (h : s.Inside outer)
    (ho : List.Forall₂ Imports outer outer') : s.Inside outer' where
  valid := h.valid
  captures name distance r hb := by
    obtain ⟨o, d, hho, hd, hl⟩ := h.captures name distance r hb
    cases ho with
    | nil => cases hho
    | cons hi _ =>
      cases hho
      exact ⟨_, d, rfl, hd, hl.grows hi.toGrows⟩
  globals name hb hn o ho' r hh := by
    obtain ⟨i, hi⟩ := List.mem_iff_getElem?.mp ho'
    obtain ⟨p, hp, hpo⟩ := forall₂_getElem? ho.flip hi
    exact h.globals name hb hn p (List.mem_of_getElem? hp) r (hpo.holds name r hh)

theorem Inside.add_captured {s : Scope} {outer : List Scope} (h : s.Inside outer) {name : String}
    {d : Nat} {r : Register} (hn : s.binds name = false) {o : Scope} (ho : outer.head? = some o)
    (hl : o.Leads name d r) : (s.add ⟨name, .variable (.captured (d + 1) r)⟩).Inside outer where
  valid := h.valid.add hn rfl
  captures n distance q hb := by
    obtain hb | hb := List.mem_append.mp hb
    · exact h.captures n distance q hb
    · cases List.mem_singleton.mp hb
      exact ⟨o, d, ho, rfl, hl⟩
  globals n hb := by
    obtain hb | hb := List.mem_append.mp hb
    · exact h.globals n hb
    · cases List.mem_singleton.mp hb

theorem Inside.add_global {s : Scope} {outer : List Scope} (h : s.Inside outer) {name : String}
    (hn : s.binds name = false)
    (ho : name ∈ templateProcedures ∨ ∀ o ∈ outer, ∀ r, ¬ o.Holds name r) :
    (s.add ⟨name, .variable .global⟩).Inside outer where
  valid := h.valid.add hn rfl
  captures n distance q hb := by
    obtain hb | hb := List.mem_append.mp hb
    · exact h.captures n distance q hb
    · cases List.mem_singleton.mp hb
  globals n hb ht := by
    obtain hb | hb := List.mem_append.mp hb
    · exact h.globals n hb ht
    · cases List.mem_singleton.mp hb
      exact ho.resolve_left ht

theorem Inside.addRegister {s : Scope} {outer : List Scope} (h : s.Inside outer) {name : String}
    {k : VariableKind} {r : Register} (hn : s.binds name = false) (hk : k.register? = some r)
    (hr : r.val = s.registers) (hlt : s.registers < maxRegisters) :
    (s.addRegister ⟨name, .variable k⟩).Inside outer where
  valid := h.valid.addRegister hn hk hr hlt
  captures n distance q hb := by
    obtain hb | hb := List.mem_append.mp hb
    · exact h.captures n distance q hb
    · cases List.mem_singleton.mp hb
      cases hk
  globals n hb := by
    obtain hb | hb := List.mem_append.mp hb
    · exact h.globals n hb
    · cases List.mem_singleton.mp hb
      cases hk

theorem Inside.shadow {s : Scope} {outer : List Scope} (h : s.Inside outer) (name : String) :
    (s.shadow name).Inside outer where
  valid := h.valid.shadow name
  captures := by simpa using h.captures
  globals := by simpa using h.globals

end Scope

namespace ScopeChain

theorem findIn_eq_none {name : String} {scopes : List Scope} (h : findIn name scopes = none) :
    ∀ s ∈ scopes, s.binds name = false := by
  induction scopes with
  | nil => simp
  | cons s outer ih =>
    unfold findIn at h
    cases hf : s.find? name with
    | some found => simp [hf] at h
    | none =>
      simp only [hf, Option.map_eq_none_iff] at h
      exact List.forall_mem_cons.mpr ⟨Scope.find?_eq_none.mp hf, ih h⟩

/-- The scope that is found binds the name, and none further in does. -/
theorem findIn_eq_some {name : String} {scopes : List Scope} {distance slot : Nat} {b : Binding}
    (h : findIn name scopes = some (distance, slot, b)) :
    b.name = name ∧ (∃ s, scopes[distance]? = some s ∧ s.bindings[slot]? = some b) ∧
      ∀ i < distance, ∀ s, scopes[i]? = some s → s.binds name = false := by
  induction scopes generalizing distance with
  | nil => cases h
  | cons s outer ih =>
    unfold findIn at h
    cases hf : s.find? name with
    | some found =>
      simp only [hf, Option.some.injEq, Prod.mk.injEq] at h
      obtain ⟨rfl, rfl, rfl⟩ := h
      obtain ⟨hb, hn⟩ := Scope.find?_eq_some hf
      exact ⟨hn, ⟨s, rfl, hb⟩, fun i hi => absurd hi (Nat.not_lt_zero i)⟩
    | none =>
      simp only [hf, Option.map_eq_some_iff, Prod.mk.injEq] at h
      obtain ⟨⟨d, found⟩, hd, rfl, rfl⟩ := h
      obtain ⟨hn, hs, hi⟩ := ih hd
      refine ⟨hn, hs, fun i hid t ht => ?_⟩
      cases i with
      | zero =>
        cases ht
        exact Scope.find?_eq_none.mp hf
      | succ i => exact hi i (Nat.lt_of_succ_lt_succ hid) t ht

/-- Captures make their way in from the scope that leads to the variable. -/
theorem capture_imports {name : String} {r : Register} {n owner : Nat} {scopes : List Scope}
    (hv : ScopesValid scopes) (hn : ∀ i < n, ∀ s, scopes[i]? = some s → s.binds name = false)
    (ho : ∃ o d, scopes[n]? = some o ∧ o.Leads name d r ∧ owner = n + d) :
    List.Forall₂ Scope.Imports scopes (capture name r n owner scopes).2 ∧
      ScopesValid (capture name r n owner scopes).2 ∧
      ∀ slot, (capture name r n owner scopes).1 = .ok slot →
        ∃ s, (capture name r n owner scopes).2.head? = some s ∧ s.Leads name owner r ∧
          (n = 0 ∨ s.bindings[slot]? = some ⟨name, .variable (.captured owner r)⟩) := by
  induction n generalizing owner scopes with
  | zero =>
    obtain ⟨o, d, ho, hl, rfl⟩ := ho
    have hz : capture name r 0 (0 + d) scopes = (.ok 0, scopes) := by simp only [capture]
    rw [hz]
    refine ⟨List.forall₂_same.mpr fun s _ => .refl s, hv, fun slot _ => ⟨o, ?_, ?_, .inl rfl⟩⟩
    · rwa [List.head?_eq_getElem?]
    · rwa [Nat.zero_add]
  | succ n ih =>
    obtain ⟨o, d, ho, hl, rfl⟩ := ho
    cases scopes with
    | nil => cases ho
    | cons s outer =>
      have hne : n + 1 + d - 1 = n + d := by omega
      have hrest := ih hv.2 (fun i hin t ht => hn (i + 1) (by omega) t ht) ⟨o, d, ho, hl, rfl⟩
      obtain ⟨hi, hvo, hok⟩ := hrest
      have hs : s.Inside (capture name r n (n + d) outer).2 := hv.1.imports hi
      have hb : s.binds name = false := hn 0 (by omega) s rfl
      simp only [capture, hne]
      cases hc : capture name r n (n + d) outer with
      | mk res outer' =>
        rw [hc] at hi hvo hok hs
        cases res with
        | error e => exact ⟨.cons (.refl s) hi, ⟨hs, hvo⟩, fun slot h => by cases h⟩
        | ok inner =>
          dsimp only
          split
          · exact ⟨.cons (.refl s) hi, ⟨hs, hvo⟩, fun slot h => by cases h⟩
          · obtain ⟨o', ho', hl', -⟩ := hok inner rfl
            rw [Scope.define_of_not_binds _ _ hb]
            have hd : n + 1 + d = n + d + 1 := by omega
            refine ⟨.cons (Scope.imports_add rfl) hi, ⟨?_, hvo⟩, fun slot h => ?_⟩
            · rw [hd]
              exact hs.add_captured hb ho' hl'
            · cases h
              refine ⟨_, rfl, .inr (List.mem_append_right _ (List.mem_singleton_self _)), .inr ?_⟩
              simp [Scope.add]

end ScopeChain

end RegisterScheme
