import RegisterScheme.Proofs.Scope.Links

/-! What may be done to a chain of scopes from outside, in any order. Whether an operation succeeds
or fails, the scopes stay linked, and while there is a scope none meets a broken invariant. -/

namespace RegisterScheme

open ScopeChain

/-- A computation on one scope that keeps what it has changed when it fails. -/
abbrev Scoping := EStateM Error Scope

namespace Scoping

def ofStep {α : Type} (f : Scope → Except Error (α × Scope)) : Scoping α := fun s =>
  match f s with
  | .ok (a, t) => .ok a t
  | .error e => .error e s

/-- The steps by which a name is bound to the next register, each of which changes the scope. -/
def defineRegister (name : String) (kind : Register → VariableKind) (location : Option Location) :
    Scoping (Nat × Register) := do
  if (← get).binds name then throw (.malformed ⟨.alreadyBound name, none, location⟩)
  let register ← ofStep Scope.allocate
  let slot ← ofStep (·.define name (.variable (kind register)) location)
  return (slot, register)

/-- No step fails once a register is taken, so the steps change the scope together or not at all. -/
theorem defineRegister_eq (name : String) (kind : Register → VariableKind)
    (location : Option Location) :
    defineRegister name kind location = ofStep (·.defineRegister name kind location) := by
  funext s
  have hget : (get : Scoping Scope) s = .ok s s := rfl
  rw [defineRegister, bind_of_ok hget]
  by_cases hb : s.binds name
  · simp only [ofStep, Scope.defineRegister, if_pos hb]
    rfl
  rw [if_neg hb]
  by_cases hr : s.registers < maxRegisters
  · have hb' : Scope.binds { s with registers := s.registers + 1 } name = false := by
      simpa [Scope.binds] using hb
    have hdefine (kind : BindingKind) := Scope.define_of_not_binds kind location hb'
    simp only [ofStep, Scope.defineRegister, Scope.allocate, if_neg hb, dif_pos hr, hdefine,
      bind, EStateM.bind, Except.bind, pure, EStateM.pure, Except.pure]
  · simp only [ofStep, Scope.defineRegister, Scope.allocate, if_neg hb, dif_neg hr,
      bind, EStateM.bind, Except.bind]

end Scoping

namespace ScopeChain

inductive Operation where
  | push
  | pop
  | defineArgument (name : String) (parameter : ParameterKind) (location : Option Location)
  | defineLocal (name : String) (location : Option Location)
  | allocateRegister
  | bindGlobal (name : String)
  | resolve (name : String)
  | shadowPrimitive (name : String)
  | definePrimitive (name : String) (primitive : Primitive) (location : Option Location)

/-- An operation, whatever it answers. -/
def Operation.act : Operation → Resolving Unit
  | push => Resolving.push
  | pop => do let _ ← Resolving.pop
  | defineArgument name parameter location => do
    let _ ← Resolving.defineArgument name parameter location
  | defineLocal name location => do let _ ← Resolving.defineLocal name location
  | allocateRegister => do let _ ← Resolving.allocateRegister
  | bindGlobal name => do let _ ← Resolving.bindGlobal name
  | resolve name => do let _ ← Resolving.resolve name
  | shadowPrimitive name => Resolving.shadowPrimitive name
  | definePrimitive name primitive location => do
    let _ ← Resolving.update (·.define name (.primitive primitive) location)

/-- A chain after an operation, also after one that fails. -/
def perform (c : ScopeChain) (op : Operation) : ScopeChain :=
  match op.act c with
  | .ok _ d => d
  | .error _ d => d

variable {c : ScopeChain}

theorem exists_owner (h : ScopesLinked c.scopes) {distance slot further : Nat} {s : Scope}
    {name : String} {r : Register} (hs : c.scopes[distance]? = some s)
    (hb : s.bindings[slot]? = some ⟨name, .variable (.captured further r)⟩) :
    distance + further < c.depth := by
  obtain ⟨hlt, rfl⟩ := List.getElem?_eq_some_iff.mp hs
  have hlinked := h.drop distance
  rw [List.drop_eq_getElem_cons hlt] at hlinked
  obtain ⟨d, rfl, ⟨o, ho, -⟩, -⟩ := hlinked.captured (List.mem_of_getElem? hb)
  have hd := (List.getElem?_eq_some_iff.mp ho).1
  rw [List.length_drop] at hd
  simp only [depth]
  omega

end ScopeChain

/-- A computation that leaves the scopes linked, also when it fails, and has no fault. -/
abbrev Linking {α : Type} (c : ScopeChain) (act : Resolving α) : Prop :=
  Leaves c act (fun _ d => ScopesLinked d.scopes) fun e d => e.IsError ∧ ScopesLinked d.scopes

theorem Linking.andThen {α β : Type} {c : ScopeChain} {act : Resolving α} (h : Linking c act)
    (f : α → β) : Linking c (act >>= fun a => pure (f a)) :=
  Leaves.bind h fun _ _ hd => .pure hd

namespace Resolving

variable {α : Type} {c : ScopeChain} {s : Scope} {outer : List Scope}

theorem linking_update (hs : c.scopes = s :: outer) (h : ScopesLinked c.scopes)
    {f : Scope → Except Error (α × Scope)}
    (hf : ∀ a t, s.Linked outer → f s = .ok (a, t) → t.Linked outer) :
    Linking c (update f) := by
  have hl : ScopesLinked (s :: outer) := hs ▸ h
  have hact := update_eq hs (f := f)
  cases hfs : f s with
  | ok p =>
    rw [hfs] at hact
    exact .answers hact ⟨hf p.1 p.2 hl.1 hfs, hl.2⟩
  | error e =>
    rw [hfs] at hact
    exact .fails hact ⟨trivial, h⟩

theorem linking_defineRegister (hs : c.scopes = s :: outer) (h : ScopesLinked c.scopes)
    (name : String) (kind : Register → VariableKind) (hk : ∀ r, (kind r).register? = some r)
    (location : Option Location) : Linking c (update (·.defineRegister name kind location)) := by
  refine linking_update hs h fun p t hl hf => ?_
  obtain ⟨hn, hlt, hr, -, rfl⟩ := Scope.defineRegister_eq_ok hf
  refine hl.append (hl.ordered.addRegister (b := ⟨name, .variable (kind p.2)⟩) hn (hk p.2) hr hlt)
    rfl fun distance r hkind => ?_
  have hregister := hk p.2
  rw [BindingKind.variable.inj hkind] at hregister
  cases hregister

theorem linking_define (hs : c.scopes = s :: outer) (h : ScopesLinked c.scopes) (name : String)
    {kind : BindingKind} (hk : Binding.register? ⟨name, kind⟩ = none)
    (hc : ∀ distance r, kind ≠ .variable (.captured distance r)) (location : Option Location) :
    Linking c (update (·.define name kind location)) := by
  refine linking_update hs h fun slot t hl hf => ?_
  obtain ⟨hn, -, rfl⟩ := Scope.define_eq_ok hf
  exact hl.append (hl.ordered.add (b := ⟨name, kind⟩) hn hk) rfl hc

theorem linking_allocate (hs : c.scopes = s :: outer) (h : ScopesLinked c.scopes) :
    Linking c allocateRegister := by
  refine linking_update hs h fun r t hl hf => ?_
  unfold Scope.allocate at hf
  split at hf
  · rename_i hlt
    cases hf
    exact hl.of_bindings (hl.ordered.skipRegister hlt) fun _ _ _ hb => hb
  · cases hf

theorem linking_shadow (hs : c.scopes = s :: outer) (h : ScopesLinked c.scopes) (name : String) :
    Linking c (shadowPrimitive name) := by
  refine linking_update hs h fun _ t hl hf => ?_
  cases hf
  exact hl.of_bindings (hl.ordered.shadow name) fun _ _ _ hb => by rwa [s.shadow_bindings] at hb

theorem linking_bindGlobal (hs : c.scopes = s :: outer) (h : ScopesLinked c.scopes)
    (name : String) : Linking c (bindGlobal name) := by
  have hcurrent : current c = .ok s c := by
    rw [current, bind_of_ok (x := get) (s := c) rfl, hs]
    rfl
  refine Leaves.bind (.answers (Q := fun t d => s = t ∧ c = d) hcurrent ⟨rfl, rfl⟩) ?_
  rintro _ _ ⟨rfl, rfl⟩
  split
  · exact .pure h
  · exact .throw ⟨trivial, h⟩
  · exact linking_define hs h name rfl (by simp) none

theorem linking_captureFrom (h : ScopesLinked c.scopes) {name : String} {distance owner : Nat}
    {r : Register} (hn : ∀ i < distance, ∀ s, c.scopes[i]? = some s → s.binds name = false)
    (ho : ∃ o d, c.scopes[distance]? = some o ∧ o.Leads name d r ∧ owner = distance + d) :
    Linking c (captureFrom name distance owner r) := by
  obtain ⟨-, hlinked, -⟩ := capture_linked h hn ho
  cases hr : (capture name r distance owner c.scopes).1 with
  | ok slot => exact .answers (captureFrom_of_ok hr) hlinked
  | error e => exact .fails (captureFrom_of_error hr) ⟨trivial, hlinked⟩

/-- A name that is found leads to its owner, so that the captures it takes are linked. -/
theorem linking_resolve (hs : c.scopes = s :: outer) (h : ScopesLinked c.scopes) (name : String) :
    Linking c (resolve name) := by
  have hglobal := linking_bindGlobal hs h name
  refine Leaves.bind (.answers (Q := fun a d => c = a ∧ c = d) rfl ⟨rfl, rfl⟩) ?_
  rintro _ _ ⟨rfl, rfl⟩
  cases hf : findIn name c.scopes with
  | none =>
    dsimp only
    rw [if_neg (by simp [hs])]
    split
    · exact .pure h
    · exact Linking.andThen hglobal _
  | some found =>
    obtain ⟨distance, slot, ⟨n, kind⟩⟩ := found
    obtain ⟨hname, ⟨o, ho, hb⟩, hi⟩ := findIn_eq_some hf
    obtain rfl : n = name := hname
    have hmem := List.mem_of_getElem? hb
    have hcapture {r : Register} (hr : Binding.register? ⟨n, kind⟩ = some r) :
        Linking c (captureFrom n distance distance r) :=
      linking_captureFrom h hi ⟨o, 0, ho, .inl ⟨rfl, _, hmem, rfl, hr⟩, rfl⟩
    dsimp only
    split
    case h_3 => exact Linking.andThen hglobal _
    case h_7 => exact hcapture rfl
    case h_8 => exact hcapture rfl
    case h_9 =>
      rw [if_neg (Nat.not_le.mpr (exists_owner h ho hb))]
      exact linking_captureFrom h hi ⟨o, _, ho, .inr hmem, rfl⟩
    all_goals exact .pure h

end Resolving

namespace ScopeChain

variable {c : ScopeChain}

/-- While there is a scope, no operation meets a broken invariant. -/
theorem linking_act (hne : c.scopes ≠ []) (h : ScopesLinked c.scopes) (op : Operation) :
    Linking c op.act := by
  obtain ⟨s, outer, hs⟩ := List.exists_cons_of_ne_nil hne
  cases op with
  | push => exact .answers (a := ()) rfl ⟨.empty _, h⟩
  | pop =>
    have hl : ScopesLinked (s :: outer) := hs ▸ h
    exact Linking.andThen (.answers (Resolving.pop_of_cons hs) hl.2) _
  | defineArgument name parameter location =>
    exact .andThen (Resolving.linking_defineRegister hs h name _ (fun _ => rfl) location) _
  | defineLocal name location =>
    exact .andThen (Resolving.linking_defineRegister hs h name _ (fun _ => rfl) location) _
  | allocateRegister => exact .andThen (Resolving.linking_allocate hs h) _
  | bindGlobal name => exact .andThen (Resolving.linking_bindGlobal hs h name) _
  | resolve name => exact .andThen (Resolving.linking_resolve hs h name) _
  | shadowPrimitive name => exact Resolving.linking_shadow hs h name
  | definePrimitive name primitive location =>
    exact .andThen (Resolving.linking_define hs h name rfl (by simp) location) _

/-- Without a scope there is nothing to do but to enter one. -/
theorem perform_of_nil (hs : c.scopes = []) (op : Operation) :
    c.perform op = c ∨ (c.perform op).scopes = [.empty] := by
  obtain ⟨primitives, scopes, nextObject⟩ := c
  subst hs
  cases op with
  | push => exact .inr rfl
  | _ => exact .inl rfl

/-- One operation leaves the scopes linked. -/
theorem perform_linked (h : ScopesLinked c.scopes) (op : Operation) :
    ScopesLinked (c.perform op).scopes := by
  by_cases hne : c.scopes = []
  · obtain hop | hd := perform_of_nil hne op
    · rw [hop]
      exact h
    · rw [hd]
      exact ⟨.empty _, hne ▸ h⟩
  · have hact := linking_act hne h op
    unfold perform
    cases hop : op.act c with
    | ok _ d => exact hact.of_ok hop
    | error e d => exact (hact.of_error hop).2

/-- Any number of operations leave the scopes linked. -/
theorem foldl_perform_linked (h : ScopesLinked c.scopes) (ops : List Operation) :
    ScopesLinked (ops.foldl perform c).scopes := by
  induction ops generalizing c with
  | nil => exact h
  | cons op ops ih => exact ih (perform_linked h op)

end ScopeChain

end RegisterScheme
