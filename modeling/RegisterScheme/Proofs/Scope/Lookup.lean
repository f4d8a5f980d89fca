import RegisterScheme.Proofs.Scope.Resolution

/-! The computations over a chain of scopes: changes of the innermost scope, and the search for a
name. -/

namespace RegisterScheme

open ScopeChain

variable {α : Type} {c : ScopeChain}

namespace ScopeChain

theorem Sound.exists_head (hc : c.Sound) : ∃ s outer, c.scopes = s :: outer :=
  List.exists_cons_of_ne_nil hc.ne_nil

theorem Sound.inside (hc : c.Sound) {s : Scope} {outer : List Scope}
    (hs : c.scopes = s :: outer) : s.Inside outer ∧ ScopesValid outer := by
  have h := hc.valid
  rwa [hs] at h

theorem Sound.inside_at (hc : c.Sound) {d : Nat} {s : Scope} (hs : c.scopes[d]? = some s) :
    ∃ outer, c.scopes.drop d = s :: outer ∧ s.Inside outer ∧ ScopesValid outer := by
  have hv := hc.valid.drop d
  have hlt := (List.getElem?_eq_some_iff.mp hs).1
  rw [List.drop_eq_getElem_cons hlt, (List.getElem?_eq_some_iff.mp hs).2] at hv
  exact ⟨_, by rw [List.drop_eq_getElem_cons hlt, (List.getElem?_eq_some_iff.mp hs).2], hv⟩

/-- A captured variable belongs to a scope of the chain. -/
theorem Sound.captured_lt (hc : c.Sound) {d further slot : Nat} {s : Scope} {name : String}
    {r : Register} (hs : c.scopes[d]? = some s)
    (hb : s.bindings[slot]? = some ⟨name, .variable (.captured further r)⟩) :
    d + further < c.depth := by
  obtain ⟨outer, hd, hin⟩ := hc.inside_at hs
  obtain ⟨e, o, rfl, ho, -⟩ := ScopesValid.captured hin (List.mem_of_getElem? hb)
  have hlt := (List.getElem?_eq_some_iff.mp ho).1
  have hl := congrArg List.length hd
  rw [List.length_drop, List.length_cons] at hl
  simp only [depth]
  omega

/-- A change of the innermost scope that brings no new parameters. -/
theorem extends_head {s t : Scope} {outer : List Scope} (hs : c.scopes = s :: outer)
    (h : s.Extends t) (hi : s.Inside outer → t.Inside outer) :
    c.Extends { c with scopes := t :: outer } where
  primitives := rfl
  scopes := hs ▸ .cons h (ScopesExtend.refl outer)
  sound hc := ⟨List.cons_ne_nil _ _, hi (hc.inside hs).1, (hc.inside hs).2⟩

/-- A name that is declared neither here nor further out. -/
theorem Sound.not_holds_of_global (hc : c.Sound) {name : String} {d slot : Nat} {s : Scope}
    (hs : c.scopes[d]? = some s) (hb : s.bindings[slot]? = some ⟨name, .variable .global⟩)
    (hn : name ∉ Scope.templateProcedures)
    (hi : ∀ i < d, ∀ t, c.scopes[i]? = some t → t.binds name = false) :
    ∀ o ∈ c.scopes, ∀ r, ¬ o.Holds name r := by
  have hv := hc.valid
  intro o ho r
  generalize c.scopes = scopes at hs hi ho hv
  induction scopes generalizing d with
  | nil => cases ho
  | cons t outer ih =>
    cases d with
    | zero =>
      cases hs
      have hb := List.mem_of_getElem? hb
      obtain rfl | ho := List.mem_cons.mp ho
      · exact hv.1.valid.not_holds hb rfl r
      · exact hv.1.globals name hb hn o ho r
    | succ d =>
      obtain rfl | ho := List.mem_cons.mp ho
      · exact Scope.not_holds_of_binds_eq_false (hi 0 (Nat.succ_pos d) o rfl) r
      · exact ih hs (fun i hid => hi (i + 1) (Nat.succ_lt_succ hid)) ho hv.2

end ScopeChain

namespace Resolving

theorem fail_keeps {e : Failure} {Q : α → ScopeChain → Prop} (h : e.IsError) :
    Resolves c (throw e) Q :=
  .throw (.refl c) h

theorem invalid_keeps {cause : Malformed.Cause} {s : Sexpr} {Q : α → ScopeChain → Prop} :
    Resolves c (invalid cause s) Q :=
  fail_keeps trivial

theorem checkArity_keeps (name : String) (arity : Arity) (operands : List Sexpr) (s : Sexpr) :
    Resolves c (checkArity name arity operands s) fun _ _ => arity.accepts operands.length := by
  unfold checkArity
  split
  case isTrue h => exact .pure (.refl c) h
  case isFalse => exact fail_keeps trivial

theorem primitive?_keeps (name : String) :
    Resolves c (primitive? name) fun p d => d = c ∧ p = c.primitive? name :=
  ⟨.refl c, rfl, rfl⟩

theorem located_keeps {act : Resolving α} {Q : α → ScopeChain → Prop} (h : Resolves c act Q)
    (place : Option Location) : Resolves c (located place act) Q :=
  h.tryCatch fun _ d _ he => .throw (.refl d) (Failure.isError_located he place)

theorem current_keeps (hc : c.Sound) :
    Resolves c current fun s d => d = c ∧ c.scopes.head? = some s := by
  obtain ⟨s, outer, hs⟩ := hc.exists_head
  refine .answers (a := s) (t := c) ?_ (.refl c) ⟨rfl, by rw [hs]; rfl⟩
  rw [current, bind_of_ok (x := get) (s := c) rfl, hs]
  rfl

theorem pop_of_cons {s : Scope} {outer : List Scope} (hs : c.scopes = s :: outer) :
    pop c = .ok s { c with scopes := outer } := by
  rw [pop, bind_of_ok (x := get) (s := c) rfl, hs]
  rfl

theorem update_eq {f : Scope → Except Error (α × Scope)} {s : Scope} {outer : List Scope}
    (hs : c.scopes = s :: outer) :
    update f c = match f s with
      | .ok (a, t) => .ok a { c with scopes := t :: outer }
      | .error e => .error (.error e) c := by
  rw [update, bind_of_ok (x := get) (s := c) rfl, hs]
  dsimp only
  cases f s <;> rfl

/-- A change of the innermost scope, given what it does when it succeeds. -/
theorem update_keeps {R : ScopeChain → ScopeChain → Prop} {f : Scope → Except Error (α × Scope)}
    {Q : α → ScopeChain → Prop} {s : Scope} {outer : List Scope} (hs : c.scopes = s :: outer)
    (hr : R c c) (hf : ∀ a t, f s = .ok (a, t) →
      R c { c with scopes := t :: outer } ∧ Q a { c with scopes := t :: outer }) :
    Keeps R (fun e => e.IsError) c (update f) Q := by
  cases hfs : f s with
  | ok p =>
    obtain ⟨hr, hq⟩ := hf p.1 p.2 hfs
    exact .answers (by rw [update_eq hs, hfs]) hr hq
  | error e => exact .fails (e := .error e) (by rw [update_eq hs, hfs]) hr trivial

theorem defineLocal_keeps (hc : c.Sound) (name : String) (location : Option Location) :
    Resolves c (defineLocal name location) fun p d =>
      (VariableRef.localVariable p.2).Names name d.scopes := by
  obtain ⟨s, outer, hs⟩ := hc.exists_head
  refine update_keeps hs (.refl c) ?_
  rintro ⟨slot, r⟩ t hf
  obtain ⟨hn, hlt, hr, rfl, rfl⟩ := Scope.defineRegister_eq_ok hf
  refine ⟨extends_head hs ⟨Scope.grows_addRegister _ _, fun kind => ?_⟩
    fun hi => hi.addRegister hn rfl hr hlt, _, rfl, ⟨name, .variable (.localVariable r)⟩, ?_, rfl, rfl⟩
  · rw [Scope.arguments_append (t := s.addRegister _) rfl]
    simp [Binding.argument?]
  · exact List.mem_append_right _ (List.mem_singleton_self _)

theorem shadowPrimitive_keeps (hc : c.Sound) (name : String) :
    Resolves c (shadowPrimitive name) fun _ _ => True := by
  obtain ⟨s, outer, hs⟩ := hc.exists_head
  refine update_keeps hs (.refl c) ?_
  rintro _ t hf
  cases hf
  refine ⟨extends_head hs ⟨Scope.grows_shadow s name, fun kind => ?_⟩ fun hi => hi.shadow name,
    trivial⟩
  exact Scope.arguments_congr (s.shadow_bindings name) kind

/-- A name may be taken for a global if no scope further out declares it. -/
theorem bindGlobal_keeps (hc : c.Sound) {name : String}
    (ho : name ∈ Scope.templateProcedures ∨ ∀ o ∈ c.scopes.tail, ∀ r, ¬ o.Holds name r) :
    Resolves c (bindGlobal name) fun slot d => (VariableRef.global slot).Names name d.scopes := by
  refine Keeps.bind (current_keeps hc) ?_
  rintro s _ h ⟨rfl, hs⟩
  obtain ⟨s, outer, hso⟩ := hc.exists_head
  obtain rfl : s = _ := by simpa [hso] using hs
  cases hf : s.find? name with
  | none =>
    refine update_keeps hso h fun slot t hd => ?_
    obtain ⟨hn, rfl, rfl⟩ := Scope.define_eq_ok hd
    rw [hso, List.tail_cons] at ho
    exact ⟨extends_head hso (Scope.imports_add rfl).toExtends fun hi => hi.add_global hn ho,
      _, rfl, by simp [Scope.add]⟩
  | some found =>
    obtain ⟨slot, b⟩ := found
    obtain ⟨hb, rfl⟩ := Scope.find?_eq_some hf
    split
    case h_1 heq =>
      cases heq
      exact .pure h ⟨s, hs, hb⟩
    case h_2 => exact fail_keeps trivial
    case h_3 heq => cases heq

theorem captureFrom_of_ok {name : String} {distance owner : Nat} {r : Register} {slot : Nat}
    (h : (capture name r distance owner c.scopes).1 = .ok slot) :
    captureFrom name distance owner r c =
      .ok (.captured slot) { c with scopes := (capture name r distance owner c.scopes).2 } := by
  rw [captureFrom, bind_of_ok (x := get) (s := c) rfl]
  generalize capture name r distance owner c.scopes = captured at h
  obtain ⟨result, scopes⟩ := captured
  obtain rfl : result = .ok slot := h
  rfl

theorem captureFrom_of_error {name : String} {distance owner : Nat} {r : Register} {e : Error}
    (h : (capture name r distance owner c.scopes).1 = .error e) :
    captureFrom name distance owner r c =
      .error (.error e) { c with scopes := (capture name r distance owner c.scopes).2 } := by
  rw [captureFrom, bind_of_ok (x := get) (s := c) rfl]
  generalize capture name r distance owner c.scopes = captured at h
  obtain ⟨result, scopes⟩ := captured
  obtain rfl : result = .error e := h
  rfl

/-- A variable may be captured from a scope that leads to it if none further in binds it. -/
theorem captureFrom_keeps (hc : c.Sound) {name : String} {distance owner : Nat} {r : Register}
    (hd : distance ≠ 0) (hn : ∀ i < distance, ∀ s, c.scopes[i]? = some s → s.binds name = false)
    (ho : ∃ o d, c.scopes[distance]? = some o ∧ o.Leads name d r ∧ owner = distance + d) :
    Resolves c (captureFrom name distance owner r) fun res d => ∃ slot s, res = .captured slot ∧
      d.scopes.head? = some s ∧
      s.bindings[slot]? = some ⟨name, .variable (.captured owner r)⟩ := by
  obtain ⟨hi, hv, hok⟩ := capture_imports hc.valid hn ho
  have he : c.Extends { c with scopes := (capture name r distance owner c.scopes).2 } := by
    refine ⟨rfl, hi.imp fun _ _ h => h.toExtends, fun _ => ⟨?_, hv⟩⟩
    intro hnil
    have hl := hi.length_eq
    rw [show (capture name r distance owner c.scopes).2 = [] from hnil, List.length_nil] at hl
    exact hc.ne_nil (List.length_eq_zero_iff.mp hl)
  cases hr : (capture name r distance owner c.scopes).1 with
  | error e =>
    exact .fails (captureFrom_of_error hr) he trivial
  | ok slot =>
    obtain ⟨s, hs, -, hz | hb⟩ := hok slot hr
    · exact absurd hz hd
    · exact .answers (captureFrom_of_ok hr) he ⟨slot, s, rfl, hs, hb⟩

end Resolving

/-- What a name means after it was looked up. -/
def Resolution.Names (name : String) (c : ScopeChain) (res : Resolution) (d : ScopeChain) : Prop :=
  match res with
  | .primitive _ => d = c ∧ ∀ s ∈ c.scopes, s.binds name = false
  | .localVariable r _ => (VariableRef.localVariable r).Names name d.scopes
  | .global slot => (VariableRef.global slot).Names name d.scopes
  | .captured slot => (VariableRef.captured slot).Names name d.scopes

namespace Resolving

theorem resolve_keeps (hc : c.Sound) (name : String) :
    Resolves c (resolve name) fun res d => res.Names name c d := by
  refine Keeps.bind (P := fun a d => a = c ∧ d = c) ⟨.refl c, rfl, rfl⟩ ?_
  rintro _ c h ⟨rfl, rfl⟩
  cases hf : findIn name c.scopes with
  | none =>
    have hb := findIn_eq_none hf
    rw [if_neg (by simpa using hc.ne_nil)]
    cases hp : c.primitives.find? name with
    | some p => exact .pure h ⟨rfl, hb⟩
    | none =>
      have ho : ∀ o ∈ c.scopes.tail, ∀ r, ¬ o.Holds name r := fun o ho =>
        Scope.not_holds_of_binds_eq_false (hb o (List.mem_of_mem_tail ho))
      exact Keeps.bind (bindGlobal_keeps hc (.inr ho)) fun slot d _ hs => .pure (.refl d) hs
  | some found =>
    obtain ⟨distance, slot, ⟨name, kind⟩⟩ := found
    obtain ⟨rfl, ⟨s, hs, hb⟩, hi⟩ := findIn_eq_some hf
    have hmem := List.mem_of_getElem? hb
    obtain ⟨outer, -, hin, -⟩ := hc.inside_at hs
    obtain ⟨kind, rfl⟩ := hin.valid.kinds _ hmem
    have hleads {r : Register} (hr : kind.register? = some r) : s.Leads name 0 r :=
      .inl ⟨rfl, _, hmem, rfl, hr⟩
    have hhead (hd : distance = 0) : c.scopes.head? = some s := by
      rwa [List.head?_eq_getElem?, ← hd]
    cases kind with
    | global =>
      cases distance with
      | zero => exact .pure h ⟨s, hhead rfl, hb⟩
      | succ d =>
        have ho : name ∈ Scope.templateProcedures ∨
            ∀ o ∈ c.scopes.tail, ∀ r, ¬ o.Holds name r := by
          by_cases hn : name ∈ Scope.templateProcedures
          · exact .inl hn
          · exact .inr fun o ho =>
              hc.not_holds_of_global hs hb hn hi o (List.mem_of_mem_tail ho)
        exact Keeps.bind (bindGlobal_keeps hc ho) fun slot d _ hs => .pure (.refl d) hs
    | argument r k =>
      cases distance with
      | zero => exact .pure h ⟨s, hhead rfl, _, hmem, rfl, rfl⟩
      | succ d =>
        exact (captureFrom_keeps hc (Nat.succ_ne_zero d) hi ⟨s, 0, hs, hleads rfl, rfl⟩).mono
          fun res d _ ⟨slot, s, hres, hs, hb⟩ => hres ▸ ⟨s, hs, _, _, hb⟩
    | localVariable r =>
      cases distance with
      | zero => exact .pure h ⟨s, hhead rfl, _, hmem, rfl, rfl⟩
      | succ d =>
        exact (captureFrom_keeps hc (Nat.succ_ne_zero d) hi ⟨s, 0, hs, hleads rfl, rfl⟩).mono
          fun res d _ ⟨slot, s, hres, hs, hb⟩ => hres ▸ ⟨s, hs, _, _, hb⟩
    | captured further r =>
      cases distance with
      | zero => exact .pure h ⟨s, hhead rfl, further, r, hb⟩
      | succ d =>
        have hlt := hc.captured_lt hs hb
        change Resolves c (if c.depth ≤ d + 1 + further then _ else _) _
        rw [if_neg (Nat.not_le.mpr hlt)]
        exact (captureFrom_keeps hc (Nat.succ_ne_zero d) hi ⟨s, further, hs, .inr hmem, rfl⟩).mono
          fun res d _ ⟨slot, s, hres, hs, hb⟩ => hres ▸ ⟨s, hs, _, _, hb⟩

end Resolving

end RegisterScheme
