import RegisterScheme.Expr.Procedure
import RegisterScheme.Proofs.Expr.Scoped
import RegisterScheme.Proofs.Scope.Lookup

/-! References, the targets of definitions, and procedures: what is resolved in a scope is scoped
there for good. -/

namespace RegisterScheme

open ScopeChain

variable {α : Type} {c : ScopeChain}

/-- The innermost scope of the second chain has one more parameter than that of the first. -/
def ScopeChain.Adds (c d : ScopeChain) (kind : ParameterKind) (entry : Nat × String × Register) :
    Prop :=
  ∃ s t, c.scopes.head? = some s ∧ d.scopes.head? = some t ∧
    ∀ k, t.arguments k = s.arguments k ++ if kind = k then [entry] else []

theorem ScopeChain.Adds.of_extends {b c d : ScopeChain} {kind : ParameterKind}
    {entry : Nat × String × Register} (h : b.Extends c) (ha : c.Adds d kind entry) :
    b.Adds d kind entry := by
  obtain ⟨s, t, hs, ht, hst⟩ := ha
  rw [List.head?_eq_getElem?] at hs
  obtain ⟨r, hr, hrs⟩ := forall₂_getElem? h.scopes.flip hs
  exact ⟨r, t, by rwa [List.head?_eq_getElem?], ht, fun k => hrs.arguments k ▸ hst k⟩

/-- A computation that may declare parameters of the innermost scope; it has no fault. -/
abbrev Declaring {α : Type} (c : ScopeChain) (act : Resolving α) (Q : α → ScopeChain → Prop) :
    Prop :=
  Keeps ScopeChain.Declares (fun f => f.IsError) c act Q

theorem Resolves.declaring {act : Resolving α} {Q : α → ScopeChain → Prop}
    (h : Resolves c act Q) : Declaring c act Q := by
  cases ha : act c with
  | ok a d =>
    obtain ⟨hd, hq⟩ := h.of_ok ha
    exact .answers ha hd.declares hq
  | error e d =>
    obtain ⟨hd, he⟩ := h.of_error ha
    exact .fails ha hd.declares he

namespace Resolving

theorem literal_keeps (d : Datum) (s : Sexpr) :
    Resolves c (literal d s) fun e c => Lasting e.Scoped c :=
  ⟨⟨rfl, ScopesExtend.refl _, fun hc => ⟨hc.ne_nil, hc.valid⟩⟩, fun _ _ => .literal⟩

theorem global_keeps (hc : c.Sound) {name : String} (s : Sexpr)
    (ho : name ∈ Scope.templateProcedures ∨ ∀ o ∈ c.scopes.tail, ∀ r, ¬ o.Holds name r) :
    Resolves c (global name s) fun v d => v.Names name d.scopes :=
  Keeps.bind (located_keeps (bindGlobal_keeps hc ho) s.location) fun _ d _ hs =>
    .pure (.refl d) hs

theorem variableRef_keeps (hc : c.Sound) (name : String) (s : Sexpr) :
    Resolves c (variableRef name s) fun v d => v.Names name d.scopes := by
  refine Keeps.bind (located_keeps (resolve_keeps hc name) s.location) fun res d h hres => ?_
  cases res with
  | localVariable r slot => exact .pure (.refl d) hres
  | global slot => exact .pure (.refl d) hres
  | captured slot => exact .pure (.refl d) hres
  | primitive p =>
    obtain ⟨rfl, hn⟩ := hres
    cases p with
    | form f => exact invalid_keeps
    | operator op =>
      dsimp only
      split
      · exact global_keeps hc s (.inr fun o ho =>
          Scope.not_holds_of_binds_eq_false (hn o (List.mem_of_mem_tail ho)))
      · exact invalid_keeps

theorem definitionTarget_keeps (hc : c.Sound) (name : String) (s : Sexpr) :
    Resolves c (definitionTarget name s) fun v d => v.Names name d.scopes := by
  refine Keeps.bind (P := fun a d => a = c ∧ d = c) ⟨.refl c, rfl, rfl⟩ ?_
  rintro _ c h ⟨rfl, rfl⟩
  split
  case isTrue htop =>
    have ho : c.scopes.tail = [] := by
      simp only [isTopLevel, depth, beq_iff_eq] at htop
      exact List.eq_nil_of_length_eq_zero (by simp [htop])
    refine Keeps.bind (global_keeps hc s (.inr (by simp [ho]))) fun v d hd hv => ?_
    dsimp only
    split
    · refine Keeps.bind (shadowPrimitive_keeps (hd.sound hc) name) fun _ e he _ => ?_
      exact .pure (.refl e) (hv.grow he.scopes.grow)
    · exact .pure (.refl d) hv
  case isFalse =>
    refine Keeps.bind (current_keeps hc) ?_
    rintro s _ h ⟨rfl, hs⟩
    split
    case h_1 hf =>
      obtain ⟨hb, rfl⟩ := Scope.find?_eq_some hf
      exact .pure h ⟨s, hs, _, List.mem_of_getElem? hb, rfl, rfl⟩
    case h_2 => exact invalid_keeps
    case h_3 => exact invalid_keeps
    case h_4 =>
      exact Keeps.bind (defineLocal_keeps hc name _) fun p d _ hp => .pure (.refl d) hp

theorem defineArgument_keeps (hc : c.Sound) (name : String) (kind : ParameterKind)
    (location : Option Location) :
    Declaring c (defineArgument name kind location) fun p d =>
      c.Adds d kind (p.1, name, p.2) := by
  obtain ⟨s, outer, hs⟩ := hc.exists_head
  refine update_keeps hs (.refl c) ?_
  rintro ⟨slot, r⟩ t hf
  obtain ⟨hn, hlt, hr, rfl, rfl⟩ := Scope.defineRegister_eq_ok hf
  refine ⟨⟨rfl, ?_, ?_, fun hc => ?_⟩, s, _, by rw [hs]; rfl, rfl, fun k => ?_⟩
  · exact hs ▸ .cons (Scope.grows_addRegister _ _) (ScopesGrow.refl outer)
  · rw [hs]
    exact ScopesExtend.refl outer
  · obtain ⟨hin, ho⟩ := hc.inside hs
    exact ⟨List.cons_ne_nil _ _, hin.addRegister hn rfl hr hlt, ho⟩
  · rw [Scope.arguments_append (t := s.addRegister _) rfl]
    simp only [Binding.argument?]
    split <;> rfl

theorem inScope_of_ok {act : Resolving α} {a : α} {d : ScopeChain} {s : Scope} {outer : List Scope}
    (h : act { c with scopes := .empty :: c.scopes } = .ok a d) (hs : d.scopes = s :: outer) :
    inScope act c = .ok (a, s) { d with scopes := outer } := by
  rw [inScope, bind_of_ok (x := push) (s := c) rfl, bind_of_ok (tryCatch_of_ok h),
    bind_of_ok (pop_of_cons hs)]
  rfl

theorem inScope_of_error {act : Resolving α} {e : Failure} {d : ScopeChain} {s : Scope}
    {outer : List Scope} (h : act { c with scopes := .empty :: c.scopes } = .error e d)
    (hs : d.scopes = s :: outer) : inScope act c = .error e { d with scopes := outer } := by
  rw [inScope, bind_of_ok (x := push) (s := c) rfl]
  refine bind_of_error ?_
  rw [tryCatch_of_error h, bind_of_ok (pop_of_cons hs)]
  rfl

/-- A new scope is finished and gone afterwards; the others have grown. -/
theorem inScope_keeps {act : Resolving α} {P : α → ScopeChain → Prop}
    {Q : α × Scope → ScopeChain → Prop}
    (hact : Declaring { c with scopes := .empty :: c.scopes } act P)
    (hq : ∀ a d s outer, d.scopes = s :: outer → P a d → Q (a, s) { d with scopes := outer }) :
    Resolves c (inScope act) Q := by
  have hpop {d : ScopeChain} {s : Scope} {outer : List Scope}
      (hd : Declares { c with scopes := .empty :: c.scopes } d) (hs : d.scopes = s :: outer) :
      c.Extends { d with scopes := outer } := by
    have ho := hd.outer
    rw [hs] at ho
    refine ⟨hd.primitives, ho, fun hc => ?_⟩
    have hsound := hd.sound ⟨List.cons_ne_nil _ _, Scope.inside_empty _, hc.valid⟩
    refine ⟨fun hnil => hc.ne_nil ?_, (hsound.inside hs).2⟩
    have hl := ho.length_eq
    rw [List.tail_cons, List.tail_cons, show outer = [] from hnil] at hl
    exact List.length_eq_zero_iff.mp hl
  have hhead {d : ScopeChain} (hd : Declares { c with scopes := .empty :: c.scopes } d) :
      ∃ s outer, d.scopes = s :: outer := by
    obtain ⟨s, outer, -, -, hs⟩ := List.forall₂_cons_left_iff.mp hd.scopes
    exact ⟨s, outer, hs⟩
  cases ha : act { c with scopes := .empty :: c.scopes } with
  | ok a d =>
    obtain ⟨hd, hp⟩ := hact.of_ok ha
    obtain ⟨s, outer, hs⟩ := hhead hd
    exact .answers (inScope_of_ok ha hs) (hpop hd hs) (hq a d s outer hs hp)
  | error e d =>
    obtain ⟨hd, he⟩ := hact.of_error ha
    obtain ⟨s, outer, hs⟩ := hhead hd
    exact .fails (inScope_of_error ha hs) (hpop hd hs) he

end Resolving

end RegisterScheme
