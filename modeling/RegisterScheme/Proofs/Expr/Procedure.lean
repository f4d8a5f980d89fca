import RegisterScheme.Proofs.Expr.Variables

/-! Procedures come out scoped if the expressions inside them do: their scope is new, declares the
parameters in order, and is finished when the body is resolved. -/

namespace RegisterScheme

open ScopeChain

variable {c : ScopeChain}

theorem Sexpr.heightOfItems_le {items : List Sexpr} {n : Nat} :
    heightOfItems items ≤ n ↔ ∀ s ∈ items, s.height ≤ n := by
  induction items with
  | nil => simp [heightOfItems]
  | cons s ss ih => simp only [heightOfItems, Nat.max_le, ih, List.forall_mem_cons]

theorem Sexpr.height_lt_list {s : Sexpr} {items : List Sexpr} {location : Option Location}
    (h : s ∈ items) : s.height < (Sexpr.list items location).height := by
  rw [height]
  exact Nat.lt_succ_of_le (heightOfItems_le.mp (Nat.le_refl _) s h)

theorem Sexpr.height_lt_dotted {s tail : Sexpr} {items : List Sexpr} {location : Option Location}
    (h : s ∈ items) : s.height < (Sexpr.dotted items tail location).height := by
  rw [height]
  have := heightOfItems_le.mp (Nat.le_refl _) s h
  omega

theorem Parameters.DeclaredIn.extends {p : Parameters Function} {c d : ScopeChain}
    (h : p.DeclaredIn c) (hcd : c.Extends d) : p.DeclaredIn d := by
  refine ⟨?_, fun q hq f hf => (h.defaults q hq f hf).mono hcd.scopes.grow⟩
  obtain ⟨s, hs, hp⟩ := h.declared
  rw [List.head?_eq_getElem?] at hs
  obtain ⟨t, ht, hst⟩ := forall₂_getElem? hcd.scopes hs
  exact ⟨t, by rwa [List.head?_eq_getElem?], hp.congr hst.arguments⟩

namespace Resolving

/-- A computation that resolves an expression of the innermost scope. -/
abbrev ResolvesExpr (c : ScopeChain) (act : Resolving Expr) : Prop :=
  Resolves c act fun e d => Lasting e.Scoped d

/-- A resolution of the expressions of at most a given height. -/
def Expands (expand : Expand) (n : Nat) : Prop :=
  ∀ (c : ScopeChain) (s : Sexpr), c.Sound → s.height ≤ n → ResolvesExpr c (expand s)

variable {expand : Expand} {n : Nat}

theorem mapM_expand_keeps (he : Expands expand n) (hc : c.Sound) {forms : List Sexpr}
    (hf : ∀ s ∈ forms, s.height ≤ n) :
    Resolves c (forms.mapM expand) fun es d =>
      es.length = forms.length ∧ ∀ e ∈ es, Lasting e.Scoped d :=
  Keeps.mapM (fun _ _ _ h ht => h.mono ht.scopes.grow) fun s hs d hd => he d s (hd.sound hc) (hf s hs)

theorem sequence_keeps (he : Expands expand n) (hc : c.Sound) {forms : List Sexpr}
    (hf : ∀ s ∈ forms, s.height ≤ n) (location : Option Location) :
    ResolvesExpr c (sequence expand forms location) := by
  unfold sequence
  split
  · exact he c _ hc (hf _ List.mem_cons_self)
  · exact Keeps.bind (mapM_expand_keeps he hc hf) fun es d _ hes =>
      .pure (.refl d) fun scopes hs => .sequence fun e hm => hes.2 e hm scopes hs

mutual

theorem declareDefinitions_keeps {c : ScopeChain} (hc : c.Sound) :
    (forms : List Sexpr) → Resolves c (declareDefinitions forms) fun _ _ => True
  | [] => by
    rw [declareDefinitions]
    exact .pure (.refl c) trivial
  | form :: forms => by
    rw [declareDefinitions]
    exact Keeps.bind (declareDefinition_keeps hc form) fun _ d hd _ =>
      declareDefinitions_keeps (hd.sound hc) forms

theorem declareDefinition_keeps {c : ScopeChain} (hc : c.Sound) :
    (form : Sexpr) → Resolves c (declareDefinition form) fun _ _ => True
  | .list (.identifier head l :: operands) location => by
    rw [declareDefinition]
    refine Keeps.bind (primitive?_keeps head) ?_
    rintro p c h ⟨rfl, -⟩
    split
    · split
      · exact Keeps.bind (defineLocal_keeps hc _ location) fun _ d _ _ => .pure (.refl d) trivial
      · exact .pure h trivial
    · exact declareDefinitions_keeps hc operands
    · exact .pure h trivial
  | .list [] _ | .list (.literal _ _ :: _) _ | .list (.list _ _ :: _) _
  | .list (.dotted _ _ _ :: _) _ | .list (.vector _ _ :: _) _ | .literal _ _ | .identifier _ _
  | .dotted _ _ _ | .vector _ _ => by
    unfold declareDefinition
    exact .pure (.refl c) trivial

end

theorem body_keeps (he : Expands expand n) (hc : c.Sound) {forms : List Sexpr}
    (hf : ∀ s ∈ forms, s.height ≤ n) (location : Option Location) :
    ResolvesExpr c (body expand forms location) :=
  Keeps.bind (declareDefinitions_keeps hc forms) fun _ _ hd _ =>
    sequence_keeps he (hd.sound hc) hf location

theorem parameterName_keeps (s : Sexpr) : Resolves c (parameterName s) fun _ d => d = c := by
  unfold parameterName
  split
  · exact .pure (.refl c) rfl
  · exact invalid_keeps

/-- What a parameter list is made of is part of it. -/
theorem parameterItems_keeps (s : Sexpr) :
    Resolves c (parameterItems s) fun p d =>
      d = c ∧ ∀ item ∈ p.1, item.height < s.height := by
  unfold parameterItems
  split
  · exact .pure (.refl c) ⟨rfl, by simp⟩
  · exact .pure (.refl c) ⟨rfl, fun _ hi => Sexpr.height_lt_list hi⟩
  · exact .pure (.refl c) ⟨rfl, fun _ hi => Sexpr.height_lt_dotted hi⟩
  · exact invalid_keeps

theorem none_declaredIn {d : ScopeChain} {outer : List Scope} (hs : d.scopes = .empty :: outer) :
    Parameters.DeclaredIn .none d where
  declared := ⟨.empty, by rw [hs]; rfl, rfl, rfl, rfl, rfl⟩
  defaults := by simp [Parameters.none]

/-- A procedure is scoped when its scope is finished. -/
theorem finished_scoped {d : ScopeChain} {p : Parameters Function} {b : Expr} {s : Scope}
    {outer : List Scope} (hp : p.DeclaredIn d) (hb : Lasting b.Scoped d) (hd : d.Sound)
    (hs : d.scopes = s :: outer) (name : Option String) (location : Option Location) :
    Lasting (Function.Scoped ⟨name, p, s, b, location⟩) { d with scopes := outer } := by
  intro scopes hg
  obtain ⟨hin, ho⟩ := hd.inside hs
  obtain ⟨s', hs', hdecl⟩ := hp.declared
  obtain rfl : s = s' := by simpa [hs] using hs'
  have hgrow : ScopesGrow d.scopes (s :: scopes) := hs ▸ .cons (.refl s) hg
  have hcap : s.Captures outer := fun _ _ _ hb => ScopesValid.captured ⟨hin, ho⟩ hb
  refine .intro hin.valid (hcap.grow hg) hdecl ?_ (hb _ hgrow)
  exact fun q hq f hf => hp.defaults q hq f hf _ hgrow

/-- A procedure is scoped if its parameters are declared and its body is resolved inside it. -/
theorem procedure_keeps {name : Option String} {location : Option Location}
    {declare : Resolving (Parameters Function)} {build : Resolving Expr} (hc : ScopesValid c.scopes)
    (hd : ∀ d : ScopeChain, d.Sound → d.scopes = .empty :: c.scopes →
      Declaring d declare fun p e => p.DeclaredIn e)
    (hb : ∀ d : ScopeChain, d.Sound → ResolvesExpr d build) :
    Resolves c (procedure name location declare build) fun f d => Lasting f.Scoped d := by
  have hs : Sound { c with scopes := .empty :: c.scopes } :=
    ⟨List.cons_ne_nil _ _, Scope.inside_empty _, hc⟩
  refine Keeps.bind (P := fun a d => Lasting
    (fun scopes => ∃ s, a.2 = s ∧ Function.Scoped ⟨name, a.1.1, s, a.1.2, location⟩ scopes) d) ?_ ?_
  · refine inScope_keeps (P := fun a d => a.1.DeclaredIn d ∧ Lasting a.2.Scoped d ∧ d.Sound) ?_ ?_
    · refine Keeps.bind (hd _ hs rfl) fun p d hsd hp => ?_
      have hsound := hsd.sound hs
      have hbody := (hb d hsound).mono (Q := fun b e => p.DeclaredIn e ∧ Lasting b.Scoped e)
        fun b e hde hbs => ⟨hp.extends hde, hbs⟩
      refine Keeps.bind (Resolves.declaring hbody) fun b e hde ⟨hp, hbs⟩ => ?_
      exact .pure (.refl e) ⟨hp, hbs, hde.sound hsound⟩
    · rintro ⟨p, b⟩ d s outer hds ⟨hp, hbs, hsound⟩ scopes hg
      exact ⟨s, rfl, finished_scoped hp hbs hsound hds name location scopes hg⟩
  · rintro ⟨⟨p, b⟩, s⟩ d - h
    refine .pure (.refl d) fun scopes hg => ?_
    obtain ⟨_, rfl, hf⟩ := h scopes hg
    exact hf

theorem defaultValue_keeps (he : Expands expand n) (hc : c.Sound) {form : Sexpr}
    (hf : form.height ≤ n) (item : Sexpr) :
    Resolves c (defaultValue expand form item) fun f d => Lasting f.Scoped d :=
  procedure_keeps hc.valid (fun d _ hs => .pure (.refl d) (none_declaredIn hs))
    fun _ hd => body_keeps he hd (by simpa using hf) item.location

/-- Every way to write a parameter that may be missing ends in the definition of its name. -/
theorem namedParameter_keeps (hc : c.Sound) (kind : ParameterKind) (name : String)
    (location : Option Location) {default : Option Function}
    (hdefault : ∀ f ∈ default, Lasting f.Scoped c) :
    Declaring c (do
      let (slot, register) ← defineArgument name kind location
      return (⟨name, slot, register, default⟩ : OptionalParameter Function)) fun q d =>
      c.Adds d kind q.entry ∧ ∀ f ∈ q.default, Lasting f.Scoped d := by
  refine Keeps.bind (defineArgument_keeps hc name kind location) ?_
  rintro ⟨slot, r⟩ d hd ha
  exact .pure (.refl d) ⟨ha, fun f hm => (hdefault f hm).mono hd.scopes⟩

theorem optionalParameter_keeps (he : Expands expand n) (hc : c.Sound) (kind : ParameterKind)
    {item : Sexpr} (hi : item.height ≤ n) :
    Declaring c (optionalParameter expand kind item) fun q d =>
      c.Adds d kind q.entry ∧ ∀ f ∈ q.default, Lasting f.Scoped d := by
  unfold optionalParameter
  split
  · exact namedParameter_keeps hc kind _ _ (by simp)
  · rename_i nameForm form place
    have hform : form.height ≤ n :=
      Nat.le_trans (Nat.le_of_lt (Sexpr.height_lt_list (by simp))) hi
    refine Keeps.bind (parameterName_keeps nameForm).declaring ?_
    rintro name c - rfl
    have hdefault := (defaultValue_keeps he hc hform (.list [nameForm, form] place)).mono
      (Q := fun f d => c.Extends d ∧ Lasting f.Scoped d) fun f d hd hf => ⟨hd, hf⟩
    refine Keeps.bind (Resolves.declaring hdefault) fun f d _ h => ?_
    obtain ⟨hd, hf⟩ := h
    refine (namedParameter_keeps (hd.sound hc) kind name place ?_).mono fun q e _ hq =>
      ⟨hq.1.of_extends hd, hq.2⟩
    simpa using hf
  · exact fail_keeps (Failure.isError_error _) |>.declaring
  · exact invalid_keeps.declaring

theorem restParameter_keeps (hc : c.Sound) (item : Sexpr) :
    Declaring c (restParameter item) fun r d => ∃ slot name, c.Adds d .rest (slot, name, r) := by
  refine Keeps.bind (parameterName_keeps item).declaring ?_
  rintro name c - rfl
  refine Keeps.bind (defineArgument_keeps hc name .rest item.location) ?_
  rintro ⟨slot, r⟩ d - ha
  exact .pure (.refl d) ⟨slot, name, ha⟩

/-- One more parameter of a kind. -/
theorem DeclaredIn.adds {p q : Parameters Function} {d : ScopeChain} {kind : ParameterKind}
    {entry : Nat × String × Register} (hp : p.DeclaredIn c) (hcd : c.Declares d)
    (ha : c.Adds d kind entry)
    (hq : ∀ s t : Scope, p.Declared s →
      (∀ k, t.arguments k = s.arguments k ++ if kind = k then [entry] else []) → q.Declared t)
    (hnew : ∀ o ∈ q.optional ++ q.keys, o ∈ p.optional ++ p.keys ∨
      ∀ f ∈ o.default, Lasting f.Scoped d) : q.DeclaredIn d where
  declared := by
    obtain ⟨s, t, hs, ht, hst⟩ := ha
    obtain ⟨s', hs', hps⟩ := hp.declared
    obtain rfl : s = s' := Option.some.inj (hs.symm.trans hs')
    exact ⟨t, ht, hq s t hps hst⟩
  defaults o ho f hf := by
    obtain h | h := hnew o ho
    · exact (hp.defaults o h f hf).mono hcd.scopes
    · exact h f hf

theorem parameter_keeps (he : Expands expand n) (hc : c.Sound) (s : Section)
    {p : Parameters Function} (hp : p.DeclaredIn c) {item : Sexpr} (hi : item.height ≤ n) :
    Declaring c (parameter expand s p item) fun q d => q.DeclaredIn d := by
  unfold parameter
  cases s with
  | required =>
    refine Keeps.bind (parameterName_keeps item).declaring ?_
    rintro name c - rfl
    refine Keeps.bind (defineArgument_keeps hc name .required item.location) ?_
    rintro ⟨slot, r⟩ d hd ha
    refine .pure (.refl d) (DeclaredIn.adds hp hd ha (fun s t h ht => ?_) fun o ho => .inl ho)
    exact ⟨by simp [ht, h.required], by simp [ht, h.optional], by simp [ht, h.rest],
      by simp [ht, h.keys]⟩
  | optional =>
    refine Keeps.bind (optionalParameter_keeps he hc .optional hi) ?_
    rintro q d hd ⟨ha, hq⟩
    refine .pure (.refl d) (DeclaredIn.adds hp hd ha (fun s t h ht => ?_) fun o ho => ?_)
    · exact ⟨by simp [ht, h.required], by simp [ht, h.optional], by simp [ht, h.rest],
        by simp [ht, h.keys]⟩
    · simp only [List.mem_append, List.mem_singleton] at ho ⊢
      obtain (ho | rfl) | ho := ho
      · exact .inl (.inl ho)
      · exact .inr hq
      · exact .inl (.inr ho)
  | rest =>
    dsimp only
    split
    · exact invalid_keeps.declaring
    · refine Keeps.bind (restParameter_keeps hc item) ?_
      rintro r d hd ⟨slot, name, ha⟩
      refine .pure (.refl d) (DeclaredIn.adds hp hd ha (fun s t h ht => ?_) fun o ho => .inl ho)
      have hr : p.rest = none := by simpa using ‹¬ p.rest.isSome = true›
      have hrest := h.rest
      rw [hr] at hrest
      exact ⟨by simp [ht, h.required], by simp [ht, h.optional], by simp [ht, ← hrest],
        by simp [ht, h.keys]⟩
  | keys =>
    refine Keeps.bind (optionalParameter_keeps he hc .key hi) ?_
    rintro q d hd ⟨ha, hq⟩
    refine .pure (.refl d) (DeclaredIn.adds hp hd ha (fun s t h ht => ?_) fun o ho => ?_)
    · exact ⟨by simp [ht, h.required], by simp [ht, h.optional], by simp [ht, h.rest],
        by simp [ht, h.keys]⟩
    · simp only [List.mem_append, List.mem_singleton] at ho ⊢
      obtain ho | ho | rfl := ho
      · exact .inl (.inl ho)
      · exact .inl (.inr ho)
      · exact .inr hq

theorem parameterItem_keeps (he : Expands expand n) (hc : c.Sound) (s : Section)
    {p : Parameters Function} (hp : p.DeclaredIn c) {item : Sexpr} (hi : item.height ≤ n) :
    Declaring c (parameterItem expand s p item) fun q d => q.2.DeclaredIn d := by
  unfold parameterItem
  split
  · split
    · exact invalid_keeps.declaring
    · split
      · exact invalid_keeps.declaring
      · exact .pure (.refl c) hp
  · exact Keeps.bind (parameter_keeps he hc s hp hi) fun q d _ hq => .pure (.refl d) hq

theorem parameterSections_keeps (he : Expands expand n) (hc : c.Sound)
    (hnone : c.scopes.head? = some .empty) {items : List Sexpr}
    (hi : ∀ item ∈ items, item.height ≤ n) :
    Declaring c (items.foldlM (fun (s, p) item => parameterItem expand s p item)
      (Section.required, Parameters.none)) fun q d => q.2.DeclaredIn d := by
  refine Keeps.foldlM ?_ ?_
  · exact ⟨⟨.empty, hnone, rfl, rfl, rfl, rfl⟩, by simp [Parameters.none]⟩
  · rintro item hm ⟨s, p⟩ d hd hp
    exact parameterItem_keeps he (hd.sound hc) s hp (hi item hm)

theorem parameters_keeps (he : Expands expand n) (hc : c.Sound) (hnone : c.scopes.head? = some .empty)
    {items : List Sexpr} (hi : ∀ item ∈ items, item.height ≤ n) (tail : Option Sexpr) :
    Declaring c (parameters expand items tail) fun p d => p.DeclaredIn d := by
  refine Keeps.bind (parameterSections_keeps he hc hnone hi) ?_
  rintro ⟨s, p⟩ d hd (hp : p.DeclaredIn d)
  dsimp only
  split
  · split
    · exact invalid_keeps.declaring
    · exact fail_keeps (Failure.isError_error _) |>.declaring
  · split
    · exact .pure (.refl d) hp
    · split
      · exact invalid_keeps.declaring
      · refine Keeps.bind (restParameter_keeps (hd.sound hc) _) ?_
        rintro r e he ⟨slot, name, ha⟩
        refine .pure (.refl e) (DeclaredIn.adds hp he ha (fun s t h ht => ?_) fun o ho => .inl ho)
        have hr : p.rest = none := by simp_all
        have hrest := h.rest
        rw [hr] at hrest
        exact ⟨by simp [ht, h.required], by simp [ht, h.optional], by simp [ht, ← hrest],
          by simp [ht, h.keys]⟩

theorem lambda_keeps (he : Expands expand n) (hc : ScopesValid c.scopes) (name : Option String)
    {items : List Sexpr} (hi : ∀ item ∈ items, item.height ≤ n) (tail : Option Sexpr)
    {forms : List Sexpr} (hf : ∀ s ∈ forms, s.height ≤ n) (location : Option Location) :
    Resolves c (lambda expand name items tail forms location) fun f d => Lasting f.Scoped d :=
  procedure_keeps hc (fun d hd hs => parameters_keeps he hd (by rw [hs]; rfl) hi tail)
    fun _ hd => body_keeps he hd hf location

end Resolving

end RegisterScheme
