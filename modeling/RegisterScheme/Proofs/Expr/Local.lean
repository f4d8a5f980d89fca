import RegisterScheme.Expr.Local
import RegisterScheme.Proofs.Expr.Procedure

/-! The forms that bind local variables come out scoped if the expressions inside them do. -/

namespace RegisterScheme.Resolving

open ScopeChain

variable {c : ScopeChain} {expand : Expand} {n : Nat}

theorem localBinding_keeps (item : Sexpr) :
    Resolves c (localBinding item) fun b _ => ∀ i ∈ b.init, i.height < item.height := by
  unfold localBinding
  split
  · exact .pure (.refl c) (by simp)
  · exact Keeps.bind (parameterName_keeps _) fun _ d _ _ => .pure (.refl d) (by simp)
  · refine Keeps.bind (parameterName_keeps _) fun _ d _ _ => .pure (.refl d) ?_
    simp only [Option.mem_def, Option.some.injEq]
    rintro _ rfl
    exact Sexpr.height_lt_list (by simp)
  · exact invalid_keeps

/-- The initial values of bindings are parts of the form that lists them. -/
theorem localBindings_keeps (s : Sexpr) :
    Resolves c (localBindings s) fun bs _ => ∀ b ∈ bs, ∀ i ∈ b.init, i.height < s.height := by
  unfold localBindings
  split
  · rename_i items location
    refine (Keeps.mapM (P := fun (b : LocalBinding) (_ : ScopeChain) =>
      ∀ i ∈ b.init, i.height < (Sexpr.list items location).height) (fun _ _ _ h _ => h) fun item hm d _ => ?_).mono fun bs d _ h => h.2
    exact (localBinding_keeps item).mono fun b _ _ h i hi =>
      Nat.lt_trans (h i hi) (Sexpr.height_lt_list hm)
  · exact invalid_keeps

/-- Bindings whose initial values are at most so high. -/
abbrev InitsWithin (n : Nat) (bindings : List LocalBinding) : Prop :=
  ∀ b ∈ bindings, ∀ i ∈ b.init, i.height ≤ n

theorem initialValue_keeps (he : Expands expand n) (hc : c.Sound) {b : LocalBinding}
    (hb : ∀ i ∈ b.init, i.height ≤ n) : ResolvesExpr c (initialValue expand b) := by
  unfold initialValue
  split
  · exact he c _ hc (hb _ (by assumption))
  · exact literal_keeps _ _

theorem initialValues_keep (he : Expands expand n) (hc : c.Sound) {bindings : List LocalBinding}
    (hb : InitsWithin n bindings) :
    Resolves c (bindings.mapM (initialValue expand)) fun es d => ∀ e ∈ es, Lasting e.Scoped d :=
  (Keeps.mapM (fun _ _ _ h ht => h.mono ht.scopes.grow) fun b hm _ hd =>
    initialValue_keeps he (hd.sound hc) (hb b hm)).mono fun _ _ _ h => h.2

/-- Names one after the other as required parameters. -/
theorem declareNames_keeps (hc : c.Sound) (bindings : List LocalBinding) :
    Declaring c (forIn bindings PUnit.unit fun b (_ : PUnit) => do
      let _ ← defineArgument b.name .required b.origin.location
      return ForInStep.yield PUnit.unit) fun _ d =>
      ∃ s t entries, c.scopes.head? = some s ∧ d.scopes.head? = some t ∧
        entries.length = bindings.length ∧
        ∀ k, t.arguments k = s.arguments k ++ if .required = k then entries else [] := by
  induction bindings generalizing c with
  | nil =>
    obtain ⟨s, outer, hs⟩ := hc.exists_head
    exact .pure (.refl c) ⟨s, s, [], by rw [hs]; rfl, by rw [hs]; rfl, rfl, by simp⟩
  | cons b bs ih =>
    rw [List.forIn_cons]
    refine Keeps.bind (P := fun r d => r = ForInStep.yield PUnit.unit ∧
      ∃ p, c.Adds d .required p) ?_ ?_
    · exact Keeps.bind (defineArgument_keeps hc b.name .required _) fun p d _ hp =>
        .pure (.refl d) ⟨rfl, _, hp⟩
    · rintro _ d hd ⟨rfl, p, s, s', hs, hs', hargs⟩
      refine (ih (hd.sound hc)).mono ?_
      rintro _ e - ⟨s'', t, entries, hs'', ht, hl, hargs'⟩
      obtain rfl : s' = s'' := Option.some.inj (hs'.symm.trans hs'')
      refine ⟨s, t, p :: entries, hs, ht, by simp [hl], fun k => ?_⟩
      rw [hargs', hargs]
      split <;> simp

theorem declareBindings_keeps (hc : c.Sound) (hnone : c.scopes.head? = some .empty)
    (bindings : List LocalBinding) :
    Declaring c (declareBindings bindings) fun p d => p.DeclaredIn d := by
  refine Keeps.bind (declareNames_keeps hc bindings) ?_
  rintro _ d - ⟨s, t, entries, hs, ht, hl, hargs⟩
  obtain rfl : Scope.empty = s := Option.some.inj (hnone.symm.trans hs)
  refine .pure (.refl d) ⟨⟨t, ht, ?_, ?_, ?_, ?_⟩, by simp [Parameters.none]⟩
  · simp [hargs, hl]
  · simp [hargs, Parameters.none]
  · simp [hargs, Parameters.none]
  · simp [hargs, Parameters.none]

theorem bindAndCall_keeps (he : Expands expand n) (hc : c.Sound) {bindings : List LocalBinding}
    (hb : InitsWithin n bindings) (location : Option Location) {build : Resolving Expr}
    (hbuild : ∀ d : ScopeChain, d.Sound → ResolvesExpr d build) :
    ResolvesExpr c (bindAndCall expand bindings location build) := by
  refine Keeps.bind (initialValues_keep he hc hb) fun es d hd hes => ?_
  refine Keeps.bind (procedure_keeps (hd.sound hc).valid
    (fun _ h hs => declareBindings_keeps h (by rw [hs]; rfl) bindings) hbuild) fun f d' hd' hf => ?_
  refine .pure (.refl d') fun scopes hg => .call (.lambda (hf scopes hg)) fun e hm => ?_
  exact hes e hm scopes (hd'.scopes.grow.trans hg)

theorem namedValue_keeps (he : Expands expand n) (hc : c.Sound) (name : String) {s : Sexpr}
    (hs : s.height ≤ n) : ResolvesExpr c (namedValue expand name s) := by
  unfold namedValue
  split
  · rename_i head place ps form forms location
    have hpart {p : Sexpr} (hp : p ∈ ps :: form :: forms) : p.height ≤ n :=
      Nat.le_trans (Nat.le_of_lt (Sexpr.height_lt_list (List.mem_cons_of_mem _ hp))) hs
    refine Keeps.bind (primitive?_keeps head) ?_
    rintro p c h ⟨rfl, -⟩
    dsimp only
    split
    · refine Keeps.bind (parameterItems_keeps ps) ?_
      rintro ⟨items, tail⟩ c - ⟨rfl, hi⟩
      have hitems : ∀ item ∈ items, item.height ≤ n := fun item hm =>
        Nat.le_trans (Nat.le_of_lt (hi item hm)) (hpart (by simp))
      refine Keeps.bind (lambda_keeps he hc.valid (some name) hitems tail
        (fun p hp => hpart (List.mem_cons_of_mem _ hp)) location) fun f d _ hf => ?_
      exact .pure (.refl d) fun scopes hg => .lambda (hf scopes hg)
    · exact he c _ hc hs
  · exact he c _ hc hs

theorem namedLet_keeps (he : Expands expand n) (hc : c.Sound) (name : String) (nameForm : Sexpr)
    {bindings : List LocalBinding} (hb : InitsWithin n bindings) {forms : List Sexpr}
    (hf : ∀ s ∈ forms, s.height ≤ n) (location : Option Location) :
    ResolvesExpr c (namedLet expand name nameForm bindings forms location) := by
  refine Keeps.bind (initialValues_keep he hc hb) fun es d hd hes => ?_
  refine Keeps.bind (procedure_keeps (hd.sound hc).valid
    (fun d _ hs => .pure (.refl d) (none_declaredIn hs)) fun d hsound => ?_) fun w d' hd' hw => ?_
  · refine Keeps.bind (definitionTarget_keeps hsound name nameForm) fun v e hde hv => ?_
    have he' := hde.sound hsound
    refine Keeps.bind (procedure_keeps he'.valid
      (fun _ h hs => declareBindings_keeps h (by rw [hs]; rfl) bindings)
      fun _ h => body_keeps he h hf location) fun loop g heg hl => ?_
    refine .pure (.refl g) fun scopes hg => .sequence fun e hm => ?_
    have hv := hv.grow (heg.scopes.grow.trans hg)
    obtain rfl | rfl : e = _ ∨ e = _ := by simpa using hm
    · exact .assignment hv (.lambda (hl scopes hg))
    · exact .reference hv
  · refine .pure (.refl d') fun scopes hg => .call (.call (.lambda (hw scopes hg)) (by simp)) ?_
    exact fun e hm => hes e hm scopes (hd'.scopes.grow.trans hg)

theorem letStar_keeps (he : Expands expand n) {forms : List Sexpr}
    (hf : ∀ s ∈ forms, s.height ≤ n) (location : Option Location) {bindings : List LocalBinding}
    (hb : InitsWithin n bindings) (hc : c.Sound) :
    ResolvesExpr c (letStar expand forms location bindings) := by
  induction bindings generalizing c with
  | nil => exact bindAndCall_keeps he hc hb location fun _ hd => body_keeps he hd hf location
  | cons b bs ih =>
    cases bs with
    | nil => exact bindAndCall_keeps he hc hb location fun _ hd => body_keeps he hd hf location
    | cons b' bs =>
      have hone : InitsWithin n [b] := fun x hx => hb x (by simp_all)
      exact bindAndCall_keeps he hc hone location fun _ hd =>
        ih (fun x hx => hb x (List.mem_cons_of_mem _ hx)) hd

theorem letrec_keeps (he : Expands expand n) (hc : c.Sound) {bindings : List LocalBinding}
    (hb : InitsWithin n bindings) {forms : List Sexpr} (hf : ∀ s ∈ forms, s.height ≤ n)
    (location : Option Location) : ResolvesExpr c (letrec expand bindings forms location) := by
  refine bindAndCall_keeps he hc (by simp [InitsWithin]) location fun d hd => ?_
  refine Keeps.bind (Keeps.mapM (P := fun v d => ∃ name, v.Names name d.scopes)
    (fun v _ _ ⟨name, h⟩ ht => ⟨name, h.grow ht.scopes.grow⟩) fun b _ e he' =>
      (definitionTarget_keeps (he'.sound hd) b.name b.origin).mono
        fun _ _ _ h => ⟨b.name, h⟩) fun targets e hde htargets => ?_
  refine Keeps.bind (Keeps.mapM (P := fun (e : Expr) d => Lasting e.Scoped d)
    (fun _ _ _ h ht => h.mono ht.scopes.grow) ?_) fun assignments g heg hassign => ?_
  · rintro ⟨b, target⟩ hm g heg
    obtain ⟨hbm, htm⟩ := List.of_mem_zip hm
    obtain ⟨name, hname⟩ := htargets.2 target htm
    have hg := heg.sound (hde.sound hd)
    -- whatever the value, it goes to the target
    have hvalue {act : Resolving Expr} (h : ResolvesExpr g act) : ResolvesExpr g (do
        let value ← act
        return Expr.assignment target value b.origin.location) :=
      Keeps.bind h fun value k hgk hv => .pure (.refl k) fun scopes hs =>
        .assignment (hname.grow ((heg.trans hgk).scopes.grow.trans hs)) (hv scopes hs)
    dsimp only
    split
    · exact hvalue (namedValue_keeps he hg b.name (hb b hbm _ (by assumption)))
    · exact hvalue (literal_keeps _ _)
  · refine Keeps.bind (body_keeps he (heg.sound (hde.sound hd)) hf location) fun e k hgk hbody => ?_
    refine .pure (.refl k) fun scopes hs => .sequence fun x hx => ?_
    obtain hx | hx := List.mem_append.mp hx
    · exact hassign.2 x hx scopes (hgk.scopes.grow.trans hs)
    · exact List.mem_singleton.mp hx ▸ hbody scopes hs

end RegisterScheme.Resolving
