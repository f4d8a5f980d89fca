import RegisterScheme.Proofs.Expr.Bodies

/-! Parameter lists. Each default value is resolved where the parameters before it are declared, and
the body where all of them are. -/

namespace RegisterScheme

open ScopeChain

variable {α : Type} {table : Primitives} {k : Contour} {ρ : List Contour} {c d : ScopeChain}

theorem Arity.accepts_between {least most count : Nat} :
    (Arity.between least most).accepts count ↔ least ≤ count ∧ count ≤ most := by
  rw [accepts, Bool.and_eq_true_iff, decide_eq_true_iff, decide_eq_true_iff]

namespace Resolving

variable {expand : Expand} {n : Nat} {items before forms : List Sexpr} {tail : Option Sexpr}
  {item : Sexpr} {name : String}

theorem parameterName_eq_ok {s : Sexpr} (h : parameterName s c = .ok name d) :
    d = c ∧ ∃ l, s = .identifier name l := by
  unfold parameterName at h
  split at h
  · cases h
    exact ⟨rfl, _, rfl⟩
  · cases h

theorem parameterItems_eq_ok {s : Sexpr} {p : List Sexpr × Option Sexpr}
    (h : parameterItems s c = .ok p d) : d = c ∧ s.formals = p := by
  unfold parameterItems at h
  split at h <;> cases h <;> exact ⟨rfl, rfl⟩

theorem checkArity_eq_ok {arity : Arity} {operands : List Sexpr} {s : Sexpr}
    (h : checkArity name arity operands s c = .ok ⟨⟩ d) :
    d = c ∧ arity.accepts operands.length := by
  unfold checkArity at h
  split at h
  · cases h
    exact ⟨rfl, by assumption⟩
  · cases h

theorem mem_parameterNames (hi : item ∈ items) (hn : parameterName? item = some name) :
    name ∈ parameterNames items tail :=
  List.mem_append_left _ (List.mem_filterMap.mpr ⟨item, hi, hn⟩)

theorem mem_parameterNames_append :
    name ∈ parameterNames (before ++ [item]) none ↔
      name ∈ parameterNames before none ∨ parameterName? item = some name := by
  simp [parameterNames, List.filterMap_append, List.mem_filterMap, eq_comm]

/-- A parameter of the innermost scope is one more name that it has declared. -/
theorem defineArgument_settles (hc : c.Realizes table (k :: ρ)) (hn : k.admits name)
    (kind : ParameterKind) (place : Option Location) :
    Settles table (k.declaring name :: ρ) c (defineArgument name kind place) fun _ _ => True :=
  (defineRegister_settles hc hn (fun _ => rfl) place).mono fun _ _ _ _ _ _ => trivial

/-- The next parameter is one of those in the list. -/
theorem nextParameter_settles
    (hc : c.Realizes table (Contour.ofDefault table items tail before forms :: ρ))
    (hi : item ∈ items) (hn : parameterName? item = some name) (kind : ParameterKind)
    (place : Option Location) :
    Settles table (Contour.ofDefault table items tail (before ++ [item]) forms :: ρ) c
      (defineArgument name kind place) fun _ _ => True := by
  refine (defineArgument_settles hc (.inl (mem_parameterNames hi hn)) kind place).forget
    fun m hm => ?_
  exact (mem_parameterNames_append.mp hm).imp_right fun hm => Option.some.inj (hm.symm.trans hn)

theorem defaultValue_settles (he : Lexicalizes table expand n) (hc : c.Realizes table ρ)
    {form : Sexpr} (hf : form.height ≤ n) (item : Sexpr) :
    Settles table ρ c (defaultValue expand form item) fun f scopes =>
      LexicalBody table ⟨ρ, scopes⟩ [] [form] [form] f := by
  have hthunk := thunk_settles (k := .ofNames table [] [form]) hc none item.location
    (fun name hn => by cases hn) fun d hd => body_settles he hd
      (fun s hs => ⟨hs, by rw [List.mem_singleton.mp hs]; exact hf⟩) item.location
  exact hthunk.mono fun f d _ hf scopes hs =>
    have ⟨hbody, hfits⟩ := hf scopes hs
    lexicalBody_of_within hbody hfits

/-- The default values of the items so far. -/
abbrev DefaultsSoFar (table : Primitives) (ρ : List Contour) (items : List Sexpr)
    (tail : Option Sexpr) (forms before : List Sexpr) (fs : List Function) (scopes : List Scope) :
    Prop :=
  LexicalDefaults table ρ scopes (Contour.ofDefault table items tail · forms) before fs

theorem optionalParameter_settles (he : Lexicalizes table expand n)
    (hc : c.Realizes table (Contour.ofDefault table items tail before forms :: ρ))
    (hi : item ∈ items) (hheight : item.height ≤ n)
    (hmarker : item.identifier?.filter isMarker = none) (kind : ParameterKind) {fs : List Function}
    (hfs : Lasting (DefaultsSoFar table ρ items tail forms before fs) c) :
    Settles table (Contour.ofDefault table items tail (before ++ [item]) forms :: ρ) c
      (optionalParameter expand kind item) fun q =>
        DefaultsSoFar table ρ items tail forms (before ++ [item]) (fs ++ q.default.toList) := by
  unfold optionalParameter
  split
  · rename_i name place
    have hname : parameterName? (.identifier name place) = some name := by
      simpa [parameterName?, Sexpr.identifier?] using hmarker
    refine (nextParameter_settles hc hi hname kind _).bind fun p d hcd hd _ => ?_
    refine .pure hd fun scopes hs => ?_
    rw [Option.toList_none, List.append_nil]
    exact .name (hfs scopes (hcd.trans hs))
  · rename_i nameForm form place
    refine Settles.read (fun _ _ h => parameterName_eq_ok h) ?_
    rintro name ⟨l, rfl⟩
    have hform : form.height ≤ n :=
      Nat.le_trans (Nat.le_of_lt (Sexpr.height_lt_list (by simp))) hheight
    refine (defaultValue_settles he hc hform _).bind fun f d hcd hd hf => ?_
    refine (nextParameter_settles hd hi rfl kind _).bind fun p e hde he _ => ?_
    exact .pure he fun scopes hs =>
      .default (hfs scopes (hcd.trans (hde.trans hs))) (hf scopes (hde.trans hs))
  · exact .throw _
  · exact .throw _

theorem filterMap_default (q : OptionalParameter Function) :
    [q].filterMap (·.default) = q.default.toList := by
  cases h : q.default <;> simp [h]

theorem parameter_settles (he : Lexicalizes table expand n)
    (hc : c.Realizes table (Contour.ofDefault table items tail before forms :: ρ))
    (hi : item ∈ items) (hheight : item.height ≤ n)
    (hmarker : item.identifier?.filter isMarker = none) (s : Section) {p : Parameters Function}
    (hkeys : s ≠ .keys → p.keys = [])
    (hp : Lasting (DefaultsSoFar table ρ items tail forms before p.defaults) c) :
    Settles table (Contour.ofDefault table items tail (before ++ [item]) forms :: ρ) c
      (parameter expand s p item) fun q scopes => (s ≠ .keys → q.keys = []) ∧
        DefaultsSoFar table ρ items tail forms (before ++ [item]) q.defaults scopes := by
  -- a parameter without a default
  have hplain {name : String} {l : Option Location} (hname : item = .identifier name l) :
      parameterName? item = some name := by
    subst hname
    simpa [parameterName?, Sexpr.identifier?] using hmarker
  unfold parameter
  cases s with
  | required =>
    refine Settles.read (fun _ _ h => parameterName_eq_ok h) ?_
    rintro name ⟨l, rfl⟩
    refine (nextParameter_settles hc hi (hplain rfl) _ _).bind fun _ d hcd hd _ => ?_
    exact .pure hd fun scopes hs => ⟨hkeys, .name (hp scopes (hcd.trans hs))⟩
  | optional =>
    refine (optionalParameter_settles he hc hi hheight hmarker _ hp).bind fun q d _ hd hq => ?_
    refine .pure hd fun scopes hs => ⟨hkeys, ?_⟩
    have hnone := hkeys (by decide)
    have hdefaults : Parameters.defaults { p with optional := p.optional ++ [q] } =
        p.defaults ++ q.default.toList := by
      simp only [Parameters.defaults, hnone, List.append_nil, List.filterMap_append,
        filterMap_default]
    rw [hdefaults]
    exact hq scopes hs
  | rest =>
    dsimp only
    split
    · exact .throw _
    · refine Settles.bind (P := fun _ scopes =>
        DefaultsSoFar table ρ items tail forms (before ++ [item]) p.defaults scopes) ?_
          fun r d _ hd hr => .pure hd fun scopes hs => ⟨hkeys, hr scopes hs⟩
      refine Settles.read (fun _ _ h => parameterName_eq_ok h) ?_
      rintro name ⟨l, rfl⟩
      refine (nextParameter_settles hc hi (hplain rfl) _ _).bind fun _ d hcd hd _ => ?_
      exact .pure hd fun scopes hs => .name (hp scopes (hcd.trans hs))
  | keys =>
    refine (optionalParameter_settles he hc hi hheight hmarker _ hp).bind fun q d _ hd hq => ?_
    refine .pure hd fun scopes hs => ⟨fun h => absurd rfl h, ?_⟩
    have hdefaults : Parameters.defaults { p with keys := p.keys ++ [q] } =
        p.defaults ++ q.default.toList := by
      simp only [Parameters.defaults, ← List.append_assoc, List.filterMap_append,
        filterMap_default]
    rw [hdefaults]
    exact hq scopes hs

theorem Section.ne_keys_of_next? {marker : String} {s next : Section}
    (h : s.next? marker = some next) : s ≠ .keys := by
  rintro rfl
  unfold Section.next? at h
  split at h <;> contradiction

/-- A parameter list as far as it was read. There are keywords only behind their marker. -/
structure ItemsSoFar (table : Primitives) (ρ : List Contour) (items : List Sexpr)
    (tail : Option Sexpr) (forms before : List Sexpr) (q : Section × Parameters Function)
    (scopes : List Scope) : Prop where
  keys : q.1 ≠ .keys → q.2.keys = []
  defaults : DefaultsSoFar table ρ items tail forms before q.2.defaults scopes

theorem parameterItem_settles (he : Lexicalizes table expand n)
    (hc : c.Realizes table (Contour.ofDefault table items tail before forms :: ρ))
    (hi : item ∈ items) (hheight : item.height ≤ n) {q : Section × Parameters Function}
    (hq : Lasting (ItemsSoFar table ρ items tail forms before q) c) :
    Settles table (Contour.ofDefault table items tail (before ++ [item]) forms :: ρ) c
      (parameterItem expand q.1 q.2 item)
      (ItemsSoFar table ρ items tail forms (before ++ [item])) := by
  unfold parameterItem
  split
  · rename_i marker hmarker
    split
    · exact .throw _
    · rename_i next hnext
      split
      · exact .throw _
      · obtain ⟨l, rfl⟩ : ∃ l, item = .identifier marker l := by
          cases item <;> simp_all [Sexpr.identifier?, Option.filter]
        refine .pure (hc.forget fun m hm => ?_) fun scopes hs => ⟨?_, ?_⟩
        · have hnone : parameterName? (.identifier marker l) = none := by
            simp_all [parameterName?, Sexpr.identifier?, Option.filter]
          refine (mem_parameterNames_append.mp hm).resolve_right fun hm => ?_
          cases hnone.symm.trans hm
        · exact fun _ => (hq scopes hs).keys (Section.ne_keys_of_next? hnext)
        · exact .name (hq scopes hs).defaults
  · rename_i hmarker
    refine (parameter_settles he hc hi hheight hmarker q.1 hq.now.keys
      fun scopes hs => (hq scopes hs).defaults).bind fun p d _ hd hp => ?_
    exact .pure hd fun scopes hs => ⟨(hp scopes hs).1, (hp scopes hs).2⟩

theorem parameters_settles (he : Lexicalizes table expand n)
    (hc : c.Realizes table (Contour.ofDefault table items tail [] forms :: ρ))
    (hitems : ∀ item ∈ items, item.height ≤ n) :
    Settles table (.ofNames table (parameterNames items tail) (items ++ forms) :: ρ) c
      (parameters expand items tail) fun p =>
      DefaultsSoFar table ρ items tail forms items p.defaults := by
  have hsections : Settles table (Contour.ofDefault table items tail items forms :: ρ) c
      (items.foldlM (fun q item => parameterItem expand q.1 q.2 item)
        (Section.required, Parameters.none)) (ItemsSoFar table ρ items tail forms items) := by
    refine Settles.foldlM (Contour.ofDefault table items tail · forms :: ρ)
      (ItemsSoFar table ρ items tail forms) hc (fun scopes _ => ⟨fun _ => rfl, .nil⟩) ?_
    intro before item after q d hl hd hq
    have hmem : item ∈ items := hl ▸ List.mem_append_right _ List.mem_cons_self
    exact parameterItem_settles he hd hmem (hitems item hmem) hq
  refine hsections.bind ?_
  rintro ⟨s, p⟩ d - hd hp
  dsimp only
  split
  · split <;> exact .throw _
  · split
    · exact .pure hd fun scopes hs => (hp scopes hs).defaults
    · split
      · exact .throw _
      · rename_i last _
        refine Settles.bind (P := fun _ scopes =>
          DefaultsSoFar table ρ items (some last) forms items p.defaults scopes) ?_
            fun r e _ he hr => .pure he hr
        refine Settles.read (fun _ _ h => parameterName_eq_ok h) ?_
        rintro name ⟨l, rfl⟩
        have hname : name ∈ parameterNames items (some (.identifier name l)) :=
          List.mem_append_right _ (by simp [Sexpr.identifier?])
        refine ((defineArgument_settles hd (.inl hname) .rest _).forget fun m hm => ?_).bind
          fun _ e hde he _ => .pure he fun scopes hs => (hp scopes (hde.trans hs)).defaults
        obtain hm | hm := List.mem_append.mp hm
        · exact Or.inl (List.mem_append_left _ hm)
        · exact Or.inr (by simpa [Sexpr.identifier?, eq_comm] using hm)

theorem lambda_settles (he : Lexicalizes table expand n) (hc : c.Realizes table ρ)
    (hitems : ∀ item ∈ items, item.height ≤ n) (hforms : ∀ s ∈ forms, s.height ≤ n)
    (name : Option String) (location : Option Location) :
    Settles table ρ c (lambda expand name items tail forms location) fun f scopes =>
      LexicalLambda table ⟨ρ, scopes⟩ items tail forms f := by
  have hprocedure := procedure_settles hc name location
    (k := Contour.ofDefault table items tail [] forms) (fun name hn => by cases hn)
    (fun d hd => parameters_settles he hd hitems)
    fun d hd => body_settles he hd
      (fun s hs => ⟨List.mem_append_right _ hs, hforms s hs⟩) location
  refine hprocedure.mono fun f d _ hf scopes hs => ?_
  obtain ⟨hdefaults, hbody, hfits⟩ := hf scopes hs
  exact .intro hdefaults (lexicalBody_of_within hbody hfits)

end Resolving

end RegisterScheme
