import RegisterScheme.Proofs.Expr.Captures
import RegisterScheme.Proofs.Expr.Forms

/-! Names that clash. The declaration of a parameter list, and of the definitions of the body behind
it, refuses a name that occurs once among them only if a default before it refers to a variable of
that name further out, for which it made a capture in the scope of the parameters. -/

namespace RegisterScheme

open ScopeChain

/-- The name that a scope refuses because it is bound there. -/
def Failure.refused? : Failure → Option String
  | .error (.malformed ⟨.alreadyBound name, _, _⟩) => some name
  | _ => none

/-- A name is refused because it is bound. -/
theorem Scope.binds_of_refused {s : Scope} {name n : String} {kind : Register → VariableKind}
    {place : Option Location} {x : Error} (h : s.defineRegister name kind place = .error x)
    (hx : (Failure.error x).refused? = some n) : n = name ∧ s.binds name = true := by
  unfold Scope.defineRegister at h
  cases hb : s.binds name with
  | true =>
    rw [hb] at h
    cases h
    exact ⟨(Option.some.inj hx).symm, rfl⟩
  | false =>
    rw [hb] at h
    unfold Scope.allocate at h
    split at h
    · have hb' : Scope.binds { s with registers := s.registers + 1 } name = false := hb
      simp [Scope.define_of_not_binds _ _ hb', bind, Except.bind, pure, Except.pure] at h
    · cases h
      cases hx

/-- The name of a primitive is one that no scope binds. -/
theorem ScopeChain.Sound.primitive?_eq_some {c : ScopeChain} (hc : c.Sound) {name : String}
    {p : Primitive} : c.primitive? name = some p ↔
      (¬ ∃ s ∈ c.scopes, s.binds name = true) ∧ c.primitives.find? name = some p := by
  rw [primitive?]
  cases hf : findIn name c.scopes with
  | none =>
    have hfree := findIn_eq_none hf
    exact (and_iff_right fun ⟨s, hs, hb⟩ => by cases (hfree s hs).symm.trans hb).symm
  | some found =>
    obtain ⟨distance, slot, ⟨n, kind⟩⟩ := found
    obtain ⟨rfl, ⟨s, hs, hb⟩, -⟩ := findIn_eq_some hf
    obtain ⟨outer, -, hin, -⟩ := hc.inside_at hs
    have hmem := List.mem_of_getElem? hb
    obtain ⟨kind, rfl⟩ := hin.valid.kinds _ hmem
    refine iff_of_false nofun fun h => h.1 ⟨s, List.mem_of_getElem? hs, ?_⟩
    exact List.any_eq_true.mpr ⟨_, hmem, beq_self_eq_true _⟩

namespace Resolving

variable {c d : ScopeChain} {expand : Expand} {n : Nat} {names : List String}

/-- The name that an item of a parameter list declares, unless it is a marker. -/
def parameterName? : Sexpr → Option String
  | .identifier name _ => if isMarker name then none else some name
  | .list [.identifier name _, _] _ => some name
  | _ => none

/-- The names that a parameter list declares. -/
def parameterNames (items : List Sexpr) (tail : Option Sexpr) : List String :=
  items.filterMap parameterName? ++ (tail.bind Sexpr.identifier?).toList

mutual

/-- The names that the forms of a body define, also inside `begin`, where some names are bound. -/
def definedNames (c : ScopeChain) (bound : List String) : List Sexpr → List String
  | [] => []
  | form :: forms =>
    definedBy c bound form ++ definedNames c (bound ++ definedBy c bound form) forms

def definedBy (c : ScopeChain) (bound : List String) : Sexpr → List String
  | .list (.identifier head _ :: operands) _ =>
    if head ∈ bound then []
    else
      match c.primitive? head with
      | some (.form .define) => (operands.head?.bind definedName?).toList
      | some (.form .begin) => definedNames c bound operands
      | _ => []
  | _ => []

end

/-- A procedure under way inside a chain: its scope binds these names, and otherwise variables of
the scopes of the chain, which have perhaps more captures by now. -/
structure Underway (c : ScopeChain) (names : List String) (d : ScopeChain) : Prop where
  primitives : d.primitives = c.primitives
  sound : d.Sound
  scopes : ∃ s outer, d.scopes = s :: outer ∧ List.Forall₂ Scope.Gains c.scopes outer ∧
    (∀ name ∈ names, s.binds name = true) ∧ ∀ b ∈ s.bindings, b.name ∈ names ∨ b.IsCaptured

/-- The innermost scope of the second chain has a capture of a variable of the first. -/
def CapturedFrom (c : ScopeChain) (name : String) (d : ScopeChain) : Prop :=
  ∃ s distance r, d.scopes.head? = some s ∧
    ⟨name, .variable (.captured (distance + 1) r)⟩ ∈ s.bindings ∧
    ∃ o, c.scopes[distance]? = some o ∧ o.Holds name r

/-- A name is refused only if it occurs twice or is captured. -/
def Clash (c : ScopeChain) (names : List String) (x : Failure) (d : ScopeChain) : Prop :=
  ∀ name, x.refused? = some name → 2 ≤ names.count name ∨ CapturedFrom c name d

theorem Clash.mono {more : List String} {x : Failure} (h : Clash c names x d) :
    Clash c (names ++ more) x d := by
  intro name hx
  refine (h name hx).imp_left fun hcount => ?_
  rw [List.count_append]
  omega

theorem underway_start (hc : c.Sound) : Underway c [] { c with scopes := .empty :: c.scopes } where
  primitives := rfl
  sound := ⟨List.cons_ne_nil _ _, Scope.inside_empty _, hc.valid⟩
  scopes := ⟨.empty, c.scopes, rfl, (Gains.refl c).scopes, by simp, by simp [Scope.empty]⟩

namespace Underway

/-- What a default leaves. -/
theorem gains (h : Underway c names d) {e : ScopeChain} (hg : d.Gains e) (he : e.Sound) :
    Underway c names e := by
  obtain ⟨s, outer, hs, houter, hnames, hbindings⟩ := h.scopes
  have hscopes := hg.scopes
  rw [hs] at hscopes
  obtain ⟨t, outer', hst, houter', ht⟩ := List.forall₂_cons_left_iff.mp hscopes
  refine ⟨hg.primitives.trans h.primitives, he, t, outer', ht, forall₂_trans houter houter',
    fun name hname => Scope.Gains.binds hst (hnames name hname), ?_⟩
  obtain ⟨new, hnew, hcaptured⟩ := hst
  rw [hnew]
  exact List.forall_mem_append.mpr ⟨hbindings, fun b hb => .inr (hcaptured b hb)⟩

/-- A name that is bound is among the names or is captured. -/
theorem of_binds (h : Underway c names d) {s : Scope} {outer : List Scope}
    (hs : d.scopes = s :: outer) {name : String} (hb : s.binds name = true) :
    name ∈ names ∨ CapturedFrom c name d := by
  obtain ⟨s', outer', hs', houter, -, hbindings⟩ := h.scopes
  obtain ⟨rfl, rfl⟩ : s = s' ∧ outer = outer' := by simpa using hs.symm.trans hs'
  obtain ⟨⟨n, kind⟩, hmem, hn⟩ := List.any_eq_true.mp hb
  obtain rfl : n = name := beq_iff_eq.mp hn
  refine (hbindings _ hmem).imp_right ?_
  rintro ⟨distance, r, hkind⟩
  obtain rfl : kind = .variable (.captured distance r) := hkind
  have hvalid := h.sound.valid
  rw [hs] at hvalid
  obtain ⟨k, o, rfl, ho, hholds⟩ := hvalid.captured hmem
  obtain ⟨o', ho', hgains⟩ := forall₂_getElem? houter.flip ho
  exact ⟨s, k, r, by rw [hs]; rfl, hmem, o', ho', Scope.Gains.holds hgains hholds⟩

/-- One more variable of the innermost scope. -/
theorem define (h : Underway c names d) {name : String} {kind : Register → VariableKind}
    {place : Option Location} {R : ScopeChain → ScopeChain → Prop}
    {Q : Nat × Register → ScopeChain → Prop} {F : Failure → Prop}
    (hk : Keeps R F d (update fun s => s.defineRegister name kind place) Q)
    (hR : ∀ e, R d e → e.Sound) :
    Leaves d (update fun s => s.defineRegister name kind place)
      (fun _ e => Underway c (names ++ [name]) e) (Clash c (names ++ [name])) := by
  obtain ⟨s, outer, hs, houter, hnames, hbindings⟩ := h.scopes
  cases hd : s.defineRegister name kind place with
  | error x =>
    have hrun : update (fun s => s.defineRegister name kind place) d = .error (.error x) d := by
      rw [update_eq hs, hd]
    refine .fails hrun fun n hx => ?_
    obtain ⟨rfl, hb⟩ := Scope.binds_of_refused hd hx
    refine (h.of_binds hs hb).imp_left fun hmem => ?_
    have := List.count_pos_iff.mpr hmem
    rw [List.count_append, List.count_singleton_self]
    omega
  | ok p =>
    obtain ⟨⟨slot, r⟩, t⟩ := p
    have hrun : update (fun s => s.defineRegister name kind place) d =
        .ok (slot, r) { d with scopes := t :: outer } := by
      rw [update_eq hs, hd]
    obtain ⟨-, -, -, -, rfl⟩ := Scope.defineRegister_eq_ok hd
    refine .answers hrun ⟨h.primitives, hR _ (hk.of_ok hrun).1, _, outer, rfl, houter, ?_, ?_⟩
    · intro n hn
      simp only [Scope.binds, Scope.addRegister, List.any_append, Bool.or_eq_true]
      obtain hn | hn := List.mem_append.mp hn
      · exact .inl (hnames n hn)
      · exact .inr (by simp [List.mem_singleton.mp hn])
    · refine List.forall_mem_append.mpr ⟨fun b hb => ?_, ?_⟩
      · exact (hbindings b hb).imp_left fun hm => List.mem_append_left _ hm
      · simp

theorem defineArgument (h : Underway c names d) (name : String) (kind : ParameterKind)
    (place : Option Location) :
    Leaves d (defineArgument name kind place) (fun _ e => Underway c (names ++ [name]) e)
      (Clash c (names ++ [name])) :=
  h.define (defineArgument_keeps h.sound name kind place) fun _ he => he.sound h.sound

theorem defineLocal (h : Underway c names d) (name : String) (place : Option Location) :
    Leaves d (defineLocal name place) (fun _ e => Underway c (names ++ [name]) e)
      (Clash c (names ++ [name])) :=
  h.define (defineLocal_keeps h.sound name place) fun _ he => he.sound h.sound

/-- What a capture in some scope leads to is declared by a scope around the procedure. -/
theorem exists_holds_of_captured (h : Underway c names d) {s : Scope} (hs : s ∈ d.scopes)
    {b : Binding} (hb : b ∈ s.bindings) (hcaptured : b.IsCaptured) :
    ∃ o ∈ c.scopes, ∃ r, o.Holds b.name r := by
  obtain ⟨s', outer, hd, houter, -, -⟩ := h.scopes
  obtain ⟨n, kind⟩ := b
  obtain ⟨distance, r, rfl⟩ : ∃ distance r, kind = .variable (.captured distance r) := hcaptured
  obtain ⟨i, hi⟩ := List.mem_iff_getElem?.mp hs
  obtain ⟨behind, hdrop, hin⟩ := h.sound.inside_at hi
  obtain ⟨k, o, -, ho, hholds⟩ := ScopesValid.captured hin hb
  have hmem : o ∈ outer := by
    have htail : behind = outer.drop i := by
      have htail := congrArg List.tail hdrop
      rwa [hd, List.tail_drop, List.drop_succ_cons, List.tail_cons, eq_comm] at htail
    exact List.mem_of_mem_drop (htail ▸ List.mem_of_getElem? ho)
  obtain ⟨m, hm⟩ := List.mem_iff_getElem?.mp hmem
  obtain ⟨o', ho', hgains⟩ := forall₂_getElem? houter.flip hm
  exact ⟨o', List.mem_of_getElem? ho', r, Scope.Gains.holds hgains hholds⟩

theorem binds_iff (h : Underway c names d) {name : String} :
    (∃ s ∈ d.scopes, s.binds name = true) ↔
      name ∈ names ∨ ∃ o ∈ c.scopes, o.binds name = true := by
  obtain ⟨s, outer, hs, houter, hnames, hbindings⟩ := h.scopes
  have hcaptured {t : Scope} (ht : t ∈ d.scopes) {b : Binding} (hb : b ∈ t.bindings)
      (hc : b.IsCaptured) : ∃ o ∈ c.scopes, o.binds b.name = true := by
    obtain ⟨o, ho, r, b', hb', hname, -⟩ := h.exists_holds_of_captured ht hb hc
    exact ⟨o, ho, List.any_eq_true.mpr ⟨b', hb', beq_iff_eq.mpr hname⟩⟩
  constructor
  · rintro ⟨t, ht, hbinds⟩
    obtain ⟨b, hb, hname⟩ := List.any_eq_true.mp hbinds
    obtain rfl : b.name = name := beq_iff_eq.mp hname
    obtain rfl | hto := List.mem_cons.mp (hs ▸ ht)
    · exact (hbindings b hb).imp_right (hcaptured ht hb)
    · obtain ⟨i, hi⟩ := List.mem_iff_getElem?.mp hto
      obtain ⟨o, ho, new, hsplit, hnew⟩ := forall₂_getElem? houter.flip hi
      rw [hsplit] at hb
      obtain hb | hb := List.mem_append.mp hb
      · exact .inr ⟨o, List.mem_of_getElem? ho, List.any_eq_true.mpr ⟨b, hb, hname⟩⟩
      · exact .inr (hcaptured ht (hsplit ▸ List.mem_append_right _ hb) (hnew b hb))
  · rintro (hname | ⟨o, ho, hbinds⟩)
    · exact ⟨s, hs ▸ List.mem_cons_self, hnames name hname⟩
    · obtain ⟨i, hi⟩ := List.mem_iff_getElem?.mp ho
      obtain ⟨t, ht, hgains⟩ := forall₂_getElem? houter hi
      exact ⟨t, hs ▸ List.mem_cons_of_mem _ (List.mem_of_getElem? ht),
        Scope.Gains.binds hgains hbinds⟩

/-- The primitives of the innermost scope are those further out, but for the names. -/
theorem primitive?_eq_some (h : Underway c names d) (hc : c.Sound) {head : String}
    {p : Primitive} : d.primitive? head = some p ↔ head ∉ names ∧ c.primitive? head = some p := by
  rw [h.sound.primitive?_eq_some, hc.primitive?_eq_some, h.binds_iff, h.primitives, not_or,
    and_assoc]

end Underway

/-- Every default of a parameter list can be resolved by itself, in the scope that the items before
it leave. -/
def DefaultsResolve (expand : Expand) (items : List Sexpr) (c : ScopeChain) : Prop :=
  ∀ before name form place after p d, items = before ++ .list [name, form] place :: after →
    (before.foldlM (fun (s, p) item => parameterItem expand s p item)
      (Section.required, Parameters.none) : Resolving (Section × Parameters Function)) c = .ok p d →
    ∃ f e, defaultValue expand form (.list [name, form] place) d = .ok f e

variable {α : Type}

theorem clash_throw {x : Failure} (h : x.refused? = none) {Q : α → ScopeChain → Prop} :
    Leaves d (throw x : Resolving α) Q (Clash c names) :=
  .throw fun _ hx => nomatch h.symm.trans hx

/-- Only a name is the name of a parameter. -/
theorem parameterName_leaves (s : Sexpr) :
    Leaves d (parameterName s) (fun name e => e = d ∧ s.identifier? = some name)
      (Clash c names) := by
  unfold parameterName
  split
  · exact .pure ⟨rfl, rfl⟩
  · exact clash_throw rfl

/-- A default can be resolved by itself, if the item has one. -/
def DefaultResolves (expand : Expand) (item : Sexpr) (d : ScopeChain) : Prop :=
  ∀ name form place, item = .list [name, form] place →
    ∃ f e, defaultValue expand form item d = .ok f e

theorem optionalParameter_leaves (he : Expands expand n) (ha : ∀ s, Along Inward (expand s))
    (h : Underway c names d) (kind : ParameterKind) {item : Sexpr} (hi : item.height ≤ n)
    (hm : item.identifier?.filter isMarker = none) (hd : DefaultResolves expand item d) :
    Leaves d (optionalParameter expand kind item)
      (fun _ e => Underway c (names ++ (parameterName? item).toList) e)
      (Clash c (names ++ (parameterName? item).toList)) := by
  have hdefine (name : String) (default : Option Function) {e : ScopeChain}
      (h : Underway c names e) : Leaves e (do
        let place ← defineArgument name kind item.location
        return (⟨name, place.1, place.2, default⟩ : OptionalParameter Function))
        (fun _ e => Underway c (names ++ [name]) e) (Clash c (names ++ [name])) :=
    (h.defineArgument name kind item.location).bind fun _ _ h => .pure h
  unfold optionalParameter
  split
  · rename_i name place
    have hname : parameterName? (.identifier name place) = some name := by
      simpa [parameterName?, Sexpr.identifier?] using hm
    rw [hname]
    exact hdefine name none h
  · rename_i nameForm form place
    refine (parameterName_leaves nameForm).bind ?_
    rintro name _ ⟨rfl, hname⟩
    obtain ⟨f, e, hf⟩ := hd nameForm form place rfl
    have hform : form.height ≤ n :=
      Nat.le_trans (Nat.le_of_lt (Sexpr.height_lt_list (by simp))) hi
    have hsound := (defaultValue_keeps he h.sound hform _).of_ok hf |>.1.sound h.sound
    have hgains := ((defaultValue_gains ha form (.list [nameForm, form] place)).of_ok hf).1
    have hitem : parameterName? (.list [nameForm, form] place) = some name := by
      cases nameForm <;> cases hname
      rfl
    rw [hitem]
    refine .bind (P := fun g e' => g = f ∧ e' = e) (.answers hf ⟨rfl, rfl⟩) ?_
    rintro _ _ ⟨rfl, rfl⟩
    exact hdefine name (some _) (h.gains hgains hsound)
  · exact clash_throw rfl
  · exact clash_throw rfl

/-- A parameter that is only a name. -/
theorem namedArgument_leaves {β : Type} (h : Underway c names d) (kind : ParameterKind)
    {item : Sexpr} {more : List String} (hmore : ∀ name ∈ item.identifier?, more = [name])
    (f : Nat × Register → β) :
    Leaves d (do
        let name ← parameterName item
        let place ← defineArgument name kind item.location
        return f place)
      (fun _ e => Underway c (names ++ more) e) (Clash c (names ++ more)) := by
  refine (parameterName_leaves item).bind ?_
  rintro name _ ⟨rfl, hname⟩
  rw [hmore name hname]
  exact (h.defineArgument name kind item.location).bind fun _ _ h => .pure h

theorem parameterName?_of_identifier {item : Sexpr} (hm : item.identifier?.filter isMarker = none)
    {name : String} (hn : name ∈ item.identifier?) : (parameterName? item).toList = [name] := by
  cases item <;> cases hn
  simpa [parameterName?, Sexpr.identifier?] using hm

theorem parameter_leaves (he : Expands expand n) (ha : ∀ s, Along Inward (expand s))
    (h : Underway c names d) (sec : Section) (p : Parameters Function) {item : Sexpr}
    (hi : item.height ≤ n) (hm : item.identifier?.filter isMarker = none)
    (hd : DefaultResolves expand item d) :
    Leaves d (parameter expand sec p item)
      (fun _ e => Underway c (names ++ (parameterName? item).toList) e)
      (Clash c (names ++ (parameterName? item).toList)) := by
  have hnamed {β : Type} (kind : ParameterKind) (f : Nat × Register → β) :=
    namedArgument_leaves h kind (fun _ => parameterName?_of_identifier hm) f
  unfold parameter
  cases sec with
  | required => exact hnamed .required fun _ => { p with required := p.required + 1 }
  | optional =>
    exact (optionalParameter_leaves he ha h .optional hi hm hd).bind fun _ _ h => .pure h
  | rest =>
    dsimp only
    split
    · exact clash_throw rfl
    · exact (hnamed .rest Prod.snd).bind fun _ _ h => .pure h
  | keys => exact (optionalParameter_leaves he ha h .key hi hm hd).bind fun _ _ h => .pure h

theorem parameterItem_leaves (he : Expands expand n) (ha : ∀ s, Along Inward (expand s))
    (h : Underway c names d) (sec : Section) (p : Parameters Function) {item : Sexpr}
    (hi : item.height ≤ n) (hd : DefaultResolves expand item d) :
    Leaves d (parameterItem expand sec p item)
      (fun _ e => Underway c (names ++ (parameterName? item).toList) e)
      (Clash c (names ++ (parameterName? item).toList)) := by
  unfold parameterItem
  split
  · rename_i marker hm
    have hnone : parameterName? item = none := by
      cases item with
      | identifier name place =>
        obtain ⟨hname, hmarker⟩ := Option.filter_eq_some_iff.mp hm
        obtain rfl : name = marker := Option.some.inj hname
        exact if_pos hmarker
      | _ => cases hm
    rw [hnone, Option.toList_none, List.append_nil]
    split
    · exact clash_throw rfl
    · split
      · exact clash_throw rfl
      · exact .pure h
  · rename_i hm
    exact (parameter_leaves he ha h sec p hi hm hd).bind fun _ _ h => .pure h

theorem filterMap_parameterName? (before : List Sexpr) (item : Sexpr) :
    (before ++ [item]).filterMap parameterName? =
      before.filterMap parameterName? ++ (parameterName? item).toList := by
  rw [List.filterMap_append, List.filterMap_cons, List.filterMap_nil]
  cases parameterName? item <;> rfl

theorem parameters_leaves (he : Expands expand n) (ha : ∀ s, Along Inward (expand s))
    (h : Underway c [] d) {items : List Sexpr} (hi : ∀ item ∈ items, item.height ≤ n)
    (tail : Option Sexpr) (hd : DefaultsResolve expand items d) :
    Leaves d (parameters expand items tail)
      (fun _ e => Underway c (parameterNames items tail) e)
      (Clash c (parameterNames items tail)) := by
  have hsections : Leaves d (items.foldlM (fun (s, p) item => parameterItem expand s p item)
      (Section.required, Parameters.none))
      (fun _ e => Underway c (items.filterMap parameterName?) e)
      (Clash c (items.filterMap parameterName?)) := by
    refine Leaves.foldlM (I := fun before _ => Underway c (before.filterMap parameterName?)) h ?_
    rintro before item after ⟨sec, p⟩ e rfl hbefore hunder
    have hdefault : DefaultResolves expand item e := by
      rintro name form place rfl
      exact hd before name form place after _ e rfl hbefore
    have hstep := parameterItem_leaves he ha hunder sec p (hi item (by simp)) hdefault
    refine hstep.mono (fun _ t ht => ?_) fun x t hx => ?_
    · rwa [filterMap_parameterName?]
    · rw [List.append_cons, List.filterMap_append, filterMap_parameterName?]
      exact hx.mono
  refine (hsections.mono (fun _ _ => id) fun _ _ hx => hx.mono).bind fun (sec, p) e hunder => ?_
  dsimp only
  split
  · split
    · exact clash_throw rfl
    · exact clash_throw rfl
  · cases tail with
    | none => exact .pure (by simpa [parameterNames] using hunder)
    | some tail =>
      dsimp only
      split
      · exact clash_throw rfl
      · exact (namedArgument_leaves hunder .rest (by simp) Prod.snd).bind fun _ _ h => .pure h

mutual

theorem declareDefinitions_leaves (hc : c.Sound) {names : List String} {d : ScopeChain}
    (h : Underway c names d) : (forms : List Sexpr) → Leaves d (declareDefinitions forms)
      (fun _ e => Underway c (names ++ definedNames c names forms) e)
      (Clash c (names ++ definedNames c names forms))
  | [] => by
    rw [declareDefinitions, definedNames, List.append_nil]
    exact .pure h
  | form :: forms => by
    rw [declareDefinitions, definedNames, ← List.append_assoc]
    have hform := declareDefinition_leaves hc h form
    exact (hform.mono (fun _ _ => id) fun _ _ hx => hx.mono).bind fun _ e h =>
      declareDefinitions_leaves hc h forms

theorem declareDefinition_leaves (hc : c.Sound) {names : List String} {d : ScopeChain}
    (h : Underway c names d) : (form : Sexpr) → Leaves d (declareDefinition form)
      (fun _ e => Underway c (names ++ definedBy c names form) e)
      (Clash c (names ++ definedBy c names form))
  | .list (.identifier head l :: operands) location => by
    have hhead {p : Primitive} : d.primitive? head = some p ↔
        head ∉ names ∧ c.primitive? head = some p := h.primitive?_eq_some hc
    have hlook : Leaves d (primitive? head) (fun p e => e = d ∧ p = d.primitive? head)
        (Clash c (names ++ definedBy c names (.list (.identifier head l :: operands) location))) :=
      .answers rfl ⟨rfl, rfl⟩
    rw [declareDefinition]
    refine hlook.bind ?_
    rintro p _ ⟨rfl, rfl⟩
    rw [definedBy]
    split
    · rename_i hp
      obtain ⟨hfree, hprimitive⟩ := hhead.mp hp
      rw [if_neg hfree, hprimitive]
      dsimp only
      split
      · rename_i name hname
        rw [hname]
        exact (h.defineLocal name location).bind fun _ _ h => .pure h
      · rename_i hname
        rw [hname, Option.toList_none, List.append_nil]
        exact .pure h
    · rename_i hp
      obtain ⟨hfree, hprimitive⟩ := hhead.mp hp
      rw [if_neg hfree, hprimitive]
      exact declareDefinitions_leaves hc h operands
    · rename_i hdefine hbegin
      have hnone : (if head ∈ names then []
          else match c.primitive? head with
            | some (.form .define) => (operands.head?.bind definedName?).toList
            | some (.form .begin) => definedNames c names operands
            | _ => []) = [] := by
        split
        · rfl
        · rename_i hfree
          split
          · rename_i hp
            exact absurd (hhead.mpr ⟨hfree, hp⟩) hdefine
          · rename_i hp
            exact absurd (hhead.mpr ⟨hfree, hp⟩) hbegin
          · rfl
      rw [hnone, List.append_nil]
      exact .pure h
  | .list [] _ | .list (.literal _ _ :: _) _ | .list (.list _ _ :: _) _
  | .list (.dotted _ _ _ :: _) _ | .list (.vector _ _ :: _) _ | .literal _ _ | .identifier _ _
  | .dotted _ _ _ | .vector _ _ => by
    unfold declareDefinition definedBy
    rw [List.append_nil]
    exact .pure h

end

/-- What a procedure declares before its body is resolved: its parameters, and its own
definitions. -/
def declarations (expand : Expand) (items : List Sexpr) (tail : Option Sexpr)
    (forms : List Sexpr) : Resolving (Parameters Function) := do
  let p ← parameters expand items tail
  declareDefinitions forms
  return p

/-- If every default of a procedure can be resolved by itself, then a name that the procedure
declares only once is refused as bound only if the scope of the procedure captures it, so that a
scope further out declares it too. -/
theorem captured_of_alreadyBound (hc : c.Sound) {items forms : List Sexpr} {tail : Option Sexpr}
    (hi : ∀ item ∈ items, item.height ≤ n)
    (hd : DefaultsResolve (expandWithin n) items { c with scopes := .empty :: c.scopes })
    {name : String} {text : Option String} {place : Option Location}
    (hone : (parameterNames items tail ++
      definedNames c (parameterNames items tail) forms).count name ≤ 1)
    (h : declarations (expandWithin n) items tail forms { c with scopes := .empty :: c.scopes } =
      .error (.malformed (.alreadyBound name) text place) d) : CapturedFrom c name d := by
  have hparameters := parameters_leaves (expandWithin_keeps n)
    (along_expandWithin n) (underway_start hc) hi tail hd
  have hall : Leaves { c with scopes := .empty :: c.scopes }
      (declarations (expandWithin n) items tail forms) (fun _ _ => True)
      (Clash c (parameterNames items tail ++
        definedNames c (parameterNames items tail) forms)) := by
    refine (hparameters.mono (fun _ _ => id) fun _ _ hx => hx.mono).bind fun p e hunder => ?_
    exact (declareDefinitions_leaves hc hunder forms).bind fun _ _ _ => .pure trivial
  refine (hall.of_error h name rfl).resolve_left fun htwice => ?_
  omega

/-- Inside a procedure with a parameter `x`. -/
def outerChain : ScopeChain :=
  ⟨.standard, [⟨[⟨"x", .variable (.argument .zero .required)⟩], 1, []⟩, .empty], 0⟩

theorem outerChain_sound : outerChain.Sound where
  ne_nil := List.cons_ne_nil _ _
  valid := ⟨(Scope.inside_empty [.empty]).addRegister rfl rfl rfl (by decide),
    Scope.inside_empty [], trivial⟩

/-- `(&optional (a x) (x 2))` -/
def clashingItems : List Sexpr :=
  [.identifier "&optional" none,
    .list [.identifier "a" none, .identifier "x" none] none,
    .list [.identifier "x" none, .literal (.integer 2) none] none]

/-- The chain in which they are declared. -/
def clashingChain : ScopeChain := { outerChain with scopes := .empty :: outerChain.scopes }

/-- The chain after the default of `a`. -/
def capturingChain : ScopeChain :=
  { outerChain with
    scopes := ⟨[⟨"x", .variable (.captured 1 .zero)⟩, ⟨"a", .variable (.argument .zero .optional)⟩],
      1, []⟩ :: outerChain.scopes }

theorem clashingItems_resolve : DefaultsResolve (expandWithin 2) clashingItems clashingChain := by
  intro before name form place after p d hl hbefore
  rcases before with _ | ⟨b, _ | ⟨b', _ | ⟨b'', before⟩⟩⟩
  all_goals simp only [clashingItems, List.nil_append, List.cons_append, List.cons.injEq,
    Sexpr.list.injEq, reduceCtorEq, false_and, and_false, and_true, List.nil_eq,
    List.append_eq_nil_iff] at hl
  · obtain ⟨rfl, ⟨⟨rfl, rfl⟩, rfl⟩, -⟩ := hl
    have hstart : d = clashingChain := by
      cases hbefore
      rfl
    subst hstart
    exact ⟨_, _, rfl⟩
  · obtain ⟨rfl, rfl, ⟨⟨rfl, rfl⟩, rfl⟩, -⟩ := hl
    have hcapturing : d = capturingChain := by
      cases hbefore
      rfl
    subst hcapturing
    exact ⟨_, _, rfl⟩

/-- The capture that the first default makes forbids the second parameter its name. -/
theorem captured_of_alreadyBound_default :
    outerChain.Sound ∧ (∀ item ∈ clashingItems, item.height ≤ 2) ∧
    DefaultsResolve (expandWithin 2) clashingItems clashingChain ∧
    (parameterNames clashingItems none ++
      definedNames outerChain (parameterNames clashingItems none) []).count "x" ≤ 1 ∧
    declarations (expandWithin 2) clashingItems none [] clashingChain =
      .error (.malformed (.alreadyBound "x") none none) capturingChain ∧
    CapturedFrom outerChain "x" capturingChain := by
  have hheight : ∀ item ∈ clashingItems, item.height ≤ 2 := by decide
  have hone : (parameterNames clashingItems none ++
      definedNames outerChain (parameterNames clashingItems none) []).count "x" ≤ 1 := by decide
  have hrefused : declarations (expandWithin 2) clashingItems none [] clashingChain =
      .error (.malformed (.alreadyBound "x") none none) capturingChain := rfl
  exact ⟨outerChain_sound, hheight, clashingItems_resolve, hone, hrefused,
    captured_of_alreadyBound outerChain_sound hheight clashingItems_resolve hone hrefused⟩

/-- `((lambda (x) ((lambda items form a))) 1)` -/
def clashingProgram (items : List Sexpr) (form : Sexpr) : List Sexpr :=
  let name (text : String) : Sexpr := .identifier text none
  let list (items : List Sexpr) : Sexpr := .list items none
  let inner := list [name "lambda", list items, form, name "a"]
  [list [list [name "lambda", list [name "x"], list [inner]], .literal (.integer 1) none]]

/-- `(define x 2)` -/
def clashingDefinition : Sexpr :=
  .list [.identifier "define" none, .identifier "x" none, .literal (.integer 2) none] none

/-- A parameter of another name than the others is refused behind a default that mentions its name,
and so is a definition. -/
theorem ofProgram_clashing :
    (parameterNames clashingItems none).Nodup ∧
    DefaultsResolve (expandWithin 2) clashingItems clashingChain ∧
    Function.ofProgram .standard 0 (clashingProgram clashingItems (.identifier "x" none)) =
      .error (.malformed (.alreadyBound "x") none none) ∧
    "x" ∉ parameterNames (clashingItems.take 2) none ∧
    Function.ofProgram .standard 0 (clashingProgram (clashingItems.take 2) clashingDefinition) =
      .error (.malformed (.alreadyBound "x") none none) :=
  ⟨by decide, clashingItems_resolve, rfl, by decide, rfl⟩

end Resolving

end RegisterScheme
