import RegisterScheme.Proofs.Expr.Contours

/-! The scopes of a chain are what the text tells of them. Whatever is resolved keeps it so, and a
reference or an assignment is resolved to the variable that its name designates. -/

namespace RegisterScheme

open ScopeChain

variable {α β : Type} {table : Primitives} {k k' : Contour} {ρ σ : List Contour}
  {c d : ScopeChain} {name : String}

namespace Contour

variable {s t : Scope}

/-- A procedure that has declared one more name. -/
def declaring (k : Contour) (name : String) : Contour :=
  { k with declares := fun n => k.declares n ∨ n = name }

/-- What the text of a procedure says of an expression in it. -/
structure Covers (table : Primitives) (k : Contour) (s : Sexpr) : Prop where
  admits : ∀ name, s.MayDefine table name → k.admits name
  templates : s.Quotes table → k.templates

theorem Covers.part {p s : Sexpr} (h : k.Covers table s) (hp : p.PartOf s) : k.Covers table p where
  admits name := by
    rintro ⟨head, place, target, forms, location, hpart, hdefine⟩
    exact h.admits name ⟨head, place, target, forms, location, hpart.trans hp, hdefine⟩
  templates := by
    rintro ⟨name, place, hpart, hquasiquote⟩
    exact h.templates ⟨name, place, hpart.trans hp, hquasiquote⟩

/-- An expression in the text of a procedure, of at most a given height. -/
structure Spans (table : Primitives) (k : Contour) (n : Nat) (s : Sexpr) : Prop
    extends k.Covers table s where
  height_le : s.height ≤ n

theorem Spans.part {n : Nat} {p s : Sexpr} (h : k.Spans table n s) (hp : p.PartOf s) :
    k.Spans table n p :=
  ⟨h.toCovers.part hp, Nat.le_trans hp.height_le h.height_le⟩

/-- The parts of a list are less high than the list. -/
theorem Spans.item {n : Nat} {s : Sexpr} {items : List Sexpr} {location : Option Location}
    (h : k.Spans table (n + 1) (.list items location)) (hs : s ∈ items) : k.Spans table n s :=
  ⟨h.toCovers.part (.list hs .self),
    Nat.le_of_lt_succ (Nat.lt_of_lt_of_le (Sexpr.height_lt_list hs) h.height_le)⟩

theorem ofText_covers {names : List String} {declares : String → Prop} {text : List Sexpr}
    {s : Sexpr} (hs : s ∈ text) : (ofText table names declares text).Covers table s where
  admits _ h := .inr ⟨s, hs, h⟩
  templates h := ⟨s, hs, h⟩

/-- A scope with perhaps more bindings, but no new variables of its own. -/
theorem Fits.imports (h : k.Fits s) (hst : s.bindings ⊆ t.bindings)
    (ht : ∀ name r, t.Holds name r → s.Holds name r) : k.Fits t where
  declares name hn := (h.declares name hn).imp fun _ ⟨b, hb, hr⟩ => ⟨b, hst hb, hr⟩
  admits name r hr := h.admits name r (ht name r hr)

instance : Trans Fits Scope.Gains Fits :=
  ⟨fun h hst => h.imports hst.subset fun _ _ => hst.holds⟩

/-- A scope with one more variable, which the text admits. -/
theorem Fits.addRegister (h : k.Fits s) {kind : VariableKind} {r : Register}
    (hk : kind.register? = some r) (hn : k.admits name) :
    (k.declaring name).Fits (s.addRegister ⟨name, .variable kind⟩) where
  declares n hdecl := by
    obtain hdecl | rfl := hdecl
    · exact (h.declares n hdecl).imp fun q hq => hq.grows (Scope.grows_addRegister s _)
    · exact ⟨r, _, List.mem_append_right _ (List.mem_singleton_self _), rfl, hk⟩
  admits n q := by
    rintro ⟨b, hb, rfl, hq⟩
    obtain hb | hb := List.mem_append.mp hb
    · exact h.admits b.name q ⟨b, hb, rfl, hq⟩
    · obtain rfl := List.mem_singleton.mp hb
      exact hn

end Contour

/-- Somewhere from one scope to another, without the latter, a template hides the name. -/
def HiddenBetween (contours : List Contour) (scopes : List Scope) (name : String) (i j : Nat) :
    Prop :=
  ∃ m k s, i ≤ m ∧ m < j ∧ contours[m]? = some k ∧ scopes[m]? = some s ∧ k.Hides s name

theorem HiddenBetween.mono {contours : List Contour} {scopes : List Scope} {i i' j : Nat}
    (h : HiddenBetween contours scopes name i j) (hi : i' ≤ i) :
    HiddenBetween contours scopes name i' j := by
  obtain ⟨m, k, s, him, hhides⟩ := h
  exact ⟨m, k, s, Nat.le_trans hi him, hhides⟩

theorem hiddenBetween_cons {s : Scope} {scopes : List Scope} {i j : Nat} :
    HiddenBetween (k :: ρ) (s :: scopes) name (i + 1) (j + 1) ↔
      HiddenBetween ρ scopes name i j := by
  constructor
  · rintro ⟨m, k', t, him, hmj, hk', ht, hhides⟩
    obtain ⟨m, rfl⟩ := Nat.exists_eq_add_of_lt (Nat.lt_of_lt_of_le i.succ_pos him)
    rw [Nat.zero_add] at him hmj hk' ht
    exact ⟨m, k', t, Nat.le_of_succ_le_succ him, Nat.lt_of_succ_lt_succ hmj, hk', ht, hhides⟩
  · rintro ⟨m, k', t, him, hmj, hk', ht, hhides⟩
    exact ⟨m + 1, k', t, Nat.succ_le_succ him, Nat.succ_lt_succ hmj, hk', ht, hhides⟩

/-- From every scope that holds the name around the innermost one, a template hides it. -/
def HiddenOutside (contours : List Contour) (scopes : List Scope) (name : String) : Prop :=
  ∀ j s r, scopes[j + 1]? = some s → s.Holds name r → HiddenBetween contours scopes name 1 (j + 1)

namespace ScopeChain

/-- The scopes of a chain are those that contours tell of. A name that is a global inside a scope
that holds it has become one in a template. -/
structure Realizes (table : Primitives) (c : ScopeChain) (contours : List Contour) : Prop where
  sound : c.Sound
  primitives : c.primitives = table
  fits : List.Forall₂ Contour.Fits contours c.scopes
  hidden : ∀ i j s t, i < j → c.scopes[i]? = some s → c.scopes[j]? = some t → ∀ name r,
    ⟨name, .variable .global⟩ ∈ s.bindings → t.Holds name r →
      HiddenBetween contours c.scopes name i j

namespace Realizes

theorem primitive?_eq_some (h : c.Realizes table ρ) {p : Primitive}
    (hp : c.primitive? name = some p) : table.find? name = some p := by
  rw [← h.primitives]
  exact (h.sound.primitive?_eq_some.mp hp).2

/-- What is a primitive later on has been one before. -/
theorem primitive?_of_grows (h : c.Realizes table ρ) (h' : d.Realizes table σ)
    (hg : ScopesGrow c.scopes d.scopes) {p : Primitive} (hp : d.primitive? name = some p) :
    c.primitive? name = some p := by
  obtain ⟨hfree, hfind⟩ := h'.sound.primitive?_eq_some.mp hp
  refine h.sound.primitive?_eq_some.mpr ⟨?_, by rwa [h.primitives, ← h'.primitives]⟩
  rintro ⟨s, hs, hb⟩
  obtain ⟨i, hi⟩ := List.mem_iff_getElem?.mp hs
  obtain ⟨t, ht, hst⟩ := forall₂_getElem? hg hi
  obtain ⟨b, hmem, hname⟩ := List.any_eq_true.mp hb
  refine hfree ⟨t, List.mem_of_getElem? ht, ?_⟩
  exact List.any_eq_true.mpr ⟨b, hst.bindings.subset hmem, hname⟩

theorem exists_head (h : c.Realizes table (k :: ρ)) :
    ∃ s outer, c.scopes = s :: outer ∧ k.Fits s ∧ List.Forall₂ Contour.Fits ρ outer := by
  obtain ⟨s, outer, hs, houter, hscopes⟩ := List.forall₂_cons_left_iff.mp h.fits
  exact ⟨s, outer, hscopes, hs, houter⟩

theorem objects (h : c.Realizes table ρ) (n : Nat) :
    Realizes table { c with nextObject := n } ρ :=
  ⟨⟨h.sound.ne_nil, h.sound.valid⟩, h.primitives, h.fits, h.hidden⟩

/-- Captures change nothing that the text tells of. -/
theorem gains (h : c.Realizes table ρ) (hcd : c.Gains d) (hd : d.Sound) : d.Realizes table ρ where
  sound := hd
  primitives := hcd.primitives.trans h.primitives
  fits := forall₂_trans h.fits hcd.scopes
  hidden i j s t hij hs ht name r hb hr := by
    obtain ⟨s₀, hs₀, hgs⟩ := forall₂_getElem? hcd.scopes.flip hs
    obtain ⟨t₀, ht₀, hgt⟩ := forall₂_getElem? hcd.scopes.flip ht
    have hb₀ : ⟨name, .variable .global⟩ ∈ s₀.bindings := by
      obtain ⟨new, hnew, hcaptured⟩ := hgs
      rw [hnew] at hb
      refine (List.mem_append.mp hb).resolve_right fun hb => ?_
      obtain ⟨distance, q, hkind⟩ := hcaptured _ hb
      cases hkind
    obtain ⟨m, k, u, him, hmj, hk, hu, htemplates, hname, hglobal⟩ :=
      h.hidden i j s₀ t₀ hij hs₀ ht₀ name r hb₀ (Scope.Gains.holds hgt hr)
    obtain ⟨u', hu', hgu⟩ := forall₂_getElem? hcd.scopes hu
    exact ⟨m, k, u', him, hmj, hk, hu', htemplates, hname, Scope.Gains.subset hgu hglobal⟩

/-- A change of the innermost scope alone, and of what its text tells. A new global of it is
declared by none of the others, or else hidden on the way. -/
theorem head {s t : Scope} {outer : List Scope} (h : c.Realizes table (k :: ρ))
    (hs : c.scopes = s :: outer) (hd : Sound { c with scopes := t :: outer }) (hg : s.Grows t)
    (hfits : k'.Fits t) (htemplates : k.templates → k'.templates)
    (hnew : ∀ name, ⟨name, .variable .global⟩ ∈ t.bindings →
      ⟨name, .variable .global⟩ ∈ s.bindings ∨ ∀ j u r, outer[j]? = some u → u.Holds name r →
        HiddenBetween (k' :: ρ) (t :: outer) name 0 (j + 1)) :
    Realizes table { c with scopes := t :: outer } (k' :: ρ) where
  sound := hd
  primitives := h.primitives
  fits := by
    have hold := h.fits
    rw [hs] at hold
    exact .cons hfits (List.forall₂_cons.mp hold).2
  hidden i j u v hij hu hv name r hb hr := by
    obtain ⟨j, rfl⟩ := Nat.exists_eq_add_of_lt (Nat.zero_lt_of_lt hij)
    rw [Nat.zero_add] at hij hv ⊢
    -- what hid a name before hides it now
    have hmore {i : Nat} (hold : HiddenBetween (k :: ρ) (s :: outer) name i (j + 1)) :
        HiddenBetween (k' :: ρ) (t :: outer) name i (j + 1) := by
      obtain ⟨m, k'', w, him, hmj, hk, hw, ht, hname, hglobal⟩ := hold
      cases m with
      | zero =>
        cases hk
        cases hw
        exact ⟨0, k', t, him, hmj, rfl, rfl, htemplates ht, hname, hg.bindings.subset hglobal⟩
      | succ m => exact ⟨m + 1, k'', w, him, hmj, hk, hw, ht, hname, hglobal⟩
    have hold := h.hidden
    rw [hs] at hold
    cases i with
    | zero =>
      cases hu
      obtain hb | hnew := hnew name hb
      · exact hmore (hold 0 (j + 1) s v hij rfl hv name r hb hr)
      · exact hnew j v r hv hr
    | succ i => exact hmore (hold (i + 1) (j + 1) u v hij hu hv name r hb hr)

/-- The text tells something else that is true of the innermost scope. -/
theorem refit {s : Scope} {outer : List Scope} (h : c.Realizes table (k :: ρ))
    (hs : c.scopes = s :: outer) (hfits : k'.Fits s) (htemplates : k.templates → k'.templates) :
    c.Realizes table (k' :: ρ) := by
  have hc : { c with scopes := s :: outer } = c := by rw [← hs]
  have hhead := h.head hs (hc ▸ h.sound) (.refl s) hfits htemplates fun _ hb => .inl hb
  rwa [hc] at hhead

/-- Fewer names are declared than there might be. -/
theorem forget {names : String → Prop} (h : c.Realizes table (k :: ρ))
    (hnames : ∀ name, names name → k.declares name) :
    c.Realizes table ({ k with declares := names } :: ρ) := by
  obtain ⟨s, outer, hs, hfits, -⟩ := h.exists_head
  exact h.refit hs ⟨fun name hn => hfits.declares name (hnames name hn), hfits.admits⟩ id

theorem of_declaring (h : c.Realizes table (k.declaring name :: ρ)) : c.Realizes table (k :: ρ) :=
  h.forget fun _ => .inl

end Realizes

end ScopeChain

/-- If a computation answers, then the scopes have grown, are those that contours tell of, and have
what is said of the answer for good. -/
structure Settles (table : Primitives) (contours : List Contour) (c : ScopeChain)
    (act : Resolving α) (Q : α → List Scope → Prop) : Prop where
  outcome : ∀ a d, act c = .ok a d →
    ScopesGrow c.scopes d.scopes ∧ d.Realizes table contours ∧ Lasting (Q a) d

namespace Settles

variable {P : α → List Scope → Prop} {Q : β → List Scope → Prop}

theorem pure {Q : α → List Scope → Prop} {a : α} (hc : c.Realizes table ρ) (h : Lasting (Q a) c) :
    Settles table ρ c (Pure.pure a) Q := by
  refine ⟨fun _ d ha => ?_⟩
  cases ha
  exact ⟨.refl _, hc, h⟩

theorem throw {Q : α → List Scope → Prop} (e : Failure) :
    Settles table ρ c (MonadExcept.throw e) Q :=
  ⟨fun _ _ ha => by cases ha⟩

theorem bind {x : Resolving α} {f : α → Resolving β} (hx : Settles table ρ c x P)
    (hf : ∀ a d, ScopesGrow c.scopes d.scopes → d.Realizes table ρ → Lasting (P a) d →
      Settles table σ d (f a) Q) : Settles table σ c (x >>= f) Q := by
  refine ⟨fun b e hb => ?_⟩
  obtain ⟨a, d, ha, hb⟩ := answers_of_bind hb
  obtain ⟨hcd, hd, hp⟩ := hx.outcome a d ha
  obtain ⟨hde, he, hq⟩ := (hf a d hcd hd hp).outcome b e hb
  exact ⟨hcd.trans hde, he, hq⟩

/-- What comes after a look that changes nothing. -/
theorem read {x : Resolving α} {f : α → Resolving β} {R : α → Prop}
    (hx : ∀ a d, x c = .ok a d → d = c ∧ R a) (hf : ∀ a, R a → Settles table ρ c (f a) Q) :
    Settles table ρ c (x >>= f) Q := by
  refine ⟨fun b e hb => ?_⟩
  obtain ⟨a, d, ha, hrest⟩ := answers_of_bind hb
  obtain ⟨rfl, hread⟩ := hx a d ha
  exact (hf a hread).outcome b e hrest

theorem get {f : ScopeChain → Resolving β} (hf : Settles table ρ c (f c) Q) :
    Settles table ρ c (MonadState.get >>= f) Q :=
  ⟨fun _ _ h => hf.outcome _ _ h⟩

/-- Elements one after the other, each of which the text tells more of. -/
theorem foldlM {f : β → α → Resolving β} (contours : List α → List Contour)
    (I : List α → β → List Scope → Prop) {l : List α} {b : β} (hc : c.Realizes table (contours []))
    (hb : Lasting (I [] b) c)
    (hf : ∀ before a after b d, l = before ++ a :: after → d.Realizes table (contours before) →
      Lasting (I before b) d →
        Settles table (contours (before ++ [a])) d (f b a) (I (before ++ [a]))) :
    Settles table (contours l) c (l.foldlM f b) (I l) := by
  -- along the rest of the list, with what is behind it as the state of the fold
  suffices h : ∀ rest before b d, l = before ++ rest → d.Realizes table (contours before) →
      Lasting (I before b) d → Settles table (contours l) d (rest.foldlM f b) (I l) from
    h l [] b c rfl hc hb
  intro rest
  induction rest with
  | nil =>
    rintro before b d rfl hd hb
    rw [List.append_nil]
    exact .pure hd hb
  | cons a rest ih =>
    intro before b d hl hd hb
    rw [List.foldlM_cons]
    refine (hf before a rest b d hl hd hb).bind fun b e _ he hb => ih _ b e ?_ he hb
    rw [hl, List.append_assoc, List.singleton_append]

theorem mono {Q Q' : α → List Scope → Prop} {act : Resolving α} (h : Settles table ρ c act Q)
    (hq : ∀ a d, ScopesGrow c.scopes d.scopes → Lasting (Q a) d → Lasting (Q' a) d) :
    Settles table ρ c act Q' := by
  refine ⟨fun a d ha => ?_⟩
  obtain ⟨hg, hd, h⟩ := h.outcome a d ha
  exact ⟨hg, hd, hq a d hg h⟩

/-- Fewer names are declared afterwards than there might be. -/
theorem forget {Q : α → List Scope → Prop} {act : Resolving α} {names : String → Prop}
    (h : Settles table (k :: ρ) c act Q) (hnames : ∀ name, names name → k.declares name) :
    Settles table ({ k with declares := names } :: ρ) c act Q := by
  refine ⟨fun a d ha => ?_⟩
  obtain ⟨hg, hd, hq⟩ := h.outcome a d ha
  exact ⟨hg, hd.forget hnames, hq⟩

end Settles

/-- A variable of the innermost scope is the one that its name designates there. -/
theorem Nest.designates_of_holds {scopes : List Scope} {r : Register}
    (h : (VariableRef.localVariable r).Names name scopes) :
    Nest.Designates ⟨ρ, scopes⟩ name (.localVariable r) := by
  obtain ⟨s, hs, hr⟩ := h
  rw [List.head?_eq_getElem?] at hs
  intro distance k hk _ hclear
  cases distance with
  | zero => exact ⟨s, r, hs, hr, rfl, rfl⟩
  | succ distance =>
    obtain ⟨k', hk'⟩ : ∃ k', ρ[0]? = some k' :=
      ⟨_, List.getElem?_eq_getElem (Nat.zero_lt_of_lt (List.getElem?_eq_some_iff.mp hk).1)⟩
    exact absurd hr ((hclear 0 (Nat.succ_pos distance) k' s hk' hs).1 r)

namespace Resolving

variable {s : Sexpr}

theorem ok_of_located {act : Resolving α} {place : Option Location} {a : α}
    (h : located place act c = .ok a d) : act c = .ok a d := by
  cases hact : act c with
  | ok b e => rwa [show located place act c = .ok b e from tryCatch_of_ok hact] at h
  | error x e =>
    have hlocated : located place act c = .error (x.located place) e := tryCatch_of_error hact
    rw [hlocated] at h
    cases h

theorem literal_settles {Q : Expr → List Scope → Prop} (hc : c.Realizes table ρ) (datum : Datum)
    (s : Sexpr) (h : ∀ q scopes, Q (.literal q s.location) scopes) :
    Settles table ρ c (literal datum s) Q := by
  refine ⟨fun e d he => ?_⟩
  cases he
  exact ⟨.refl _, hc.objects _, fun scopes _ => h _ scopes⟩

/-- A name becomes a global of the innermost scope where the scopes around it do not hold it, or a
template hides what they hold. -/
theorem bindGlobal_settles (hc : c.Realizes table (k :: ρ))
    (ho : k.templates ∧ name ∈ Scope.templateProcedures ∨
      HiddenOutside (k :: ρ) c.scopes name) :
    Settles table (k :: ρ) c (bindGlobal name) fun slot scopes =>
      (VariableRef.global slot).Names name scopes := by
  have hfree : name ∈ Scope.templateProcedures ∨ ∀ o ∈ c.scopes.tail, ∀ r, ¬ o.Holds name r := by
    by_cases hn : name ∈ Scope.templateProcedures
    · exact .inl hn
    refine .inr fun o ho' r hr => ?_
    obtain ⟨j, hj⟩ := List.mem_iff_getElem?.mp ho'
    rw [List.getElem?_tail] at hj
    obtain ⟨-, hname⟩ | houtside := ho
    · exact hn hname
    · obtain ⟨_, _, _, -, -, -, -, -, hname, -⟩ := houtside j o r hj hr
      exact hn hname
  refine ⟨fun slot d h => ?_⟩
  obtain ⟨hcd, hnames⟩ := (bindGlobal_keeps hc.sound hfree).of_ok h
  refine ⟨hcd.scopes.grow, ?_, fun scopes hs => hnames.grow hs⟩
  obtain ⟨s, outer, hs, hfits, -⟩ := hc.exists_head
  have hcurrent : current c = .ok s c := by
    rw [current, bind_of_ok (x := get) (s := c) rfl, hs]
    rfl
  rw [bindGlobal, bind_of_ok hcurrent] at h
  cases hf : s.find? name with
  | some found =>
    obtain ⟨slot', n, p | kind⟩ := found
    · rw [hf] at h
      cases h
    · rw [hf] at h
      cases kind <;> cases h
      exact hc
  | none =>
    have hb := Scope.find?_eq_none.mp hf
    have hupdate := update_eq hs (f := (·.define name (.variable .global) none))
    rw [Scope.define_of_not_binds _ _ hb] at hupdate
    rw [hf] at h
    cases hupdate.symm.trans h
    refine hc.head hs (hcd.sound hc.sound) (Scope.grows_add s _)
      (hfits.imports (Scope.grows_add s _).bindings.subset (Scope.imports_add rfl).holds) id ?_
    intro n hn
    obtain hn | hn := List.mem_append.mp hn
    · exact .inl hn
    cases List.mem_singleton.mp hn
    refine .inr fun j u r hu hr => ?_
    obtain ⟨htemplates, hname⟩ | houtside := ho
    · exact ⟨0, k, _, Nat.le_refl 0, Nat.succ_pos j, rfl, rfl, htemplates, hname,
        List.mem_append_right _ (List.mem_singleton_self _)⟩
    · rw [hs] at houtside
      have hhidden := hiddenBetween_cons.mp (houtside j u r hu hr)
      exact (hiddenBetween_cons.mpr hhidden).mono (Nat.zero_le 1)

theorem global_settles (hc : c.Realizes table (k :: ρ))
    (ho : k.templates ∧ name ∈ Scope.templateProcedures ∨
      HiddenOutside (k :: ρ) c.scopes name) (s : Sexpr) :
    Settles table (k :: ρ) c (global name s) fun v scopes =>
      ∃ slot, v = .global slot ∧ (VariableRef.global slot).Names name scopes := by
  have hbind : Settles table (k :: ρ) c (located s.location (bindGlobal name)) fun slot scopes =>
      (VariableRef.global slot).Names name scopes :=
    ⟨fun slot d h => (bindGlobal_settles hc ho).outcome slot d (ok_of_located h)⟩
  exact hbind.bind fun slot d _ hd hnames => .pure hd fun scopes hs => ⟨slot, rfl, hnames scopes hs⟩

/-- What a lookup leaves: captures, or a global in the innermost scope, of a name that is hidden
from whatever holds it outside. -/
def LooksUp (contours : List Contour) (name : String) (c d : ScopeChain) : Prop :=
  c.Gains d ∨ ∃ slot, bindGlobal name c = .ok slot d ∧ HiddenOutside contours c.scopes name

theorem resolve_looksUp (hc : c.Realizes table (k :: ρ)) (name : String) :
    Leaves c (resolve name) (fun _ d => LooksUp (k :: ρ) name c d) fun _ _ => True := by
  refine Leaves.bind (P := fun a d => a = c ∧ d = c) ⟨rfl, rfl⟩ ?_
  rintro _ c ⟨rfl, rfl⟩
  have hbind (h : HiddenOutside (k :: ρ) c.scopes name) :
      Leaves c (do return Resolution.global (← bindGlobal name))
        (fun _ d => LooksUp (k :: ρ) name c d) fun _ _ => True := by
    cases hact : bindGlobal name c with
    | ok slot d => exact .answers (bind_of_ok hact) (.inr ⟨slot, hact, h⟩)
    | error x d => exact .fails (bind_of_error hact) trivial
  have hcapture (distance owner : Nat) (r : Register) :
      Leaves c (captureFrom name distance owner r) (fun _ d => LooksUp (k :: ρ) name c d)
        fun _ _ => True := by
    cases hslot : (capture name r distance owner c.scopes).1 with
    | ok slot => exact .answers (captureFrom_of_ok hslot) (.inl ⟨rfl, Scope.gains_capture⟩)
    | error x => exact .fails (captureFrom_of_error hslot) trivial
  cases hfound : findIn name c.scopes with
  | none =>
    have hfree := findIn_eq_none hfound
    dsimp only
    split
    · exact .throw trivial
    · split
      · exact .pure (.inl (.refl c))
      · exact hbind fun j s r hs hr => absurd hr
          (Scope.not_holds_of_binds_eq_false (hfree s (List.mem_of_getElem? hs)) r)
  | some found =>
    obtain ⟨distance, slot, ⟨n, kind⟩⟩ := found
    obtain ⟨rfl, ⟨s, hs, hb⟩, hi⟩ := findIn_eq_some hfound
    have hmem := List.mem_of_getElem? hb
    dsimp only
    split
    case h_3 hdistance =>
      refine hbind fun j t r ht hr => ?_
      rcases Nat.lt_trichotomy (j + 1) distance with hlt | rfl | hlt
      · exact absurd hr (Scope.not_holds_of_binds_eq_false (hi (j + 1) hlt t ht) r)
      · obtain rfl : s = t := Option.some.inj (hs.symm.trans ht)
        obtain ⟨outer, -, hin, -⟩ := hc.sound.inside_at hs
        exact absurd hr (hin.valid.not_holds hmem rfl r)
      · have hhidden := hc.hidden distance (j + 1) s t hlt hs ht _ r hmem hr
        exact hhidden.mono (Nat.pos_of_ne_zero hdistance)
    case h_7 => exact hcapture _ _ _
    case h_8 => exact hcapture _ _ _
    case h_9 =>
      split
      · exact .throw trivial
      · exact hcapture _ _ _
    all_goals exact .pure (.inl (.refl c))

theorem resolve_settles (hc : c.Realizes table (k :: ρ)) (name : String) :
    Settles table (k :: ρ) c (resolve name) fun _ _ => True := by
  refine ⟨fun res d h => ?_⟩
  obtain ⟨hcd, -⟩ := (resolve_keeps hc.sound name).of_ok h
  refine ⟨hcd.scopes.grow, ?_, fun _ _ => trivial⟩
  obtain hgains | ⟨slot, hbind, houtside⟩ := (resolve_looksUp hc name).of_ok h
  · exact hc.gains hgains (hcd.sound hc.sound)
  · exact ((bindGlobal_settles hc (.inr houtside)).outcome slot d hbind).2.1

/-- What a name was resolved to is what it designates. -/
theorem designates_of_variableRef (hc : c.Realizes table ρ) {v : VariableRef}
    (h : variableRef name s c = .ok v d) :
    Lasting (fun scopes => Nest.Designates ⟨ρ, scopes⟩ name v) d := by
  intro scopes hds distance k hk hdeclares hclear
  have hcd := ((variableRef_keeps hc.sound name s).of_ok h).1.scopes.grow
  obtain ⟨o, ho, hfits⟩ := forall₂_getElem? hc.fits hk
  obtain ⟨r, hr⟩ := hfits.declares name hdeclares
  -- what is clear of the name in the end is clear of it here
  have hlater {i : Nat} {t : Scope} (ht : c.scopes[i]? = some t) :
      ∃ k' u, ρ[i]? = some k' ∧ scopes[i]? = some u ∧ t.Grows u := by
    obtain ⟨k', hk', -⟩ := forall₂_getElem? hc.fits.flip ht
    obtain ⟨u, hu, htu⟩ := forall₂_getElem? (hcd.trans hds) ht
    exact ⟨k', u, hk', hu, htu⟩
  have hdeclared : c.Declared name distance r := by
    refine ⟨⟨o, ho, hr⟩, fun i hi t ht q hq => ?_⟩
    obtain ⟨k', u, hk', hu, htu⟩ := hlater ht
    exact (hclear i hi k' u hk' hu).1 q (hq.grows htu)
  have hglobal : ∀ i < distance, ∀ t, c.scopes[i]? = some t →
      ⟨name, .variable .global⟩ ∉ t.bindings := by
    intro i hi t ht hb
    obtain ⟨m, k', u, -, hm, hk', hu, htemplates, hname, hhides⟩ :=
      hc.hidden i distance t o hi ht ho name r hb hr
    obtain ⟨k'', u', hk'', hu', huu'⟩ := hlater hu
    obtain rfl : k'' = k' := Option.some.inj (hk''.symm.trans hk')
    exact (hclear m hm k'' u' hk'' hu').2 ⟨htemplates, hname, huu'.bindings.subset hhides⟩
  obtain ⟨-, hreaches⟩ := (variableRef_reaches hc.sound hdeclared hglobal s).of_ok h
  obtain ⟨-, u, -, hu, hou⟩ := hlater ho
  exact ⟨u, r, hu, hr.grows hou, hreaches.grow hds⟩

theorem variableRef_settles (hc : c.Realizes table (k :: ρ)) (name : String) (s : Sexpr) :
    Settles table (k :: ρ) c (variableRef name s) fun v scopes =>
      Nest.Designates ⟨k :: ρ, scopes⟩ name v := by
  refine ⟨fun v d h => ⟨?_, ?_, designates_of_variableRef hc h⟩⟩
  · exact ((variableRef_keeps hc.sound name s).of_ok h).1.scopes.grow
  obtain ⟨res, e, hres, hv⟩ := answers_of_bind h
  replace hres := ok_of_located hres
  obtain ⟨-, he, -⟩ := (resolve_settles hc name).outcome res e hres
  cases res with
  | localVariable r slot =>
    cases hv
    exact he
  | global slot =>
    cases hv
    exact he
  | captured slot =>
    cases hv
    exact he
  | primitive p =>
    obtain ⟨-, rfl, hfree⟩ := (resolve_keeps hc.sound name).of_ok hres
    cases p with
    | form f => cases hv
    | operator op =>
      dsimp only at hv
      split at hv
      · refine ((global_settles he (.inr fun j t r ht hr => ?_) s).outcome v d hv).2.1
        exact absurd hr (Scope.not_holds_of_binds_eq_false (hfree t (List.mem_of_getElem? ht)) r)
      · cases hv

/-- The name that a template calls is a global of the innermost scope. -/
theorem templateGlobal_settles (hc : c.Realizes table (k :: ρ)) (hk : k.templates)
    (hn : name ∈ Scope.templateProcedures) (s : Sexpr) :
    Settles table (k :: ρ) c (global name s) fun v scopes =>
      ∃ slot, v = .global slot ∧ (VariableRef.global slot).Names name scopes :=
  global_settles hc (.inl ⟨hk, hn⟩) s

/-- A variable of the innermost scope is one more name that its procedure has declared. -/
theorem defineRegister_settles (hc : c.Realizes table (k :: ρ)) (hn : k.admits name)
    {kind : Register → VariableKind} (hk : ∀ r, (kind r).register? = some r)
    (place : Option Location) :
    Settles table (k.declaring name :: ρ) c (update (·.defineRegister name kind place))
      fun p scopes => (VariableRef.localVariable p.2).Names name scopes := by
  refine ⟨fun p d h => ?_⟩
  obtain ⟨s, outer, hs, hfits, -⟩ := hc.exists_head
  rw [update_eq hs] at h
  cases hdefine : s.defineRegister name kind place with
  | error x =>
    rw [hdefine] at h
    cases h
  | ok q =>
    obtain ⟨⟨slot, r⟩, t⟩ := q
    rw [hdefine] at h
    cases h
    obtain ⟨hfree, hlt, hr, -, rfl⟩ := Scope.defineRegister_eq_ok hdefine
    obtain ⟨hin, houter⟩ := hc.sound.inside hs
    have hsound : Sound { c with scopes := s.addRegister ⟨name, .variable (kind r)⟩ :: outer } :=
      ⟨List.cons_ne_nil _ _, hin.addRegister hfree (hk r) hr hlt, houter⟩
    refine ⟨hs ▸ .cons (Scope.grows_addRegister s _) (ScopesGrow.refl outer), ?_, ?_⟩
    · refine hc.head hs hsound (Scope.grows_addRegister s _) (hfits.addRegister (hk r) hn) id ?_
      intro n hb
      obtain hb | hb := List.mem_append.mp hb
      · exact .inl hb
      · have hregister := congrArg Binding.register? (List.mem_singleton.mp hb)
        cases hregister.trans (hk r)
    · intro scopes hscopes
      refine VariableRef.Names.grow ⟨_, rfl, ?_⟩ hscopes
      exact ⟨_, List.mem_append_right _ (List.mem_singleton_self _), rfl, hk r⟩

theorem shadowPrimitive_settles (hc : c.Realizes table (k :: ρ)) (name : String) :
    Settles table (k :: ρ) c (shadowPrimitive name) fun _ _ => True := by
  refine ⟨fun _ d h => ?_⟩
  obtain ⟨hcd, -⟩ := (shadowPrimitive_keeps hc.sound name).of_ok h
  obtain ⟨s, outer, hs, hfits, -⟩ := hc.exists_head
  cases (update_eq hs).symm.trans h
  refine ⟨hcd.scopes.grow, ?_, fun _ _ => trivial⟩
  refine hc.head hs (hcd.sound hc.sound) (Scope.grows_shadow s name) ?_ id fun n hn => .inl ?_
  · exact hfits.imports (Scope.grows_shadow s name).bindings.subset fun n r hr => by
      simpa [Scope.Holds] using hr
  · simpa using hn

/-- Inside a procedure a definition is one of a local variable. -/
theorem localTarget_settles (hc : c.Realizes table (k :: ρ)) (hρ : ρ ≠ []) (hn : k.admits name)
    (s : Sexpr) :
    Settles table (k.declaring name :: ρ) c (definitionTarget name s) fun v scopes =>
      ∃ r, v = .localVariable r ∧ v.Names name scopes := by
  obtain ⟨t, outer, ht, hfits, houter⟩ := hc.exists_head
  have hnested : c.isTopLevel = false := by
    have hlength := houter.length_eq
    have hpos := List.length_pos_iff.mpr hρ
    simp only [isTopLevel, depth, ht, List.length_cons, beq_eq_false_iff_ne]
    omega
  refine Settles.get ?_
  rw [if_neg (by simp [hnested])]
  refine Settles.read (R := (t = ·)) (fun u d h => ?_) ?_
  · rw [current, bind_of_ok (x := get) (s := c) rfl, ht] at h
    cases h
    exact ⟨rfl, rfl⟩
  rintro t rfl
  split
  case h_1 n r hf =>
    obtain ⟨hb, rfl⟩ := Scope.find?_eq_some hf
    have hr : t.Holds n r := ⟨_, List.mem_of_getElem? hb, rfl, rfl⟩
    refine .pure (hc.refit ht ⟨fun m hm => ?_, hfits.admits⟩ id) fun scopes hs => ⟨r, rfl, ?_⟩
    · exact hm.elim (hfits.declares m) fun hm => ⟨r, hm ▸ hr⟩
    · exact VariableRef.Names.grow ⟨t, by rw [ht]; rfl, hr⟩ hs
  case h_2 => exact .throw _
  case h_3 => exact .throw _
  case h_4 =>
    refine (defineRegister_settles hc hn (fun _ => rfl) s.location).bind fun p d _ hd hp => ?_
    exact .pure hd fun scopes hs => ⟨p.2, rfl, hp scopes hs⟩

theorem definitionTarget_settles (hc : c.Realizes table (k :: ρ)) (hn : k.admits name) (s : Sexpr) :
    Settles table (k :: ρ) c (definitionTarget name s) fun v scopes =>
      Nest.Designates ⟨k :: ρ, scopes⟩ name v := by
  cases ρ with
  | cons k' ρ =>
    have htarget := localTarget_settles hc (List.cons_ne_nil k' ρ) hn s
    refine (htarget.forget fun _ => .inl).mono fun v d _ hv scopes hs => ?_
    obtain ⟨r, rfl, hnames⟩ := hv scopes hs
    exact Nest.designates_of_holds hnames
  | nil =>
    obtain ⟨t, outer, ht, -, houter⟩ := hc.exists_head
    cases houter
    have htop : c.isTopLevel := by
      rw [isTopLevel, depth, ht]
      rfl
    refine Settles.get ?_
    rw [if_pos htop]
    refine (global_settles hc (.inr fun j u r hu => ?_) s).bind fun v d _ hd hv => ?_
    · rw [ht] at hu
      cases hu
    -- what is a global of the whole program is not declared there
    have hdesignates : Lasting (fun scopes => Nest.Designates ⟨[k], scopes⟩ name v) d := by
      intro scopes hs distance k' hk' hdeclares
      obtain ⟨slot, rfl, u, hu, hb⟩ := hv _ (.refl _)
      obtain ⟨w, outer, hw, hfits, -⟩ := hd.exists_head
      obtain rfl : w = u := by simpa [hw] using hu
      cases distance with
      | zero =>
        cases hk'
        obtain ⟨r, hr⟩ := hfits.declares name hdeclares
        obtain ⟨hin, -⟩ := hd.sound.inside hw
        exact absurd hr (hin.valid.not_holds (List.mem_of_getElem? hb) rfl r)
      | succ distance => cases hk'
    dsimp only
    split
    · refine (shadowPrimitive_settles hd name).bind fun _ e hde he _ => ?_
      exact .pure he (hdesignates.mono hde)
    · exact .pure hd hdesignates

end Resolving

end RegisterScheme
