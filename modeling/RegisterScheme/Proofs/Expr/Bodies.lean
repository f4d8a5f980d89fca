import RegisterScheme.Proofs.Expr.Settling

/-! Bodies of procedures. All that a body defines is declared before anything in it is resolved, so
that its contour is there from its first form on. -/

namespace RegisterScheme

open ScopeChain

variable {α : Type} {table : Primitives} {k k₁ k₂ : Contour} {ρ : List Contour} {c d : ScopeChain}

/-- A form at the level of a body defines the name, if keywords have these meanings. -/
inductive Introduces (meaning : String → Option Primitive) : Sexpr → String → Prop
  | define {head name : String} {place location : Option Location} {target : Sexpr}
      {forms : List Sexpr} (keyword : meaning head = some (.form .define))
      (defined : Resolving.definedName? target = some name) :
      Introduces meaning (.list (.identifier head place :: target :: forms) location) name
  | begin {head name : String} {place location : Option Location} {forms : List Sexpr} {s : Sexpr}
      (keyword : meaning head = some (.form .begin)) (form : s ∈ forms)
      (introduces : Introduces meaning s name) :
      Introduces meaning (.list (.identifier head place :: forms) location) name

theorem Introduces.mono {meaning meaning' : String → Option Primitive} {s : Sexpr} {name : String}
    (h : Introduces meaning s name)
    (hle : ∀ head p, meaning head = some p → meaning' head = some p) :
    Introduces meaning' s name := by
  induction h with
  | define keyword defined => exact .define (hle _ _ keyword) defined
  | begin keyword form _ ih => exact .begin (hle _ _ keyword) form ih

/-- A procedure that has declared some more names. -/
def Contour.with (k : Contour) (names : String → Prop) : Contour :=
  { k with declares := fun name => k.declares name ∨ names name }

theorem ScopeChain.Realizes.with_of_imp {names names' : String → Prop}
    (h : c.Realizes table (k.with names :: ρ)) (hnames : ∀ name, names' name → names name) :
    c.Realizes table (k.with names' :: ρ) :=
  h.forget fun name => Or.imp_right (hnames name)

theorem ScopeChain.Realizes.with_none {names : String → Prop} (h : c.Realizes table (k :: ρ))
    (hnames : ∀ name, ¬ names name) : c.Realizes table (k.with names :: ρ) :=
  h.forget fun name hn => hn.resolve_right (hnames name)

namespace Resolving

mutual

/-- From now on the innermost scope holds what the forms define. -/
theorem declareDefinitions_settles {c : ScopeChain} {k : Contour} (hc : c.Realizes table (k :: ρ)) :
    (forms : List Sexpr) → (∀ s ∈ forms, k.Covers table s) →
      ∀ d, declareDefinitions forms c = .ok ⟨⟩ d → ScopesGrow c.scopes d.scopes ∧
        d.Realizes table (k.with (fun name => ∃ s ∈ forms, Introduces d.primitive? s name) :: ρ)
  | [], _, d, h => by
    rw [declareDefinitions] at h
    cases h
    exact ⟨.refl _, hc.with_none fun name ⟨s, hs, _⟩ => by cases hs⟩
  | form :: forms, hforms, d, h => by
    rw [declareDefinitions] at h
    obtain ⟨_, b, hform, h⟩ := answers_of_bind h
    obtain ⟨hcb, hb⟩ := declareDefinition_settles hc form (hforms form List.mem_cons_self) b hform
    obtain ⟨hbd, hd⟩ := declareDefinitions_settles hb forms (fun s hs =>
      have h := hforms s (List.mem_cons_of_mem _ hs)
      ⟨h.admits, h.templates⟩) d h
    refine ⟨hcb.trans hbd, hd.forget fun name hname => ?_⟩
    rcases hname with hname | ⟨s, hs, hname⟩
    · exact Or.inl (Or.inl hname)
    obtain rfl | hs := List.mem_cons.mp hs
    · exact Or.inl (Or.inr (hname.mono fun head p => hb.primitive?_of_grows hd hbd))
    · exact Or.inr ⟨s, hs, hname⟩

theorem declareDefinition_settles {c : ScopeChain} {k : Contour} (hc : c.Realizes table (k :: ρ)) :
    (s : Sexpr) → k.Covers table s → ∀ d, declareDefinition s c = .ok ⟨⟩ d →
      ScopesGrow c.scopes d.scopes ∧ d.Realizes table (k.with (Introduces d.primitive? s) :: ρ)
  | .list (.identifier head place :: operands) location, hs, d, h => by
    rw [declareDefinition] at h
    obtain ⟨p, b, hp, h⟩ := answers_of_bind h
    obtain ⟨hhead, rfl⟩ : p = c.primitive? head ∧ c = b := by
      cases hp
      exact ⟨rfl, rfl⟩
    -- what is a keyword later on is the same one here
    have hsame {form : SpecialForm} (hcd : ScopesGrow c.scopes d.scopes)
        (hd : d.Realizes table (k :: ρ)) (hmeaning : d.primitive? head = some (.form form)) :
        p = some (.form form) :=
      hhead.trans (hc.primitive?_of_grows hd hcd hmeaning)
    split at h
    · cases ho : operands.head?.bind definedName? with
      | none =>
        rw [ho] at h
        cases h
        refine ⟨.refl _, hc.with_none fun name hname => ?_⟩
        cases hname with
        | define keyword defined => cases ho.symm.trans defined
        | begin keyword => cases hsame (.refl _) hc keyword
      | some name =>
        rw [ho] at h
        obtain ⟨q, e, hdefine, h⟩ := answers_of_bind h
        cases h
        obtain ⟨target, forms, rfl, hname⟩ : ∃ target forms, operands = target :: forms ∧
            definedName? target = some name := by
          cases operands with
          | nil => cases ho
          | cons target forms => exact ⟨target, forms, rfl, ho⟩
        have hkeyword := hc.primitive?_eq_some hhead.symm
        have hadmits := hs.admits name
          ⟨head, place, target, forms, location, .self, hkeyword, hname⟩
        obtain ⟨hcd, hd, -⟩ :=
          (defineRegister_settles hc hadmits (fun _ => rfl) location).outcome q d hdefine
        refine ⟨hcd, hd.forget fun n hn => hn.imp_right fun hn => ?_⟩
        cases hn with
        | define keyword defined => exact Option.some.inj (defined.symm.trans hname)
        | begin keyword => cases hsame hcd hd.of_declaring keyword
    · obtain ⟨hcd, hd⟩ := declareDefinitions_settles hc operands
        (fun s hm => hs.part (.list (List.mem_cons_of_mem _ hm) .self)) d h
      refine ⟨hcd, hd.with_of_imp fun name hname => ?_⟩
      have hdk : d.Realizes table (k :: ρ) := hd.forget fun _ => Or.inl
      cases hname with
      | define keyword => cases hsame hcd hdk keyword
      | begin _ form introduces => exact ⟨_, form, introduces⟩
    · rename_i hdefine hbegin
      cases h
      refine ⟨.refl _, hc.with_none fun name hname => ?_⟩
      cases hname with
      | define keyword => exact hdefine (hsame (.refl _) hc keyword)
      | begin keyword => exact hbegin (hsame (.refl _) hc keyword)
  | .list [] _, _, d, h | .list (.literal _ _ :: _) _, _, d, h | .list (.list _ _ :: _) _, _, d, h
  | .list (.dotted _ _ _ :: _) _, _, d, h | .list (.vector _ _ :: _) _, _, d, h
  | .literal _ _, _, d, h | .identifier _ _, _, d, h | .dotted _ _ _, _, d, h
  | .vector _ _, _, d, h => by
    unfold declareDefinition at h
    cases h
    exact ⟨.refl _, hc.with_none fun name hname => by cases hname⟩

end

/-- A resolution of expressions of at most a given height finds the variables that their names
designate. What comes out as a definition was one by its keyword before. -/
structure Lexicalizes (table : Primitives) (expand : Expand) (n : Nat) : Prop where
  settles : ∀ {k : Contour} {ρ : List Contour} {c : ScopeChain} {s : Sexpr},
    c.Realizes table (k :: ρ) → k.Spans table n s →
      Settles table (k :: ρ) c (expand s) fun e scopes => Lexical table ⟨k :: ρ, scopes⟩ s e
  introduces : ∀ {k : Contour} {ρ : List Contour} {c d : ScopeChain} {s : Sexpr} {e : Expr}
    {name : String}, c.Realizes table (k :: ρ) → k.Spans table n s → expand s c = .ok e d →
      Defines table s e name → Introduces c.primitive? s name

variable {expand : Expand} {n : Nat} {forms : List Sexpr}

theorem mapM_settles (he : Lexicalizes table expand n) (hc : c.Realizes table (k :: ρ))
    (hforms : ∀ s ∈ forms, k.Spans table n s) :
    Settles table (k :: ρ) c (forms.mapM expand) fun es scopes =>
      LexicalForms table ⟨k :: ρ, scopes⟩ forms es := by
  induction forms generalizing c with
  | nil =>
    rw [List.mapM_nil]
    exact .pure hc fun _ _ => .nil
  | cons s forms ih =>
    rw [List.mapM_cons]
    refine (he.settles hc (hforms s List.mem_cons_self)).bind fun e d _ hd hs => ?_
    refine (ih hd fun s hs => hforms s (List.mem_cons_of_mem _ hs)).bind fun es b hdb hb hes => ?_
    exact .pure hb fun scopes hg => .cons (hs scopes (hdb.trans hg)) (hes scopes hg)

theorem sequence_settles (he : Lexicalizes table expand n) (hc : c.Realizes table (k :: ρ))
    (hforms : ∀ s ∈ forms, k.Spans table n s) (location : Option Location) :
    Settles table (k :: ρ) c (sequence expand forms location) fun e scopes =>
      LexicalSequence table ⟨k :: ρ, scopes⟩ forms e := by
  unfold sequence
  split
  · refine (he.settles hc (hforms _ List.mem_cons_self)).mono fun e d _ hs scopes hg => ?_
    exact .single (hs scopes hg)
  · rename_i hseveral
    have hlength : forms.length ≠ 1 := fun hone =>
      have ⟨s, hs⟩ := List.length_eq_one_iff.mp hone
      hseveral s hs
    exact (mapM_settles he hc hforms).bind fun es d _ hd hes =>
      .pure hd fun scopes hg => .several hlength (hes scopes hg)

theorem mapM_introduces (he : Lexicalizes table expand n) (hc : c.Realizes table (k :: ρ))
    (hforms : ∀ s ∈ forms, k.Spans table n s) {es : List Expr} (h : forms.mapM expand c = .ok es d)
    {i : Nat} {s : Sexpr} {e : Expr} {name : String} (hs : forms[i]? = some s)
    (hi : es[i]? = some e) (hdefines : Defines table s e name) :
    Introduces c.primitive? s name := by
  induction forms generalizing c es i with
  | nil => cases hs
  | cons form forms ih =>
    rw [List.mapM_cons] at h
    obtain ⟨e', b, hform, h⟩ := answers_of_bind h
    obtain ⟨es', b', hrest, h⟩ := answers_of_bind h
    cases h
    have hspans := hforms form List.mem_cons_self
    cases i with
    | zero =>
      cases hs
      cases hi
      exact he.introduces hc hspans hform hdefines
    | succ i =>
      obtain ⟨hcb, hb, -⟩ := (he.settles hc hspans).outcome e' b hform
      refine (ih hb (fun s hs => hforms s (List.mem_cons_of_mem _ hs)) hrest hs hi).mono ?_
      exact fun head p => hc.primitive?_of_grows hb hcb

theorem sequence_introduces (he : Lexicalizes table expand n) (hc : c.Realizes table (k :: ρ))
    (hforms : ∀ s ∈ forms, k.Spans table n s) {location : Option Location} {e : Expr}
    (h : sequence expand forms location c = .ok e d) {name : String}
    (hdefines : BodyDefines table forms e name) :
    ∃ s ∈ forms, Introduces c.primitive? s name := by
  cases hdefines with
  | single defines =>
    exact ⟨_, List.mem_cons_self, he.introduces hc (hforms _ List.mem_cons_self) h defines⟩
  | several several form item defines =>
    unfold sequence at h
    split at h
    · exact absurd rfl several
    · obtain ⟨es, b, hes, h⟩ := answers_of_bind h
      cases h
      exact ⟨_, List.mem_of_getElem? form, mapM_introduces he hc hforms hes form item defines⟩

/-- A body inside its procedure, whose scope may still grow. -/
def LexicalWithin (table : Primitives) (ρ : List Contour) (names : List String)
    (text forms : List Sexpr) (e : Expr) (scopes : List Scope) : Prop :=
  ∃ declares : String → Prop, (∀ name ∈ names, declares name) ∧
    (∀ name, BodyDefines table forms e name → declares name) ∧
    (∀ name, declares name → ∃ r, (VariableRef.localVariable r).Names name scopes) ∧
    LexicalSequence table ⟨.ofText table names declares text :: ρ, scopes⟩ forms e

theorem body_settles (he : Lexicalizes table expand n) {names : List String} {text : List Sexpr}
    (hc : c.Realizes table (.ofNames table names text :: ρ))
    (hforms : ∀ s ∈ forms, s ∈ text ∧ s.height ≤ n) (location : Option Location) :
    Settles table (.ofNames table names text :: ρ) c (body expand forms location)
      (LexicalWithin table ρ names text forms) := by
  refine ⟨fun e b h => ?_⟩
  obtain ⟨_, d, hdeclare, hbody⟩ := answers_of_bind h
  have hspans (declares : String → Prop) : ∀ s ∈ forms,
      (Contour.ofText table names declares text).Spans table n s :=
    fun s hs => ⟨Contour.ofText_covers (hforms s hs).1, (hforms s hs).2⟩
  obtain ⟨hcd, hd⟩ := declareDefinitions_settles hc forms
    (fun s hs => (hspans _ s hs).toCovers) d hdeclare
  obtain ⟨hdb, hb, he'⟩ := (sequence_settles he hd (fun s hs => hspans _ s hs) location).outcome
    e b hbody
  refine ⟨hcd.trans hdb, hb.forget fun _ => Or.inl, fun scopes hs => ?_⟩
  refine ⟨_, fun _ => Or.inl, fun name hdefines => Or.inr ?_, fun name hname => ?_, he' scopes hs⟩
  · exact sequence_introduces he hd (fun s hs => hspans _ s hs) hbody hdefines
  · obtain ⟨s, outer, hscopes, hfits, -⟩ := hb.exists_head
    obtain ⟨r, hr⟩ := hfits.declares name hname
    exact ⟨r, VariableRef.Names.grow ⟨s, by rw [hscopes]; rfl, hr⟩ hs⟩

end Resolving

namespace ScopeChain

/-- A new scope, in which nothing is declared yet. -/
theorem Realizes.push (hc : c.Realizes table ρ) (hk : ∀ name, ¬ k.declares name) :
    Realizes table { c with scopes := .empty :: c.scopes } (k :: ρ) where
  sound := ⟨List.cons_ne_nil _ _, Scope.inside_empty _, hc.sound.valid⟩
  primitives := hc.primitives
  fits := .cons ⟨fun name hn => absurd hn (hk name),
    fun name r => by simp [Scope.Holds, Scope.empty]⟩ hc.fits
  hidden i j s t hij hs ht name r hb hr := by
    obtain ⟨j, rfl⟩ := Nat.exists_eq_add_of_lt (Nat.zero_lt_of_lt hij)
    cases i with
    | zero =>
      cases hs
      cases hb
    | succ i =>
      rw [Nat.zero_add] at hij ht ⊢
      have hhidden := hc.hidden i j s t (Nat.lt_of_succ_lt_succ hij) hs ht name r hb hr
      exact hiddenBetween_cons.mpr hhidden

theorem Realizes.pop {s : Scope} {outer : List Scope} (hc : c.Realizes table (k :: ρ))
    (hs : c.scopes = s :: outer) (hne : outer ≠ []) :
    Realizes table { c with scopes := outer } ρ where
  sound := ⟨hne, (hc.sound.inside hs).2⟩
  primitives := hc.primitives
  fits := by
    have hfits := hc.fits
    rw [hs] at hfits
    exact (List.forall₂_cons.mp hfits).2
  hidden i j t u hij ht hu name r hb hr := by
    have hhidden := hc.hidden (i + 1) (j + 1) t u (Nat.succ_lt_succ hij)
    rw [hs] at hhidden
    exact hiddenBetween_cons.mp (hhidden ht hu name r hb hr)

end ScopeChain

namespace Resolving

theorem pop_eq_ok {s : Scope} (h : pop c = .ok s d) :
    c.scopes = s :: d.scopes ∧ d = { c with scopes := d.scopes } := by
  cases hc : c.scopes with
  | nil =>
    rw [pop, bind_of_ok (x := get) (s := c) rfl, hc] at h
    cases h
  | cons t outer =>
    cases (pop_of_cons hc).symm.trans h
    exact ⟨rfl, rfl⟩

/-- An answer from a new scope, which is finished afterwards. -/
theorem answers_of_inScope {act : Resolving α} {p : α × Scope} (h : inScope act c = .ok p d) :
    ∃ e : ScopeChain, act { c with scopes := .empty :: c.scopes } = .ok p.1 e ∧
      e.scopes = p.2 :: d.scopes ∧ d = { e with scopes := d.scopes } := by
  obtain ⟨_, b, hpush, hrest⟩ := answers_of_bind h
  cases hpush
  obtain ⟨a, e, hcatch, hrest⟩ := answers_of_bind hrest
  obtain ⟨s, b, hpop, hanswer⟩ := answers_of_bind hrest
  cases hanswer
  obtain ⟨hscopes, hd⟩ := pop_eq_ok hpop
  cases hact : act { c with scopes := .empty :: c.scopes } with
  | error x e' =>
    rw [tryCatch_of_error hact] at hcatch
    obtain ⟨_, _, -, hthrow⟩ := answers_of_bind hcatch
    cases hthrow
  | ok a' e' =>
    cases (tryCatch_of_ok hact).symm.trans hcatch
    exact ⟨e, rfl, hscopes, hd⟩

/-- A computation in a new scope, which is finished and gone afterwards. -/
theorem inScope_settles (hc : c.Realizes table ρ) {act : Resolving α} {P : α → List Scope → Prop}
    (h : Settles table (k :: ρ) { c with scopes := .empty :: c.scopes } act P) :
    Settles table ρ c (inScope act) fun p scopes => P p.1 (p.2 :: scopes) ∧ k.Fits p.2 := by
  refine ⟨fun p d hact => ?_⟩
  obtain ⟨e, hact, hs, hd⟩ := answers_of_inScope hact
  obtain ⟨hg, he, hp⟩ := h.outcome p.1 e hact
  obtain ⟨s, outer, hs', hfits, houter⟩ := he.exists_head
  obtain ⟨rfl, rfl⟩ := List.cons.inj (hs.symm.trans hs')
  have hne : d.scopes ≠ [] := fun hnil => by
    rw [hnil] at houter
    cases houter
    exact hc.sound.ne_nil (List.forall₂_nil_left_iff.mp hc.fits)
  rw [hs] at hg
  refine ⟨(List.forall₂_cons.mp hg).2, hd ▸ he.pop hs hne, fun scopes hscopes => ⟨?_, hfits⟩⟩
  exact hp _ (hs ▸ .cons (.refl p.2) hscopes)

/-- A procedure whose scope declares something, and whose body is then resolved there. -/
theorem procedure_settles (hc : c.Realizes table ρ) (name : Option String)
    (location : Option Location) {declare : Resolving (Parameters Function)}
    {build : Resolving Expr} {P : Parameters Function → List Scope → Prop}
    {Q : Expr → List Scope → Prop} (hk : ∀ name, ¬ k.declares name)
    (hdeclare : ∀ d : ScopeChain, d.Realizes table (k :: ρ) → Settles table (k₁ :: ρ) d declare P)
    (hbuild : ∀ d : ScopeChain, d.Realizes table (k₁ :: ρ) → Settles table (k₂ :: ρ) d build Q) :
    Settles table ρ c (procedure name location declare build) fun f scopes =>
      P f.parameters (f.scope :: scopes) ∧ Q f.body (f.scope :: scopes) ∧ k₂.Fits f.scope := by
  have hact : Settles table (k₂ :: ρ) { c with scopes := .empty :: c.scopes } (do
      let parameters ← declare
      let body ← build
      return (parameters, body)) fun p scopes => P p.1 scopes ∧ Q p.2 scopes := by
    refine (hdeclare _ (hc.push hk)).bind fun p d _ hd hp => ?_
    refine (hbuild d hd).bind fun e b hdb hb he => ?_
    exact .pure hb fun scopes hs => ⟨hp scopes (hdb.trans hs), he scopes hs⟩
  refine (inScope_settles hc hact).bind fun p d _ hd hp => .pure hd fun scopes hs => ?_
  obtain ⟨⟨hp, he⟩, hfits⟩ := hp scopes hs
  exact ⟨hp, he, hfits⟩

/-- A procedure without parameters. -/
theorem thunk_settles (hc : c.Realizes table ρ) (name : Option String) (location : Option Location)
    {build : Resolving Expr} {Q : Expr → List Scope → Prop} (hk : ∀ name, ¬ k.declares name)
    (hbuild : ∀ d : ScopeChain, d.Realizes table (k :: ρ) → Settles table (k₂ :: ρ) d build Q) :
    Settles table ρ c (procedure name location (return .none) build) fun f scopes =>
      Q f.body (f.scope :: scopes) ∧ k₂.Fits f.scope := by
  have hnone (d : ScopeChain) (hd : d.Realizes table (k :: ρ)) :
      Settles table (k :: ρ) d (return .none) fun (_ : Parameters Function) _ => True :=
    .pure hd fun _ _ => trivial
  exact (procedure_settles hc name location hk hnone hbuild).mono fun f d _ hf scopes hs =>
    (hf scopes hs).2

/-- A procedure that declares some names before its body. -/
theorem lexicalBody_of_within {names : List String} {text forms : List Sexpr} {f : Function}
    {declares : String → Prop} {scopes : List Scope}
    (h : LexicalWithin table ρ names text forms f.body (f.scope :: scopes))
    (hfits : (Contour.ofText table names declares text).Fits f.scope) :
    LexicalBody table ⟨ρ, scopes⟩ names text forms f := by
  obtain ⟨declares, hown, hdefinitions, hheld, hbody⟩ := h
  refine .intro rfl hown hdefinitions ⟨fun name hname => ?_, hfits.admits⟩ hbody
  obtain ⟨r, s, hs, hr⟩ := hheld name hname
  cases hs
  exact ⟨r, hr⟩

end Resolving

end RegisterScheme
