import RegisterScheme.Proofs.Expr.Formals

/-! The forms that bind local variables. Each of them is a procedure whose contour is told from the
bindings that it lists. -/

namespace RegisterScheme

open ScopeChain

variable {α β : Type} {table : Primitives} {k k₂ : Contour} {ρ : List Contour} {c d : ScopeChain}

/-- What an item of a list of bindings stands for. -/
structure Resolving.LocalBinding.Of (item : Sexpr) (b : LocalBinding) : Prop where
  name : item.boundName? = some b.name
  init : Outline.initialForm? item = b.init

theorem LexicalInits.cons {nest : Nest} {items : List Sexpr} {item : Sexpr} {e : Expr}
    {es : List Expr} (h : LexicalInits table nest [item] [e]) (hes : LexicalInits table nest items es) :
    LexicalInits table nest (item :: items) (e :: es) := by
  cases h with
  | given value _ => exact .given value hes
  | missing bare _ => exact .missing bare hes

namespace Resolving

variable {expand : Expand} {n : Nat} {items forms text : List Sexpr} {bs : List LocalBinding}
  {names : List String}

theorem localBinding_eq_ok {item : Sexpr} {b : LocalBinding} (h : localBinding item c = .ok b d) :
    d = c ∧ LocalBinding.Of item b := by
  unfold localBinding at h
  split at h
  · cases h
    exact ⟨rfl, rfl, rfl⟩
  · obtain ⟨name, e, hname, h⟩ := answers_of_bind h
    obtain ⟨rfl, l, rfl⟩ := parameterName_eq_ok hname
    cases h
    exact ⟨rfl, rfl, rfl⟩
  · obtain ⟨name, e, hname, h⟩ := answers_of_bind h
    obtain ⟨rfl, l, rfl⟩ := parameterName_eq_ok hname
    cases h
    exact ⟨rfl, rfl, rfl⟩
  · cases h

theorem localBindings_eq_ok {s : Sexpr} (h : localBindings s c = .ok bs d) :
    d = c ∧ ∃ items l, s = .list items l ∧ List.Forall₂ LocalBinding.Of items bs := by
  unfold localBindings at h
  split at h
  · rename_i items l
    suffices hmapM : ∀ (items : List Sexpr) bs, items.mapM localBinding c = .ok bs d →
        d = c ∧ List.Forall₂ LocalBinding.Of items bs from
      ⟨(hmapM items bs h).1, items, l, rfl, (hmapM items bs h).2⟩
    intro items
    induction items with
    | nil =>
      intro bs h
      cases h
      exact ⟨rfl, .nil⟩
    | cons item items ih =>
      intro bs h
      rw [List.mapM_cons] at h
      obtain ⟨b, e, hb, hmore⟩ := answers_of_bind h
      obtain ⟨rfl, hitem⟩ := localBinding_eq_ok hb
      obtain ⟨bs', e', hbs, hanswer⟩ := answers_of_bind hmore
      cases hanswer
      obtain ⟨rfl, hitems⟩ := ih _ hbs
      exact ⟨rfl, .cons hitem hitems⟩
  · cases h

theorem boundNames_eq (hb : List.Forall₂ LocalBinding.Of items bs) :
    items.filterMap Sexpr.boundName? = bs.map LocalBinding.name := by
  induction hb with
  | nil => rfl
  | cons h _ ih => rw [List.filterMap_cons_some h.name, ih, List.map_cons]

theorem initialForm_spans {item init : Sexpr} (hi : Outline.initialForm? item = some init)
    (hs : k.Spans table n item) : ∃ head l, item = .list [head, init] l ∧ k.Spans table n init := by
  unfold Outline.initialForm? at hi
  split at hi
  · cases hi
    exact ⟨_, _, rfl, hs.part (.list (by simp) .self)⟩
  · cases hi

/-- What a binding is given, in whatever way its form is resolved. -/
theorem given_settles (hc : c.Realizes table (k :: ρ)) {item : Sexpr} {b : LocalBinding}
    (hb : LocalBinding.Of item b) (hitem : k.Spans table n item) {resolve : Sexpr → Resolving Expr}
    (hresolve : ∀ init, k.Spans table n init → Settles table (k :: ρ) c (resolve init)
      fun e scopes => Lexical table ⟨k :: ρ, scopes⟩ init e) :
    Settles table (k :: ρ) c (match b.init with
      | some init => resolve init
      | none => literal .nil b.origin) fun e scopes =>
        LexicalInits table ⟨k :: ρ, scopes⟩ [item] [e] := by
  cases hinit : b.init with
  | none => exact literal_settles hc .nil b.origin fun _ _ => .missing (hb.init.trans hinit) .nil
  | some init =>
    obtain ⟨head, l, rfl, hspans⟩ := initialForm_spans (hb.init.trans hinit) hitem
    exact (hresolve init hspans).mono fun e d _ he scopes hs => .given (he scopes hs) .nil

theorem initialValues_settles (he : Lexicalizes table expand n) (hc : c.Realizes table (k :: ρ))
    (hb : List.Forall₂ LocalBinding.Of items bs) (hitems : ∀ item ∈ items, k.Spans table n item) :
    Settles table (k :: ρ) c (bs.mapM (initialValue expand)) fun es scopes =>
      LexicalInits table ⟨k :: ρ, scopes⟩ items es := by
  induction hb generalizing c with
  | nil =>
    rw [List.mapM_nil]
    exact .pure hc fun _ _ => .nil
  | @cons item b items bs hitem _ ih =>
    rw [List.mapM_cons]
    have hvalue : Settles table (k :: ρ) c (initialValue expand b) fun e scopes =>
        LexicalInits table ⟨k :: ρ, scopes⟩ [item] [e] :=
      given_settles hc hitem (hitems item List.mem_cons_self) fun _ hs => he.settles hc hs
    refine hvalue.bind fun e d _ hd he => ?_
    refine (ih hd fun item hi => hitems item (List.mem_cons_of_mem _ hi)).bind
      fun es g hdg hg hes => ?_
    exact .pure hg fun scopes hs => (he scopes (hdg.trans hs)).cons (hes scopes hs)

/-- The bound names become parameters one after the other. -/
theorem declareNames_settles {declares : String → Prop}
    (hc : c.Realizes table (.ofText table names declares text :: ρ))
    (hnames : ∀ b ∈ bs, b.name ∈ names) :
    Settles table (.ofText table names (fun name => declares name ∨ name ∈ bs.map LocalBinding.name)
        text :: ρ) c (forIn bs PUnit.unit fun b (_ : PUnit) => do
      let _ ← defineArgument b.name .required b.origin.location
      return ForInStep.yield PUnit.unit) fun _ _ => True := by
  induction bs generalizing c declares with
  | nil =>
    refine .pure (hc.forget fun name hname => ?_) fun _ _ => trivial
    exact hname.resolve_right List.not_mem_nil
  | cons b bs ih =>
    rw [List.forIn_cons]
    refine Settles.bind (P := fun r _ => r = ForInStep.yield PUnit.unit) ((defineArgument_settles hc
      (.inl (hnames b List.mem_cons_self)) .required b.origin.location).bind fun _ d _ hd _ =>
        .pure hd fun _ _ => rfl) fun r d _ hd hr => ?_
    obtain rfl := hr.now
    exact (ih hd fun b hb => hnames b (List.mem_cons_of_mem _ hb)).forget fun name hname =>
      or_assoc.mpr (hname.imp_right List.mem_cons.mp)

/-- The bound names are all that a procedure declares by itself. -/
theorem declareBindings_settles
    (hc : c.Realizes table (.ofText table names (fun _ => False) text :: ρ))
    (hnames : ∀ b ∈ bs, b.name ∈ names) :
    Settles table (.ofText table names (· ∈ bs.map LocalBinding.name) text :: ρ) c
      (declareBindings bs) fun _ _ => True := by
  exact ((declareNames_settles hc hnames).forget fun name => Or.inr).bind fun _ d _ hd _ =>
    .pure hd fun _ _ => trivial

/-- A procedure for bound names is called with their initial values, which see nothing of it. -/
theorem bindAndCall_settles (he : Lexicalizes table expand n) (hc : c.Realizes table (k :: ρ))
    (hb : List.Forall₂ LocalBinding.Of items bs) (hitems : ∀ item ∈ items, k.Spans table n item)
    (hnames : ∀ b ∈ bs, b.name ∈ names) {location : Option Location} {build : Resolving Expr}
    {Q : Expr → List Scope → Prop}
    (hbuild : ∀ d : ScopeChain,
      d.Realizes table (.ofText table names (· ∈ bs.map LocalBinding.name) text :: k :: ρ) →
        Settles table (k₂ :: k :: ρ) d build Q) :
    Settles table (k :: ρ) c (bindAndCall expand bs location build) fun e scopes =>
      ∃ f es, e = .call (.lambda f location) es location ∧
        LexicalInits table ⟨k :: ρ, scopes⟩ items es ∧ Q f.body (f.scope :: scopes) ∧
          k₂.Fits f.scope := by
  refine (initialValues_settles he hc hb hitems).bind fun es d _ hd hes => ?_
  have hprocedure := procedure_settles hd none location
    (k := .ofText table names (fun _ => False) text) (fun _ => id)
    (fun _ hd => declareBindings_settles hd hnames) hbuild
  refine hprocedure.bind fun f g hdg hg hf => .pure hg fun scopes hs => ?_
  obtain ⟨-, hbody, hfits⟩ := hf scopes hs
  exact ⟨f, es, rfl, hes scopes (hdg.trans hs), hbody, hfits⟩

/-- A body in the scope of its bindings. -/
theorem let_settles (he : Lexicalizes table expand n) (hc : c.Realizes table (k :: ρ))
    (hb : List.Forall₂ LocalBinding.Of items bs) (hitems : ∀ item ∈ items, k.Spans table n item)
    (hforms : ∀ s ∈ forms, s.height ≤ n) (location : Option Location) :
    Settles table (k :: ρ) c (bindAndCall expand bs location (body expand forms location))
      fun e scopes => ∃ f es, e = .call (.lambda f location) es location ∧
        LexicalInits table ⟨k :: ρ, scopes⟩ items es ∧
          LexicalBody table ⟨k :: ρ, scopes⟩ (items.filterMap Sexpr.boundName?) forms forms f := by
  rw [boundNames_eq hb]
  have hbuild (d : ScopeChain)
      (hd : d.Realizes table (.ofNames table (bs.map LocalBinding.name) forms :: k :: ρ)) :=
    body_settles he hd (fun s hs => ⟨hs, hforms s hs⟩) location
  refine (bindAndCall_settles he hc hb hitems (fun b => List.mem_map_of_mem) hbuild).mono
    fun e d _ he scopes hs => ?_
  obtain ⟨f, es, rfl, hes, hbody, hfits⟩ := he scopes hs
  exact ⟨f, es, rfl, hes, lexicalBody_of_within hbody hfits⟩

theorem letStar_last_settles (he : Lexicalizes table expand n) (hc : c.Realizes table (k :: ρ))
    (hb : List.Forall₂ LocalBinding.Of items bs) (hitems : ∀ item ∈ items, k.Spans table n item)
    (hforms : ∀ s ∈ forms, s.height ≤ n) (hlast : items.length ≤ 1) (location : Option Location) :
    Settles table (k :: ρ) c (bindAndCall expand bs location (body expand forms location))
      fun e scopes => LexicalLetStar table ⟨k :: ρ, scopes⟩ items forms e := by
  refine (let_settles he hc hb hitems hforms location).mono fun e d _ he scopes hs => ?_
  obtain ⟨f, es, rfl, hes, hbody⟩ := he scopes hs
  exact .last hes hbody hlast

theorem letStar_settles (he : Lexicalizes table expand n) (hc : c.Realizes table (k :: ρ))
    (hb : List.Forall₂ LocalBinding.Of items bs) (hitems : ∀ item ∈ items, k.Spans table n item)
    (hforms : ∀ s ∈ forms, s.height ≤ n) (location : Option Location) :
    Settles table (k :: ρ) c (letStar expand forms location bs) fun e scopes =>
      LexicalLetStar table ⟨k :: ρ, scopes⟩ items forms e := by
  induction hb generalizing c k ρ with
  | nil => exact letStar_last_settles he hc .nil hitems hforms (Nat.zero_le 1) location
  | @cons item b items bs hitem hrest ih =>
    cases hrest with
    | nil =>
      exact letStar_last_settles he hc (.cons hitem .nil) hitems hforms (Nat.le_refl 1) location
    | @cons item' b' items bs hitem' hrest =>
      have hbound : [item].filterMap Sexpr.boundName? = [b].map LocalBinding.name :=
        boundNames_eq (.cons hitem .nil)
      have hspans : ∀ i ∈ item' :: items, (Contour.ofText table ([b].map LocalBinding.name)
          (· ∈ [b].map LocalBinding.name) (item' :: items ++ forms)).Spans table n i := fun i hi =>
        ⟨Contour.ofText_covers (List.mem_append_left _ hi),
          (hitems i (List.mem_cons_of_mem _ hi)).height_le⟩
      refine (bindAndCall_settles he hc (.cons hitem .nil)
        (fun i hi => hitems i (List.mem_singleton.mp hi ▸ List.mem_cons_self))
        (fun b => List.mem_map_of_mem) fun d hd => ih hd hspans).mono fun e d _ he scopes hs => ?_
      obtain ⟨f, es, rfl, hes, hnested, hfits⟩ := he scopes hs
      exact .more hes (by rw [hbound]; rfl) hfits hnested

/-- A keyword at the head of a form, which leaves everything as it is. -/
theorem primitive?_eq_ok {name : String} {p : Option Primitive} (h : primitive? name c = .ok p d) :
    d = c ∧ p = c.primitive? name := by
  cases h
  exact ⟨rfl, rfl⟩

theorem namedValue_settles (he : Lexicalizes table expand n) (hc : c.Realizes table (k :: ρ))
    (name : String) {s : Sexpr} (hs : k.Spans table n s) :
    Settles table (k :: ρ) c (namedValue expand name s) fun e scopes =>
      Lexical table ⟨k :: ρ, scopes⟩ s e := by
  unfold namedValue
  split
  · rename_i head place ps form forms location
    refine Settles.read (fun _ _ h => primitive?_eq_ok h) ?_
    rintro p rfl
    have hinside {t : Sexpr} (ht : t = ps ∨ t ∈ form :: forms) : t.height ≤ n := by
      have hmem : t ∈ Sexpr.identifier head place :: ps :: form :: forms := by
        obtain rfl | ht := ht <;> simp_all
      exact (hs.part (.list hmem .self)).height_le
    split
    · rename_i hlambda
      refine Settles.read (fun _ _ h => parameterItems_eq_ok h) ?_
      rintro ⟨items, tail⟩ hformals
      have hitems : ∀ item ∈ items, item.height ≤ n := fun item hi =>
        Nat.le_trans (Sexpr.height_le_of_mem_formals (by rwa [hformals])) (hinside (.inl rfl))
      refine (lambda_settles he hc hitems (fun t ht => hinside (.inr ht)) _ _).bind
        fun f d _ hd hf => .pure hd fun scopes hscopes => ?_
      refine .form (hc.primitive?_eq_some hlambda) (.lambda ?_)
      rw [hformals]
      exact hf scopes hscopes
    · exact he.settles hc hs
  · exact he.settles hc hs

/-- The procedure around a loop, in which the name of the loop is declared. -/
theorem loop_settles (he : Lexicalizes table expand n) (hρ : ρ ≠ [])
    (hb : List.Forall₂ LocalBinding.Of items bs) (hforms : ∀ s ∈ forms, s.height ≤ n)
    (name : String) (s : Sexpr) (location : Option Location)
    (hc : c.Realizes table (.ofText table [name] (fun _ => False) forms :: ρ)) :
    Settles table (.ofNames table [name] forms :: ρ) c (do
      let target ← definitionTarget name s
      let loop ← procedure (some name) location (declareBindings bs) (body expand forms location)
      return Expr.sequence [.assignment target (.lambda loop location) location,
        .reference target s.location] location) fun e scopes => ∃ v loop,
          Nest.Designates ⟨.ofNames table [name] forms :: ρ, scopes⟩ name v ∧
            LexicalBody table ⟨.ofNames table [name] forms :: ρ, scopes⟩
              (items.filterMap Sexpr.boundName?) forms forms loop ∧
            e = .sequence [.assignment v (.lambda loop location) location,
              .reference v s.location] location := by
  have htarget := localTarget_settles hc hρ (.inl List.mem_cons_self) s
  refine (htarget.forget fun m hm => Or.inr (List.mem_singleton.mp hm)).bind
    fun v d _ hd hv => ?_
  rw [boundNames_eq hb]
  have hloop := procedure_settles hd (some name) location
    (k := .ofText table (bs.map LocalBinding.name) (fun _ => False) forms) (fun _ => id)
    (fun _ hd => declareBindings_settles hd fun b => List.mem_map_of_mem)
    fun d hd => body_settles he hd (fun s hs => ⟨hs, hforms s hs⟩) location
  refine hloop.bind fun loop g hdg hg hloop => .pure hg fun scopes hs => ?_
  obtain ⟨r, rfl, hnames⟩ := hv scopes (hdg.trans hs)
  obtain ⟨-, hbody, hfits⟩ := hloop scopes hs
  exact ⟨_, loop, Nest.designates_of_holds hnames, lexicalBody_of_within hbody hfits, rfl⟩

/-- A loop is called where its name means nothing yet. -/
theorem namedLet_settles (he : Lexicalizes table expand n) (hc : c.Realizes table (k :: ρ))
    (hb : List.Forall₂ LocalBinding.Of items bs) (hitems : ∀ item ∈ items, k.Spans table n item)
    (hforms : ∀ s ∈ forms, s.height ≤ n) (name : String) (place place' location : Option Location) :
    Settles table (k :: ρ) c (namedLet expand name (.identifier name place) bs forms location)
      fun e scopes => LexicalSpecial table ⟨k :: ρ, scopes⟩ .let
        (.identifier name place :: .list items place' :: forms) e := by
  refine (initialValues_settles he hc hb hitems).bind fun es d _ hd hes => ?_
  have hwrapper := thunk_settles hd none location (fun _ => id) fun d hd =>
    loop_settles he (List.cons_ne_nil k ρ) hb hforms name (.identifier name place) location hd
  refine hwrapper.bind fun wrapper g hdg hg hw => .pure hg fun scopes hs => ?_
  obtain ⟨⟨v, loop, htarget, hbody, hwraps⟩, hfits⟩ := hw scopes hs
  exact .namedLet (hes scopes (hdg.trans hs)) rfl hfits htarget hbody hwraps

/-- The names of a `letrec` are variables of its procedure before anything else is resolved. -/
theorem targets_settles {declares : String → Prop}
    (hc : c.Realizes table (.ofText table names declares text :: ρ)) (hρ : ρ ≠ [])
    (hnames : ∀ b ∈ bs, b.name ∈ names) :
    Settles table (.ofText table names (fun name => declares name ∨ name ∈ bs.map LocalBinding.name)
        text :: ρ) c (bs.mapM fun b => definitionTarget b.name b.origin) fun vs scopes =>
      List.Forall₂ (fun b v => ∃ r, v = .localVariable r ∧ v.Names b.name scopes) bs vs := by
  induction bs generalizing c declares with
  | nil =>
    rw [List.mapM_nil]
    refine .pure (hc.forget fun name hname => ?_) fun _ _ => .nil
    exact hname.resolve_right List.not_mem_nil
  | cons b bs ih =>
    rw [List.mapM_cons]
    refine (localTarget_settles hc hρ (.inl (hnames b List.mem_cons_self)) b.origin).bind
      fun v d _ hd hv => ?_
    have hmore := (ih hd fun b hb => hnames b (List.mem_cons_of_mem _ hb)).forget
      fun name (hname : declares name ∨ name ∈ (b :: bs).map LocalBinding.name) =>
        or_assoc.mpr (hname.imp_right List.mem_cons.mp)
    exact hmore.bind fun vs e hde he hvs => .pure he fun scopes hs =>
      .cons (hv scopes (hde.trans hs)) (hvs scopes hs)

theorem assignment_settles (he : Lexicalizes table expand n) (hc : c.Realizes table (k :: ρ))
    {item : Sexpr} {b : LocalBinding} (hb : LocalBinding.Of item b) (hitem : k.Spans table n item)
    (v : VariableRef) :
    Settles table (k :: ρ) c (do
      let value ← match b.init with
        | some init => namedValue expand b.name init
        | none => literal .nil b.origin
      return Expr.assignment v value b.origin.location) fun a scopes =>
        ∃ e, a = .assignment v e b.origin.location ∧
          LexicalInits table ⟨k :: ρ, scopes⟩ [item] [e] := by
  have hgiven := given_settles hc hb hitem fun init hs => namedValue_settles he hc b.name hs
  cases hinit : b.init with
  | none =>
    rw [hinit] at hgiven
    exact hgiven.bind fun e d _ hd he => .pure hd fun scopes hs => ⟨e, rfl, he scopes hs⟩
  | some init =>
    rw [hinit] at hgiven
    exact hgiven.bind fun e d _ hd he => .pure hd fun scopes hs => ⟨e, rfl, he scopes hs⟩

theorem assignments_settles (he : Lexicalizes table expand n) (hc : c.Realizes table (k :: ρ))
    (hb : List.Forall₂ LocalBinding.Of items bs) (hitems : ∀ item ∈ items, k.Spans table n item)
    {vs : List VariableRef} (hvs : Lasting (fun scopes => List.Forall₂
      (fun (b : LocalBinding) v => ∃ r, v = .localVariable r ∧ v.Names b.name scopes) bs vs) c) :
    Settles table (k :: ρ) c ((bs.zip vs).mapM fun (b, target) => do
      let value ← match b.init with
        | some init => namedValue expand b.name init
        | none => literal .nil b.origin
      return Expr.assignment target value b.origin.location) fun es scopes =>
        LexicalAssignments table ⟨k :: ρ, scopes⟩ items es := by
  induction hb generalizing c vs with
  | nil =>
    rw [List.zip_nil_left, List.mapM_nil]
    exact .pure hc fun _ _ => .nil
  | @cons item b items bs hitem _ ih =>
    obtain ⟨v, vs, -, -, rfl⟩ := List.forall₂_cons_left_iff.mp hvs.now
    rw [List.zip_cons_cons, List.mapM_cons]
    refine (assignment_settles he hc hitem (hitems item List.mem_cons_self) v).bind
      fun a d hcd hd ha => ?_
    have hmore := ih hd (fun item hi => hitems item (List.mem_cons_of_mem _ hi))
      fun scopes hs => (List.forall₂_cons.mp (hvs scopes (hcd.trans hs))).2
    refine hmore.bind fun es g hdg hg hes => .pure hg fun scopes hs => ?_
    obtain ⟨e, rfl, hvalue⟩ := ha scopes (hdg.trans hs)
    obtain ⟨r, rfl, hnames⟩ := (List.forall₂_cons.mp (hvs scopes (hcd.trans (hdg.trans hs)))).1
    exact .cons hitem.name (Nest.designates_of_holds hnames) hvalue (hes scopes hs)

/-- The assignments of a `letrec` and its body, in the scope of its names. -/
theorem letrecBody_settles (he : Lexicalizes table expand n) (hρ : ρ ≠ [])
    (hb : List.Forall₂ LocalBinding.Of items bs) (hitems : ∀ item ∈ items, item.height ≤ n)
    (hforms : ∀ s ∈ forms, s.height ≤ n) (location : Option Location)
    (hc : c.Realizes table
      (.ofText table (items.filterMap Sexpr.boundName?) (fun _ => False) (items ++ forms) :: ρ)) :
    Settles table (.ofNames table (items.filterMap Sexpr.boundName?) (items ++ forms) :: ρ) c (do
      let targets ← bs.mapM fun b => definitionTarget b.name b.origin
      let assignments ← (bs.zip targets).mapM fun (b, target) => do
        let value ← match b.init with
          | some init => namedValue expand b.name init
          | none => literal .nil b.origin
        return Expr.assignment target value b.origin.location
      return Expr.sequence (assignments ++ [← body expand forms location]) location) fun e scopes =>
        ∃ es body, e = .sequence (es ++ [body]) location ∧
          LexicalAssignments table ⟨.ofNames table (items.filterMap Sexpr.boundName?)
            (items ++ forms) :: ρ, scopes⟩ items es ∧
          LexicalWithin table ρ (items.filterMap Sexpr.boundName?) (items ++ forms) forms body
            scopes := by
  have hnames := boundNames_eq hb
  have htargets := targets_settles hc hρ fun b hb => hnames ▸ List.mem_map_of_mem hb
  refine (htargets.forget fun m hm => Or.inr (hnames ▸ hm)).bind fun vs d _ hd hvs => ?_
  refine (assignments_settles he hd hb (fun item hi =>
    ⟨Contour.ofText_covers (List.mem_append_left _ hi), hitems item hi⟩) hvs).bind
      fun es g _ hg hes => ?_
  refine (body_settles he hg (fun s hs => ⟨List.mem_append_right _ hs, hforms s hs⟩)
    location).bind fun body b hgb hb hbody => .pure hb fun scopes hs => ?_
  exact ⟨es, body, rfl, hes scopes (hgb.trans hs), hbody scopes hs⟩

theorem letrec_settles (he : Lexicalizes table expand n) (hc : c.Realizes table (k :: ρ))
    (hb : List.Forall₂ LocalBinding.Of items bs) (hitems : ∀ item ∈ items, item.height ≤ n)
    (hforms : ∀ s ∈ forms, s.height ≤ n) (place location : Option Location) :
    Settles table (k :: ρ) c (letrec expand bs forms location) fun e scopes =>
      LexicalSpecial table ⟨k :: ρ, scopes⟩ .letrec (.list items place :: forms) e := by
  refine (bindAndCall_settles he hc .nil (fun item hi => nomatch hi) (fun b hb => nomatch hb)
    fun d hd => letrecBody_settles he (List.cons_ne_nil k ρ) hb hitems hforms location
      (hd.forget fun _ => False.elim)).mono fun e d _ he scopes hs => ?_
  obtain ⟨f, _, rfl, hinits, ⟨es, body, hassigns, hassignments, hbody⟩, hfits⟩ := he scopes hs
  cases hinits
  obtain ⟨declares, hown, hdefinitions, hheld, hbody⟩ := hbody
  refine .letrec rfl hassignments rfl hown hdefinitions ⟨fun name hname => ?_, hfits.admits⟩ hbody
    hassigns
  obtain ⟨r, s, hs, hr⟩ := hheld name hname
  cases hs
  exact ⟨r, hr⟩

end Resolving

end RegisterScheme
