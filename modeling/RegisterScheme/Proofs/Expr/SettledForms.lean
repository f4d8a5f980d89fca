import RegisterScheme.Proofs.Expr.LocalForms

/-! Templates and the other special forms. In each of them a name means what it designates, and
besides them only the helpers of templates are named. -/

namespace RegisterScheme

open ScopeChain

variable {table : Primitives} {k : Contour} {ρ : List Contour} {c d : ScopeChain}

namespace Resolving

variable {expand : Expand} {n : Nat}

/-- A keyword with a level mark is the one that its mark abbreviates. -/
structure Marks (table : Primitives) (mark : QuoteMark) (form : SpecialForm) (name : String) :
    Prop where
  keyword : table.find? name = some (.form form)
  inside (level : Nat) :
    Sexpr.levelInside level form = some (if mark = .quasiquote then level + 1 else level - 1)
  unquote : mark = .unquote → form = .unquote
  unquoteSplicing : mark = .unquoteSplicing → form = .unquoteSplicing

theorem levelMark?_eq_some (hc : c.Realizes table ρ) {head : Sexpr} {mark : QuoteMark}
    (h : levelMark? c head = some mark) :
    ∃ name place form, head = .identifier name place ∧ Marks table mark form name := by
  unfold levelMark? at h
  split at h
  · rename_i name place
    refine ⟨name, place, ?_⟩
    split at h
    · rename_i hp
      cases h
      exact ⟨.quasiquote, rfl, hc.primitive?_eq_some hp, fun _ => rfl, nofun, nofun⟩
    · rename_i hp
      cases h
      exact ⟨.unquote, rfl, hc.primitive?_eq_some hp, fun _ => rfl, fun _ => rfl, nofun⟩
    · rename_i hp
      cases h
      exact ⟨.unquoteSplicing, rfl, hc.primitive?_eq_some hp, fun _ => rfl, nofun, fun _ => rfl⟩
    · cases h
  · cases h

theorem splicing_of_spliced? (hc : c.Realizes table ρ) {level : Nat} {item arg : Sexpr}
    (h : spliced? c level item = some arg) :
    level = 1 ∧ ∃ name place l, item = .list [.identifier name place, arg] l ∧
      table.find? name = some (.form .unquoteSplicing) := by
  unfold spliced? at h
  split at h
  · split at h
    · rename_i hmark
      cases h
      obtain ⟨hlevel, hmark⟩ := Bool.and_eq_true_iff.mp hmark
      obtain ⟨name, place, form, rfl, hmarks⟩ := levelMark?_eq_some hc (beq_iff_eq.mp hmark)
      obtain rfl := hmarks.unquoteSplicing rfl
      exact ⟨beq_iff_eq.mp hlevel, name, place, _, rfl, hmarks.keyword⟩
    · cases h
  · cases h

theorem callGlobal_settles (hc : c.Realizes table (k :: ρ)) (hk : k.templates) {name : String}
    (hn : name ∈ Scope.templateProcedures) (es : List Expr) (s : Sexpr) :
    Settles table (k :: ρ) c (callGlobal name es s) fun e scopes =>
      ∃ slot, e = .call (.reference (.global slot) s.location) es s.location ∧
        (VariableRef.global slot).Names name scopes := by
  refine (templateGlobal_settles hc hk hn s).bind fun v d _ hd hv => .pure hd fun scopes hs => ?_
  obtain ⟨slot, rfl, hnames⟩ := hv scopes hs
  exact ⟨slot, rfl, hnames⟩

/-- A template without anything to evaluate stays a quotation. -/
theorem unlessConstant_settles (hc : c.Realizes table (k :: ρ)) {template : Sexpr} {level : Nat}
    {constant : Bool} {act : Resolving Expr}
    (h : Settles table (k :: ρ) c act fun e scopes =>
      LexicalTemplate table ⟨k :: ρ, scopes⟩ template level e) :
    Settles table (k :: ρ) c (if constant then literal template.toDatum template else act)
      fun e scopes => LexicalTemplate table ⟨k :: ρ, scopes⟩ template level e := by
  split
  · exact literal_settles hc _ template fun _ _ => .constant
  · exact h

mutual

theorem quasi_settles (he : Lexicalizes table expand n) {c : ScopeChain}
    (hc : c.Realizes table (k :: ρ)) (hk : k.templates) : (template : Sexpr) →
      k.Spans table n template → (level : Nat) →
        Settles table (k :: ρ) c (quasi expand template level) fun e scopes =>
          LexicalTemplate table ⟨k :: ρ, scopes⟩ template level e
  | .list items location, h, level => by
    have hitems : ∀ s ∈ items, k.Spans table n s := fun s hs => h.part (.list hs .self)
    have hlist {c : ScopeChain} (hc : c.Realizes table (k :: ρ)) (template : Sexpr) :
        Settles table (k :: ρ) c (quasiItems expand true (literal .nil template) items level)
          fun e scopes => LexicalTemplate table ⟨k :: ρ, scopes⟩ (.list items location) level e :=
      (quasiItems_settles he hc hk none (fun d hd => literal_settles hd _ template fun _ _ => .nil) items
        hitems).mono fun e d _ he scopes hs => .list (he scopes hs)
    by_cases hpair : ∃ head arg, items = [head, arg]
    · obtain ⟨head, arg, rfl⟩ := hpair
      rw [quasi]
      refine Settles.get (unlessConstant_settles hc (Settles.get ?_))
      have harg := hitems arg (by simp)
      split
      · rename_i hmark
        obtain ⟨name, place, form, rfl, hmarks⟩ := levelMark?_eq_some hc hmark
        obtain rfl := hmarks.unquote rfl
        exact (he.settles hc harg).mono fun e d _ he scopes hs =>
          .unquote hmarks.keyword (he scopes hs)
      · exact .throw _
      · rename_i mark hmark _ _
        obtain ⟨name, place, form, rfl, hmarks⟩ := levelMark?_eq_some hc hmark
        refine (quasi_settles he hc hk arg harg _).bind fun inner d _ hd hinner => ?_
        refine (literal_settles hd _ _ (Q := fun e _ => ∃ q, e = .literal q _)
          fun q _ => ⟨q, rfl⟩).bind fun keyword e hde he hkeyword => ?_
        refine (literal_settles he _ _ (Q := fun e _ => ∃ q, e = .literal q _)
          fun q _ => ⟨q, rfl⟩).bind fun nil g heg hg hnil => .pure hg fun scopes hs => ?_
        obtain ⟨q, rfl⟩ := hkeyword scopes (heg.trans hs)
        obtain ⟨q', rfl⟩ := hnil scopes hs
        exact .nested hmarks.keyword (hmarks.inside _)
          (hinner scopes (hde.trans (heg.trans hs)))
      · exact hlist hc _
    · rw [quasi]
      · exact Settles.get (unlessConstant_settles hc (hlist hc _))
      · exact fun head arg h => hpair ⟨head, arg, h⟩
  | .dotted items tail location, h, level => by
    rw [quasi]
    refine Settles.get (unlessConstant_settles hc ?_)
    refine (quasiItems_settles he hc hk (some tail) (fun d hd => ?_) items
      fun s hs => h.part (.dotted hs .self)).mono fun e d _ he scopes hs =>
        .dotted (he scopes hs)
    exact (quasi_settles he hd hk tail (h.part (.tail .self)) level).mono
      fun e d _ he scopes hs => .tail (he scopes hs)
  | .vector items location, h, level => by
    rw [quasi]
    refine Settles.get (unlessConstant_settles hc ?_)
    refine (quasiItems_settles he hc hk none (fun d hd => literal_settles hd _ _ fun _ _ => .nil) items
      fun s hs => h.part (.vector hs .self)).bind fun list d _ hd hlist => ?_
    refine (callGlobal_settles hd hk (by decide) [list] _).mono fun e g hdg he scopes hs => ?_
    obtain ⟨slot, rfl, hnames⟩ := he scopes hs
    exact .vector (hlist scopes (hdg.trans hs)) hnames
  | .literal _ _, _, _ | .identifier _ _, _, _ => by
    rw [quasi.eq_def]
    exact Settles.get (unlessConstant_settles hc (literal_settles hc _ _ fun _ _ => .constant))
termination_by template => sizeOf template

/-- Items in front of whatever their list ends in. -/
theorem quasiItems_settles (he : Lexicalizes table expand n) {c : ScopeChain}
    (hc : c.Realizes table (k :: ρ)) (hk : k.templates) (tail : Option Sexpr)
    {last : Resolving Expr} {level : Nat}
    (hlast : ∀ d : ScopeChain, d.Realizes table (k :: ρ) →
      Settles table (k :: ρ) d last fun e scopes =>
        LexicalItems table ⟨k :: ρ, scopes⟩ tail [] level e) :
    (items : List Sexpr) → (∀ s ∈ items, k.Spans table n s) →
      Settles table (k :: ρ) c (quasiItems expand tail.isNone last items level) fun e scopes =>
        LexicalItems table ⟨k :: ρ, scopes⟩ tail items level e
  | [], _ => by
    unfold quasiItems
    exact hlast c hc
  | item :: rest, h => by
    rw [quasiItems]
    refine Settles.get ?_
    dsimp only
    split
    · rename_i e htail
      obtain ⟨hdotted, hmark⟩ := Bool.and_eq_true_iff.mp htail
      obtain ⟨hnone, hlevel⟩ := Bool.and_eq_true_iff.mp hdotted
      obtain rfl := Option.isNone_iff_eq_none.mp hnone
      obtain rfl := beq_iff_eq.mp hlevel
      obtain ⟨name, place, form, rfl, hmarks⟩ := levelMark?_eq_some hc (beq_iff_eq.mp hmark)
      obtain rfl := hmarks.unquote rfl
      exact (he.settles hc (h e (by simp))).mono fun e d _ he scopes hs =>
        .unquote hmarks.keyword (he scopes hs)
    · rename_i rest _ _ _
      refine (quasiItems_settles he hc hk tail hlast rest fun s hs =>
        h s (List.mem_cons_of_mem _ hs)).bind fun cdr d _ hd hcdr => Settles.get ?_
      have hitem := h item List.mem_cons_self
      split
      · rename_i arg hspliced
        obtain ⟨rfl, name, place, l, rfl, hkeyword⟩ := splicing_of_spliced? hd hspliced
        have harg := hitem.part (.list (s := arg) (by simp) .self)
        refine (he.settles hd harg).bind fun e g hdg hg hvalue => ?_
        refine (callGlobal_settles hg hk (by decide) [e, cdr] _).mono fun a b hgb ha scopes hs => ?_
        obtain ⟨slot, rfl, hnames⟩ := ha scopes hs
        exact .splice hkeyword (hvalue scopes (hgb.trans hs))
          (hcdr scopes (hdg.trans (hgb.trans hs))) hnames
      · refine (quasi_settles he hd hk item hitem level).bind fun e g hdg hg hcar => ?_
        exact .pure hg fun scopes hs => .cons (hcar scopes hs) (hcdr scopes (hdg.trans hs))
termination_by items => sizeOf items

end

/-- One more clause, with a body or none, in front of others. -/
theorem moreClauses_settles {clause : Sexpr} {rest : List Sexpr} {q : Clause Expr}
    (hmore : Settles table (k :: ρ) c (clauses expand rest) fun p scopes =>
      LexicalClauses table ⟨k :: ρ, scopes⟩ rest p.1 p.2)
    (hq : Lasting (fun scopes => ∀ cs otherwise,
      LexicalClauses table ⟨k :: ρ, scopes⟩ rest cs otherwise →
        LexicalClauses table ⟨k :: ρ, scopes⟩ (clause :: rest) (q :: cs) otherwise) c) :
    Settles table (k :: ρ) c (do
      let (more, otherwise) ← clauses expand rest
      return (q :: more, otherwise)) fun p scopes =>
        LexicalClauses table ⟨k :: ρ, scopes⟩ (clause :: rest) p.1 p.2 :=
  hmore.bind fun p _ hcd hd hp => .pure hd fun scopes hs =>
    hq scopes (hcd.trans hs) p.1 p.2 (hp scopes hs)

theorem clauses_settles (he : Lexicalizes table expand n) (hc : c.Realizes table (k :: ρ))
    {items : List Sexpr} (hitems : ∀ s ∈ items, k.Spans table n s) :
    Settles table (k :: ρ) c (clauses expand items) fun p scopes =>
      LexicalClauses table ⟨k :: ρ, scopes⟩ items p.1 p.2 := by
  induction items generalizing c with
  | nil => exact .pure hc fun _ _ => .nil
  | cons clause rest ih =>
    have hrest : ∀ s ∈ rest, k.Spans table n s := fun s hs => hitems s (List.mem_cons_of_mem _ hs)
    have hclause := hitems clause List.mem_cons_self
    unfold clauses
    split
    · rename_i place forms location
      have hforms : ∀ s ∈ forms, k.Spans table n s := fun s hs =>
        hclause.part (.list (List.mem_cons_of_mem _ hs) .self)
      split
      · exact .throw _
      · rename_i hlast
        obtain rfl : rest = [] := by simpa using hlast
        split
        · exact .throw _
        · exact (sequence_settles he hc hforms location).bind fun e d _ hd he =>
            .pure hd fun scopes hs => .otherwise (he scopes hs)
    · rename_i test forms location _
      have hparts : ∀ s ∈ test :: forms, k.Spans table n s := fun s hs =>
        hclause.part (.list hs .self)
      refine (he.settles hc (hparts test List.mem_cons_self)).bind fun t d hcd hd ht => ?_
      dsimp only
      split
      · rename_i hempty
        obtain rfl := List.isEmpty_iff.mp hempty
        exact moreClauses_settles (ih hd hrest) fun scopes hs cs otherwise hcs =>
          .test (ht scopes hs) hcs
      · rw [map_eq_pure_bind, bind_assoc]
        refine (sequence_settles he hd (fun s hs => hparts s (List.mem_cons_of_mem _ hs))
          location).bind fun body g hdg hg hbody => ?_
        rw [pure_bind]
        exact moreClauses_settles (ih hg hrest) fun scopes hs cs otherwise hcs =>
          .body (ht scopes (hdg.trans hs)) (hbody scopes hs) hcs
    · exact .throw _

/-- A procedure under the name at the head of its parameters. -/
theorem header_settles (he : Lexicalizes table expand n) (hc : c.Realizes table (k :: ρ))
    {header head : Sexpr} {items forms : List Sexpr} {tail : Option Sexpr}
    (hheader : header.formals = (head :: items, tail))
    (hdefines : ∀ name, head.identifier? = some name → k.admits name) (hheight : header.height ≤ n)
    (hforms : ∀ s ∈ forms, s.height ≤ n) (operands : List Sexpr) (s : Sexpr) (name : String) :
    Settles table (k :: ρ) c (define.header expand operands s name head items tail forms)
      fun e scopes => LexicalSpecial table ⟨k :: ρ, scopes⟩ .define (header :: forms) e := by
  refine Settles.read (fun _ _ h => checkArity_eq_ok h) fun _ _ => ?_
  refine Settles.read (fun _ _ h => parameterName_eq_ok h) ?_
  rintro procedureName ⟨l, rfl⟩
  refine (definitionTarget_settles hc (hdefines procedureName rfl) _).bind fun v d _ hd hv => ?_
  have hitems : ∀ item ∈ items, item.height ≤ n := fun item hi =>
    Nat.le_trans (Sexpr.height_le_of_mem_formals
      (by rw [hheader]; exact List.mem_cons_of_mem _ hi)) hheight
  refine (lambda_settles he hd hitems hforms _ _).bind fun f g hdg hg hf => ?_
  exact .pure hg fun scopes hs => .defineProcedure hheader (hv scopes (hdg.trans hs)) (hf scopes hs)

theorem define_settles (he : Lexicalizes table expand n) (hc : c.Realizes table (k :: ρ))
    {operands : List Sexpr} (ho : ∀ s ∈ operands, k.Spans table n s)
    (hdefines : ∀ target forms name, operands = target :: forms → definedName? target = some name →
      k.admits name) (s : Sexpr) :
    Settles table (k :: ρ) c (define expand operands s) fun e scopes =>
      LexicalSpecial table ⟨k :: ρ, scopes⟩ .define operands e := by
  unfold define
  dsimp only
  split
  · exact .throw _
  · rename_i target forms
    have htarget := (ho target List.mem_cons_self).height_le
    have hforms : ∀ s ∈ forms, k.Spans table n s := fun s hs => ho s (List.mem_cons_of_mem _ hs)
    split
    · rename_i name place
      refine Settles.read (fun _ _ h => checkArity_eq_ok h) fun _ harity => ?_
      refine (definitionTarget_settles hc (hdefines _ forms name rfl rfl) _).bind
        fun v d _ hd hv => ?_
      have hlast {act : Resolving Expr} (h : Settles table (k :: ρ) d act fun e scopes =>
          LexicalValue table ⟨k :: ρ, scopes⟩ forms e) : Settles table (k :: ρ) d (do
            let value ← act
            return Expr.assignment v value s.location) fun e scopes =>
              LexicalSpecial table ⟨k :: ρ, scopes⟩ .define (.identifier name place :: forms) e :=
        h.bind fun e g hdg hg he => .pure hg fun scopes hs =>
          .define (hv scopes (hdg.trans hs)) (he scopes hs)
      split
      · rename_i form rest
        have hcount := (Arity.accepts_between.mp harity).2
        obtain rfl : rest = [] := List.eq_nil_of_length_eq_zero (by
          simp only [List.length_cons] at hcount
          omega)
        exact hlast ((namedValue_settles he hd name (hforms form List.mem_cons_self)).mono
          fun e g _ he scopes hs => .given (he scopes hs))
      · exact hlast (literal_settles hd _ _ fun _ _ => .missing)
    · exact header_settles he hc rfl (fun name hname => hdefines _ forms name rfl hname) htarget
        (fun s hs => (hforms s hs).height_le) _ s _
    · exact header_settles he hc rfl (fun name hname => hdefines _ forms name rfl hname) htarget
        (fun s hs => (hforms s hs).height_le) _ s _
    · exact .throw _

theorem assign_settles (he : Lexicalizes table expand n) (hc : c.Realizes table (k :: ρ))
    (target : Sexpr) {value : Sexpr} (hvalue : k.Spans table n value) (s : Sexpr) :
    Settles table (k :: ρ) c (assign expand target value s) fun e scopes =>
      LexicalSpecial table ⟨k :: ρ, scopes⟩ .assign [target, value] e := by
  unfold assign
  split
  · rename_i name place
    refine Settles.read (fun _ _ h => primitive?_eq_ok h) ?_
    rintro p rfl
    split
    · exact .throw _
    · refine (variableRef_settles hc name _).bind fun v d _ hd hv => ?_
      refine (he.settles hd hvalue).bind fun e g hdg hg he => .pure hg fun scopes hs => ?_
      exact .assign (hv scopes (hdg.trans hs)) (he scopes hs)
  · exact .throw _

theorem namedLambda_settles (he : Lexicalizes table expand n) (hc : c.Realizes table (k :: ρ))
    {ps : Sexpr} (hps : ps.height ≤ n) {forms : List Sexpr} (hforms : ∀ s ∈ forms, s.height ≤ n)
    (location : Option Location) :
    Settles table (k :: ρ) c (namedLambda expand ps forms location) fun e scopes =>
      LexicalSpecial table ⟨k :: ρ, scopes⟩ .namedLambda (ps :: forms) e := by
  refine Settles.read (fun _ _ h => parameterItems_eq_ok h) ?_
  rintro ⟨items, tail⟩ hformals
  split
  · exact .throw _
  · rename_i head items tail heq
    obtain ⟨rfl, rfl⟩ := Prod.mk.inj heq
    refine Settles.read (fun _ _ h => parameterName_eq_ok h) ?_
    rintro name -
    have hitems : ∀ item ∈ items, item.height ≤ n := fun item hi =>
      Nat.le_trans (Sexpr.height_le_of_mem_formals
        (by rw [hformals]; exact List.mem_cons_of_mem _ hi)) hps
    exact (lambda_settles he hc hitems hforms _ _).bind fun f d _ hd hf =>
      .pure hd fun scopes hs => .namedLambda hformals (hf scopes hs)

theorem letForm_settles (he : Lexicalizes table expand n) (hc : c.Realizes table (k :: ρ))
    {first : Sexpr} {rest : List Sexpr} (ho : ∀ s ∈ first :: rest, k.Spans table n s)
    (operands : List Sexpr) (s : Sexpr) :
    Settles table (k :: ρ) c (letForm expand first rest operands s) fun e scopes =>
      LexicalSpecial table ⟨k :: ρ, scopes⟩ .let (first :: rest) e := by
  have hitems {items : List Sexpr} {l : Option Location} (h : .list items l ∈ first :: rest) :
      ∀ item ∈ items, k.Spans table n item := fun item hi => (ho _ h).part (.list hi .self)
  unfold letForm
  split
  · refine Settles.read (fun _ _ h => localBindings_eq_ok h) ?_
    rintro bs ⟨items, l, rfl, hb⟩
    refine (let_settles he hc hb (hitems List.mem_cons_self)
      (fun s hs => (ho s (List.mem_cons_of_mem _ hs)).height_le) _).mono
        fun e d _ he scopes hs => ?_
    obtain ⟨f, es, rfl, hes, hbody⟩ := he scopes hs
    exact .let hes hbody
  · rename_i name hname
    obtain ⟨place, rfl⟩ : ∃ place, first = .identifier name place := by
      cases first <;> simp_all [Sexpr.identifier?]
    refine Settles.read (fun _ _ h => checkArity_eq_ok h) fun _ _ => ?_
    split
    · rename_i bindings forms
      refine Settles.read (fun _ _ h => localBindings_eq_ok h) ?_
      rintro bs ⟨items, l, rfl, hb⟩
      exact namedLet_settles he hc hb (hitems (List.mem_cons_of_mem _ List.mem_cons_self))
        (fun s hs => (ho s (by simp [hs])).height_le) name place l _
    · exact .throw _

theorem conditional_settles (he : Lexicalizes table expand n) (hc : c.Realizes table (k :: ρ))
    (negated : Bool) {test : Sexpr} {forms : List Sexpr}
    (ho : ∀ s ∈ test :: forms, k.Spans table n s) (location : Option Location) :
    Settles table (k :: ρ) c (conditional expand negated test forms location) fun e scopes =>
      LexicalSpecial table ⟨k :: ρ, scopes⟩ (if negated then .unless else .when) (test :: forms)
        e := by
  refine (he.settles hc (ho test List.mem_cons_self)).bind fun t d _ hd ht => ?_
  refine (sequence_settles he hd (fun s hs => ho s (List.mem_cons_of_mem _ hs)) location).bind
    fun body g hdg hg hbody => .pure hg fun scopes hs => ?_
  cases negated with
  | false => exact .when (ht scopes (hdg.trans hs)) (hbody scopes hs)
  | true => exact .unless (ht scopes (hdg.trans hs)) (hbody scopes hs)

theorem branch_settles (he : Lexicalizes table expand n) (hc : c.Realizes table (k :: ρ))
    {test consequent : Sexpr} {alternative : List Sexpr}
    (ho : ∀ s ∈ test :: consequent :: alternative, k.Spans table n s)
    (hone : alternative.length ≤ 1) (location : Option Location) :
    Settles table (k :: ρ) c (do
      let test ← expand test
      let consequent ← expand consequent
      let alternative ← alternative.head?.mapM expand
      return Expr.branch test consequent alternative location) fun e scopes =>
        LexicalSpecial table ⟨k :: ρ, scopes⟩ .if (test :: consequent :: alternative) e := by
  refine (he.settles hc (ho test (by simp))).bind fun t d _ hd ht => ?_
  refine (he.settles hd (ho consequent (by simp))).bind fun e g hdg hg he' => ?_
  have halternative : Settles table (k :: ρ) g (alternative.head?.mapM expand) fun a scopes =>
      ∃ es, a = es.head? ∧ LexicalForms table ⟨k :: ρ, scopes⟩ alternative es := by
    match alternative with
    | [] => exact .pure hg fun _ _ => ⟨[], rfl, .nil⟩
    | [s] =>
      exact (he.settles hg (ho s (by simp))).bind fun x b _ hb hx =>
        .pure hb fun scopes hs => ⟨[x], rfl, .cons (hx scopes hs) .nil⟩
    | _ :: _ :: _ => simp at hone
  refine halternative.bind fun a b hgb hb ha => .pure hb fun scopes hs => ?_
  obtain ⟨es, rfl, hes⟩ := ha scopes hs
  exact .branch (.cons (ht scopes (hdg.trans (hgb.trans hs)))
    (.cons (he' scopes (hgb.trans hs)) hes))

/-- A special form by its keyword. -/
theorem specialForm_settles (he : Lexicalizes table expand n) (hc : c.Realizes table (k :: ρ))
    {form : SpecialForm} {name : String} {operands : List Sexpr} {place location : Option Location}
    (hkeyword : table.find? name = some (.form form))
    (hs : k.Spans table (n + 1) (.list (.identifier name place :: operands) location)) (s : Sexpr) :
    Settles table (k :: ρ) c (specialForm expand form name operands s) fun e scopes =>
      LexicalSpecial table ⟨k :: ρ, scopes⟩ form operands e := by
  have ho : ∀ s ∈ operands, k.Spans table n s := fun s hm => hs.item (List.mem_cons_of_mem _ hm)
  have hheights {p : Sexpr} {forms : List Sexpr} (h : operands = p :: forms) :
      ∀ s ∈ forms, s.height ≤ n := fun s hm =>
    (ho s (h ▸ List.mem_cons_of_mem _ hm)).height_le
  have hbindings {items forms : List Sexpr} {l : Option Location}
      (h : operands = .list items l :: forms) : ∀ item ∈ items, k.Spans table n item :=
    fun item hi => (ho _ (h ▸ List.mem_cons_self)).part (.list hi .self)
  unfold specialForm
  dsimp only
  refine Settles.read (fun _ _ h => checkArity_eq_ok h) fun _ harity => ?_
  split
  · exact literal_settles hc _ _ fun _ _ => .quote
  · have hk : k.templates :=
      hs.templates ⟨name, place, .list List.mem_cons_self .self, hkeyword⟩
    exact (quasi_settles he hc hk _ (ho _ List.mem_cons_self) 1).mono fun e d _ he scopes hs =>
      .quasiquote (he scopes hs)
  · exact .throw _
  · exact .throw _
  · refine branch_settles he hc ho ?_ _
    have hcount := (Arity.accepts_between.mp harity).2
    simp only [List.length_cons] at hcount
    omega
  · refine (clauses_settles he hc ho).bind fun p d _ hd hp => .pure hd fun scopes hs => ?_
    exact .cond (hp scopes hs)
  · rename_i ps forms
    refine Settles.read (fun _ _ h => parameterItems_eq_ok h) ?_
    rintro ⟨items, tail⟩ hformals
    have hitems : ∀ item ∈ items, item.height ≤ n := fun item hi =>
      Nat.le_trans (Sexpr.height_le_of_mem_formals (by rwa [hformals]))
        (ho ps List.mem_cons_self).height_le
    refine (lambda_settles he hc hitems (hheights rfl) _ _).bind fun f d _ hd hf =>
      .pure hd fun scopes hs => .lambda ?_
    rw [hformals]
    exact hf scopes hs
  · exact namedLambda_settles he hc (ho _ List.mem_cons_self).height_le (hheights rfl) _
  · refine define_settles he hc ho (fun target forms defined hoperands hdefined => ?_) s
    subst hoperands
    exact hs.admits defined ⟨name, place, target, forms, location, .self, hkeyword, hdefined⟩
  · exact assign_settles he hc _ (ho _ (by simp)) s
  · exact (mapM_settles he hc ho).bind fun es d _ hd hes => .pure hd fun scopes hs =>
      .begin (hes scopes hs)
  · exact letForm_settles he hc ho _ s
  · refine Settles.read (fun _ _ h => localBindings_eq_ok h) ?_
    rintro bs ⟨items, l, rfl, hb⟩
    exact (letStar_settles he hc hb (hbindings rfl) (hheights rfl) _).mono
      fun e d _ he scopes hs => .letStar (he scopes hs)
  · refine Settles.read (fun _ _ h => localBindings_eq_ok h) ?_
    rintro bs ⟨items, l, rfl, hb⟩
    exact letrec_settles he hc hb (fun item hi => (hbindings rfl item hi).height_le)
      (hheights rfl) l _
  · exact conditional_settles he hc false ho _
  · exact conditional_settles he hc true ho _
  · exact .throw _

end Resolving

end RegisterScheme
