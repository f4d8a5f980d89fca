import RegisterScheme.Expr.Resolve
import RegisterScheme.Proofs.Expr.Local

/-! Every form comes out scoped, and so does every program: resolution ends in a scoped procedure
or in an error that the program has earned. -/

namespace RegisterScheme

open ScopeChain

variable {c : ScopeChain}

namespace Resolving

variable {expand : Expand} {n : Nat}

theorem callGlobal_keeps (hc : c.Sound) {name : String}
    (hn : name ∈ Scope.templateProcedures) {es : List Expr} (hes : ∀ e ∈ es, Lasting e.Scoped c)
    (s : Sexpr) : ResolvesExpr c (callGlobal name es s) := by
  refine Keeps.bind (global_keeps hc s (.inl hn)) fun v d hd hv => ?_
  refine .pure (.refl d) fun scopes hg => .call (.reference (hv.grow hg)) fun e he => ?_
  exact hes e he scopes (hd.scopes.grow.trans hg)

theorem consExpr_lasting {car cdr : Expr} (hcar : Lasting car.Scoped c)
    (hcdr : Lasting cdr.Scoped c) (s : Sexpr) : Lasting (consExpr car cdr s).Scoped c := by
  refine fun scopes hg => .operation rfl fun e he => ?_
  obtain rfl | rfl : e = car ∨ e = cdr := by simpa using he
  · exact hcar scopes hg
  · exact hcdr scopes hg

theorem get_keeps : Resolves c (get : Resolving ScopeChain) fun a d => a = c ∧ d = c :=
  .get (.refl c) ⟨rfl, rfl⟩

theorem height_lt_of_spliced? {level : Nat} {item e : Sexpr}
    (h : spliced? c level item = some e) : e.height < item.height := by
  unfold spliced? at h
  split at h
  · rename_i head arg location
    split at h
    · obtain rfl : arg = e := Option.some.inj h
      exact Sexpr.height_lt_list (by simp)
    · cases h
  · cases h

mutual

theorem quasi_keeps (he : Expands expand n) {c : ScopeChain} (hc : c.Sound) :
    (template : Sexpr) → template.height ≤ n → (level : Nat) →
      ResolvesExpr c (quasi expand template level)
  | .list items location, h, level => by
    have hitems : ∀ s ∈ items, s.height ≤ n := fun s hs =>
      Nat.le_trans (Nat.le_of_lt (Sexpr.height_lt_list hs)) h
    by_cases hpair : ∃ head arg, items = [head, arg]
    · obtain ⟨head, arg, rfl⟩ := hpair
      rw [quasi]
      refine Keeps.bind get_keeps ?_
      rintro _ c - ⟨rfl, rfl⟩
      split
      · exact literal_keeps _ _
      · refine Keeps.bind get_keeps ?_
        rintro _ c - ⟨rfl, rfl⟩
        split
        · exact he c arg hc (hitems arg (by simp))
        · exact invalid_keeps
        · refine Keeps.bind (quasi_keeps he hc arg (hitems arg (by simp)) _) fun inner d hd hi => ?_
          refine Keeps.bind (literal_keeps _ _) fun keyword e hde hk => ?_
          refine Keeps.bind (literal_keeps _ _) fun nil g heg hnil => ?_
          refine .pure (.refl g) (consExpr_lasting (hk.mono heg.scopes.grow)
            (consExpr_lasting (hi.mono (hde.trans heg).scopes.grow) hnil _) _)
        · exact quasiItems_keeps he hc true (fun _ _ => literal_keeps _ _) [head, arg] hitems _
    · rw [quasi]
      · refine Keeps.bind get_keeps ?_
        rintro _ c - ⟨rfl, rfl⟩
        split
        · exact literal_keeps _ _
        · exact quasiItems_keeps he hc true (fun _ _ => literal_keeps _ _) items hitems _
      · exact fun head arg h => hpair ⟨head, arg, h⟩
  | .dotted items tail location, h, level => by
    have hitems : ∀ s ∈ items, s.height ≤ n := fun s hs =>
      Nat.le_trans (Nat.le_of_lt (Sexpr.height_lt_dotted hs)) h
    have htail : tail.height ≤ n := by
      rw [Sexpr.height] at h
      omega
    rw [quasi]
    refine Keeps.bind get_keeps ?_
    rintro _ c - ⟨rfl, rfl⟩
    split
    · exact literal_keeps _ _
    · exact quasiItems_keeps he hc false (fun _ hd => quasi_keeps he hd tail htail level) items
        hitems level
  | .vector items location, h, level => by
    have hitems : ∀ s ∈ items, s.height ≤ n := by
      rw [Sexpr.height] at h
      exact Sexpr.heightOfItems_le.mp (Nat.le_of_succ_le h)
    rw [quasi]
    refine Keeps.bind get_keeps ?_
    rintro _ c - ⟨rfl, rfl⟩
    split
    · exact literal_keeps _ _
    · refine Keeps.bind (quasiItems_keeps he hc true (fun _ _ => literal_keeps _ _) items hitems
        level) fun list d hd hl => ?_
      exact callGlobal_keeps (hd.sound hc) (by decide) (by simpa using hl) _
  | .literal _ _, _, _ | .identifier _ _, _, _ => by
    rw [quasi.eq_def]
    refine Keeps.bind get_keeps ?_
    rintro _ c - ⟨rfl, rfl⟩
    split
    · exact literal_keeps _ _
    · exact literal_keeps _ _
termination_by template => sizeOf template

theorem quasiItems_keeps (he : Expands expand n) {c : ScopeChain} (hc : c.Sound) (dotted : Bool)
    {last : Resolving Expr} (hlast : ∀ d : ScopeChain, d.Sound → ResolvesExpr d last) :
    (items : List Sexpr) → (∀ s ∈ items, s.height ≤ n) → (level : Nat) →
      ResolvesExpr c (quasiItems expand dotted last items level)
  | [], _, level => by
    unfold quasiItems
    exact hlast c hc
  | item :: rest, h, level => by
    rw [quasiItems]
    refine Keeps.bind get_keeps ?_
    rintro _ c - ⟨rfl, rfl⟩
    dsimp only
    split
    · exact he c _ hc (h _ (by simp))
    · rename_i rest _ _ _
      refine Keeps.bind (quasiItems_keeps he hc dotted hlast rest
        (fun s hs => h s (List.mem_cons_of_mem _ hs)) level) fun cdr d hd hcdr => ?_
      refine Keeps.bind get_keeps ?_
      rintro _ d - ⟨rfl, rfl⟩
      have hd := hd.sound hc
      split
      · rename_i e hsp
        have he' := Nat.le_trans (Nat.le_of_lt (height_lt_of_spliced? hsp)) (h item (by simp))
        refine Keeps.bind (he d e hd he') fun car e hde hcar => ?_
        exact callGlobal_keeps (hde.sound hd) (by decide)
          (by simpa using ⟨hcar, hcdr.mono hde.scopes.grow⟩) _
      · refine Keeps.bind (quasi_keeps he hd item (h item (by simp)) level) fun car e hde hcar => ?_
        exact .pure (.refl e) (consExpr_lasting hcar (hcdr.mono hde.scopes.grow) _)
termination_by items => sizeOf items

end

/-- What is known of the clauses of a conditional and of its last resort. -/
def ClausesLasting (p : List (Clause Expr) × Option Expr) (d : ScopeChain) : Prop :=
  (∀ q ∈ p.1, Lasting q.test.Scoped d ∧ ∀ e ∈ q.body, Lasting e.Scoped d) ∧
    ∀ e ∈ p.2, Lasting e.Scoped d

/-- One more clause, with a body or none, in front of others. -/
theorem moreClauses_keeps {rest : List Sexpr} {t : Expr} {body : Option Expr}
    (hmore : Resolves c (clauses expand rest) ClausesLasting) (ht : Lasting t.Scoped c)
    (hbody : ∀ e ∈ body, Lasting e.Scoped c) :
    Resolves c (do
      let (more, otherwise) ← clauses expand rest
      return (⟨t, body⟩ :: more, otherwise)) ClausesLasting := by
  refine Keeps.bind hmore ?_
  rintro ⟨more, otherwise⟩ d hd ⟨hm, ho⟩
  refine .pure (.refl d) ⟨List.forall_mem_cons.mpr ⟨⟨?_, fun e he => ?_⟩, hm⟩, ho⟩
  · exact ht.mono hd.scopes.grow
  · exact (hbody e he).mono hd.scopes.grow

theorem clauses_keeps (he : Expands expand n) (hc : c.Sound) {items : List Sexpr}
    (hi : ∀ s ∈ items, s.height ≤ n + 1) :
    Resolves c (clauses expand items) ClausesLasting := by
  induction items generalizing c with
  | nil => exact .pure (.refl c) (by simp [ClausesLasting])
  | cons clause rest ih =>
    have hrest : ∀ s ∈ rest, s.height ≤ n + 1 := fun s hs => hi s (List.mem_cons_of_mem _ hs)
    have hclause := hi clause List.mem_cons_self
    unfold clauses
    split
    · rename_i place forms location
      have hforms : ∀ s ∈ forms, s.height ≤ n := fun s hs =>
        Nat.le_of_lt_succ (Nat.lt_of_lt_of_le
          (Sexpr.height_lt_list (List.mem_cons_of_mem _ hs)) hclause)
      split
      · exact invalid_keeps
      · split
        · exact invalid_keeps
        · exact Keeps.bind (sequence_keeps he hc hforms location) fun e d _ hs =>
            .pure (.refl d) (by simpa [ClausesLasting] using hs)
    · rename_i test forms location _
      have hparts : ∀ s ∈ test :: forms, s.height ≤ n := fun s hs =>
        Nat.le_of_lt_succ (Nat.lt_of_lt_of_le (Sexpr.height_lt_list hs) hclause)
      refine Keeps.bind (he c test hc (hparts test List.mem_cons_self)) fun t d hd ht => ?_
      have hd' := hd.sound hc
      dsimp only
      split
      · exact moreClauses_keeps (ih hd' hrest) ht (by simp)
      · have hbody := (sequence_keeps he hd' (fun s hs => hparts s (List.mem_cons_of_mem _ hs))
          location).mono (Q := fun e g => d.Extends g ∧ Lasting e.Scoped g) fun _ _ h h' => ⟨h, h'⟩
        rw [map_eq_pure_bind, bind_assoc]
        refine Keeps.bind hbody fun body g _ hb => ?_
        obtain ⟨hdg, hb⟩ := hb
        rw [pure_bind]
        exact moreClauses_keeps (ih (hdg.sound hd') hrest) (ht.mono hdg.scopes.grow)
          (by simpa using hb)
    · exact invalid_keeps

theorem header_keeps (he : Expands expand n) (hc : c.Sound) (operands : List Sexpr) (s : Sexpr)
    (name : String) (head : Sexpr) {items : List Sexpr} (hi : ∀ item ∈ items, item.height ≤ n)
    (tail : Option Sexpr) {forms : List Sexpr} (hf : ∀ s ∈ forms, s.height ≤ n) :
    ResolvesExpr c (define.header expand operands s name head items tail forms) := by
  refine Keeps.bind (checkArity_keeps _ _ _ _) fun _ d hd _ => ?_
  refine Keeps.bind (parameterName_keeps head) ?_
  rintro procedureName d - rfl
  refine Keeps.bind (definitionTarget_keeps (hd.sound hc) procedureName head) fun v e hde hv => ?_
  have hvalid := (hde.sound (hd.sound hc)).valid
  refine Keeps.bind (lambda_keeps he hvalid _ hi tail hf _) fun f g heg hg => ?_
  exact .pure (.refl g) fun scopes hs =>
    .assignment (hv.grow (heg.scopes.grow.trans hs)) (.lambda (hg scopes hs))

theorem define_keeps (he : Expands expand n) (hc : c.Sound) {operands : List Sexpr}
    (ho : ∀ s ∈ operands, s.height ≤ n) (s : Sexpr) :
    ResolvesExpr c (define expand operands s) := by
  unfold define
  dsimp only
  split
  · exact fail_keeps trivial
  · rename_i target forms
    have htarget := ho target List.mem_cons_self
    have hforms : ∀ s ∈ forms, s.height ≤ n := fun s hs => ho s (List.mem_cons_of_mem _ hs)
    split
    · rename_i variableName place
      refine Keeps.bind (checkArity_keeps _ _ _ _) fun _ d hd _ => ?_
      refine Keeps.bind (definitionTarget_keeps (hd.sound hc) variableName _) fun v e hde hv => ?_
      have he' := hde.sound (hd.sound hc)
      have hvalue {act : Resolving Expr} (h : ResolvesExpr e act) : ResolvesExpr e (do
          let value ← act
          return Expr.assignment v value s.location) :=
        Keeps.bind h fun value k hek hval => .pure (.refl k) fun scopes hs =>
          .assignment (hv.grow (hek.scopes.grow.trans hs)) (hval scopes hs)
      split
      · exact hvalue (namedValue_keeps he he' variableName (hforms _ List.mem_cons_self))
      · exact hvalue (literal_keeps _ _)
    · exact header_keeps he hc _ _ _ _ (fun item hi =>
        Nat.le_trans (Nat.le_of_lt (Sexpr.height_lt_list (List.mem_cons_of_mem _ hi))) htarget)
        none hforms
    · exact header_keeps he hc _ _ _ _ (fun item hi =>
        Nat.le_trans (Nat.le_of_lt (Sexpr.height_lt_dotted (List.mem_cons_of_mem _ hi))) htarget)
        _ hforms
    · exact invalid_keeps

theorem assign_keeps (he : Expands expand n) (hc : c.Sound) (target : Sexpr) {value : Sexpr}
    (hv : value.height ≤ n) (s : Sexpr) : ResolvesExpr c (assign expand target value s) := by
  unfold assign
  split
  · rename_i name place
    refine Keeps.bind (primitive?_keeps name) ?_
    rintro p c - ⟨rfl, -⟩
    split
    · exact invalid_keeps
    · refine Keeps.bind (variableRef_keeps hc name _) fun v d hd hname => ?_
      refine Keeps.bind (he d value (hd.sound hc) hv) fun e g hdg hval => ?_
      exact .pure (.refl g) fun scopes hs =>
        .assignment (hname.grow (hdg.scopes.grow.trans hs)) (hval scopes hs)
  · exact invalid_keeps

theorem namedLambda_keeps (he : Expands expand n) (hc : c.Sound) {ps : Sexpr} (hp : ps.height ≤ n)
    {forms : List Sexpr} (hf : ∀ s ∈ forms, s.height ≤ n) (location : Option Location) :
    ResolvesExpr c (namedLambda expand ps forms location) := by
  refine Keeps.bind (parameterItems_keeps ps) ?_
  rintro ⟨items, tail⟩ c - ⟨rfl, hi⟩
  split
  · exact invalid_keeps
  · rename_i head items tail heq
    obtain ⟨rfl, rfl⟩ := Prod.mk.inj heq
    refine Keeps.bind (parameterName_keeps head) ?_
    rintro name c - rfl
    have hitems : ∀ item ∈ items, item.height ≤ n := fun item hm =>
      Nat.le_trans (Nat.le_of_lt (hi item (List.mem_cons_of_mem _ hm))) hp
    refine Keeps.bind (lambda_keeps he hc.valid (some name) hitems _ hf location) fun f d _ hd => ?_
    exact .pure (.refl d) fun scopes hs => .lambda (hd scopes hs)

theorem letForm_keeps (he : Expands expand n) (hc : c.Sound) {first : Sexpr} {rest : List Sexpr}
    (hfirst : first.height ≤ n) (hrest : ∀ s ∈ rest, s.height ≤ n) (operands : List Sexpr)
    (s : Sexpr) : ResolvesExpr c (letForm expand first rest operands s) := by
  unfold letForm
  split
  · refine Keeps.bind (localBindings_keeps first) fun bindings d hd hb => ?_
    refine bindAndCall_keeps he (hd.sound hc)
      (fun b hm i hi => Nat.le_trans (Nat.le_of_lt (hb b hm i hi)) hfirst) _
      fun _ h => body_keeps he h hrest _
  · refine Keeps.bind (checkArity_keeps _ _ _ _) fun _ d hd _ => ?_
    split
    · rename_i bindings forms
      refine Keeps.bind (localBindings_keeps bindings) fun bs g hdg hb => ?_
      refine namedLet_keeps he (hdg.sound (hd.sound hc)) _ first (fun b hm i hi => ?_)
        (fun s hs => hrest s (List.mem_cons_of_mem _ hs)) _
      exact Nat.le_trans (Nat.le_of_lt (hb b hm i hi)) (hrest bindings List.mem_cons_self)
    · exact fail_keeps trivial

theorem conditional_keeps (he : Expands expand n) (hc : c.Sound) (negated : Bool) {test : Sexpr}
    (ht : test.height ≤ n) {forms : List Sexpr} (hf : ∀ s ∈ forms, s.height ≤ n)
    (location : Option Location) :
    ResolvesExpr c (conditional expand negated test forms location) := by
  refine Keeps.bind (he c test hc ht) fun t d hd hts => ?_
  refine Keeps.bind (sequence_keeps he (hd.sound hc) hf location) fun b e hde hb => ?_
  refine .pure (.refl e) fun scopes hs => .branch ?_ (hb scopes hs) (by simp)
  have htest := hts scopes (hde.scopes.grow.trans hs)
  split
  · exact .operation rfl (by simpa using htest)
  · exact htest

theorem specialForm_keeps (he : Expands expand n) (hc : c.Sound) (form : SpecialForm)
    (name : String) {operands : List Sexpr} (ho : ∀ s ∈ operands, s.height ≤ n) (s : Sexpr) :
    ResolvesExpr c (specialForm expand form name operands s) := by
  unfold specialForm
  dsimp only
  refine Keeps.bind (checkArity_keeps _ _ _ _) fun _ d hd _ => ?_
  have hd := hd.sound hc
  split
  · exact literal_keeps _ _
  · exact quasi_keeps he hd _ (ho _ (by simp)) 1
  · exact invalid_keeps
  · exact invalid_keeps
  · rename_i test consequent alternative _
    refine Keeps.bind (he d test hd (ho test (by simp))) fun t e hde ht => ?_
    have he' := hde.sound hd
    refine Keeps.bind (he e consequent he' (ho consequent (by simp))) fun b g heg hb => ?_
    have hg := heg.sound he'
    refine Keeps.bind (P := fun a k => ∀ x ∈ a, Lasting x.Scoped k) ?_ fun a k hgk ha => ?_
    · cases alternative with
      | nil => exact .pure (.refl g) (by simp)
      | cons a as =>
        exact Keeps.bind (he g a hg (ho a (by simp))) fun x k _ hx => .pure (.refl k) (by simpa)
    · refine .pure (.refl k) fun scopes hs => .branch ?_ ?_ fun x hx => ha x hx scopes hs
      · exact ht scopes ((heg.trans hgk).scopes.grow.trans hs)
      · exact hb scopes (hgk.scopes.grow.trans hs)
  · refine Keeps.bind (clauses_keeps he hd fun s hs => Nat.le_succ_of_le (ho s hs)) ?_
    rintro ⟨clauses, otherwise⟩ e - ⟨hcl, hot⟩
    exact .pure (.refl e) fun scopes hs => .cond (fun q hq => (hcl q hq).1 scopes hs)
      (fun q hq x hx => (hcl q hq).2 x hx scopes hs) fun x hx => hot x hx scopes hs
  · rename_i ps forms _
    refine Keeps.bind (parameterItems_keeps ps) ?_
    rintro ⟨items, tail⟩ d - ⟨rfl, hi⟩
    refine Keeps.bind (lambda_keeps he hd.valid none (fun item hm =>
      Nat.le_trans (Nat.le_of_lt (hi item hm)) (ho ps (by simp))) tail
      (fun s hs => ho s (List.mem_cons_of_mem _ hs)) _) fun f e _ hf => ?_
    exact .pure (.refl e) fun scopes hs => .lambda (hf scopes hs)
  · rename_i ps forms _
    exact namedLambda_keeps he hd (ho ps (by simp)) (fun s hs => ho s (by simp [hs])) _
  · exact define_keeps he hd ho s
  · exact assign_keeps he hd _ (ho _ (by simp)) s
  · exact Keeps.bind (mapM_expand_keeps he hd ho) fun es e _ hes =>
      .pure (.refl e) fun scopes hs => .sequence fun x hx => hes.2 x hx scopes hs
  · exact letForm_keeps he hd (ho _ (by simp)) (fun s hs => ho s (by simp [hs])) _ s
  · rename_i bindings forms _
    refine Keeps.bind (localBindings_keeps bindings) fun bs e hde hb => ?_
    exact letStar_keeps he (fun s hs => ho s (by simp [hs])) _ (fun b hm i hi =>
      Nat.le_trans (Nat.le_of_lt (hb b hm i hi)) (ho bindings (by simp))) (hde.sound hd)
  · rename_i bindings forms _
    refine Keeps.bind (localBindings_keeps bindings) fun bs e hde hb => ?_
    exact letrec_keeps he (hde.sound hd) (fun b hm i hi =>
      Nat.le_trans (Nat.le_of_lt (hb b hm i hi)) (ho bindings (by simp)))
      (fun s hs => ho s (by simp [hs])) _
  · exact conditional_keeps he hd false (ho _ (by simp)) (fun s hs => ho s (by simp [hs])) _
  · exact conditional_keeps he hd true (ho _ (by simp)) (fun s hs => ho s (by simp [hs])) _
  · exact fail_keeps trivial

/-- A form, an operation or a call, by what the head means. -/
theorem compoundOf_keeps (he : Expands expand n) (hc : c.Sound) {head : Sexpr}
    (hh : head.height ≤ n) {operands : List Sexpr} (ho : ∀ s ∈ operands, s.height ≤ n) (s : Sexpr)
    (p : Option (String × Primitive)) :
    ResolvesExpr c (match p with
      | some (name, .form form) => specialForm expand form name operands s
      | some (_, .operator op) => do
        checkArity op.name op.arity operands s
        return .operation op (← operands.mapM expand) s.location
      | none => do
        let callee ← expand head
        return .call callee (← operands.mapM expand) s.location) := by
  split
  · exact specialForm_keeps he hc _ _ ho s
  · refine Keeps.bind (checkArity_keeps _ _ _ _) fun _ d hd ha => ?_
    refine Keeps.bind (mapM_expand_keeps he (hd.sound hc) ho) fun es e _ hes => ?_
    obtain ⟨hl, hes⟩ := hes
    exact .pure (.refl e) fun scopes hs => .operation (hl ▸ ha) fun x hx => hes x hx scopes hs
  · refine Keeps.bind (he c head hc hh) fun callee d hd hcallee => ?_
    refine Keeps.bind (mapM_expand_keeps he (hd.sound hc) ho) fun es e hde hes => ?_
    exact .pure (.refl e) fun scopes hs =>
      .call (hcallee scopes (hde.scopes.grow.trans hs)) fun x hx => hes.2 x hx scopes hs

theorem compound_keeps (he : Expands expand n) (hc : c.Sound) {head : Sexpr}
    (hh : head.height ≤ n) {operands : List Sexpr} (ho : ∀ s ∈ operands, s.height ≤ n) (s : Sexpr) :
    ResolvesExpr c (compound expand head operands s) := by
  unfold compound
  split
  · rw [map_eq_pure_bind, bind_assoc]
    refine Keeps.bind (primitive?_keeps _) ?_
    rintro p c - ⟨rfl, -⟩
    rw [pure_bind]
    exact compoundOf_keeps he hc hh ho s _
  · exact compoundOf_keeps he hc hh ho s none

/-- A list with a keyword at its head is a special form. -/
theorem expandWith_form {expand : Expand} {name : String} {form : SpecialForm}
    (h : c.primitive? name = some (.form form)) (place : Option Location) (operands : List Sexpr)
    (location : Option Location) :
    expandWith expand (.list (.identifier name place :: operands) location) c =
      specialForm expand form name operands (.list (.identifier name place :: operands) location)
        c := by
  have hprimitive : Resolving.primitive? name c = .ok (some (.form form)) c := by
    rw [← h]
    rfl
  have hmap : ((·.map fun p => (name, p)) <$> Resolving.primitive? name : Resolving _) c =
      .ok (some (name, .form form)) c := by
    rw [map_eq_pure_bind, bind_of_ok hprimitive]
    rfl
  rw [expandWith, compound]
  exact bind_of_ok hmap

theorem expandWith_keeps (he : Expands expand n) : Expands (expandWith expand) (n + 1) := by
  intro c s hc hs
  unfold expandWith
  split
  · exact literal_keeps _ _
  · exact literal_keeps _ _
  · refine Keeps.bind (variableRef_keeps hc _ _) fun v d _ hv => ?_
    exact .pure (.refl d) fun scopes hg => .reference (hv.grow hg)
  · exact literal_keeps _ _
  · have hparts {p : Sexpr} (hp : p ∈ _) : p.height ≤ n :=
      Nat.le_of_lt_succ (Nat.lt_of_lt_of_le (Sexpr.height_lt_list hp) hs)
    exact compound_keeps he hc (hparts List.mem_cons_self)
      (fun p hp => hparts (List.mem_cons_of_mem _ hp)) _
  · exact invalid_keeps

theorem expandWithin_keeps (n : Nat) : Expands (expandWithin n) n := by
  induction n with
  | zero =>
    intro c s _ hs
    cases s <;> simp [Sexpr.height] at hs
  | succ n ih => exact expandWith_keeps ih

theorem program_keeps {c : ScopeChain} (hc : c.scopes = []) (forms : List Sexpr) :
    Resolves c (program forms) fun f _ => f.Scoped [] := by
  have hs : Sound { c with scopes := .empty :: c.scopes } :=
    ⟨List.cons_ne_nil _ _, Scope.inside_empty _, by rw [hc]; trivial⟩
  have hbody := (sequence_keeps (expandWithin_keeps (Sexpr.heightOfItems forms)) hs
    (Sexpr.heightOfItems_le.mp (Nat.le_refl _)) (forms.head?.bind Sexpr.location)).mono
      (Q := fun e d => Parameters.none.DeclaredIn d ∧ Lasting e.Scoped d ∧ d.Sound)
      fun e d hd he => ⟨(none_declaredIn rfl).extends hd, he, hd.sound hs⟩
  refine Keeps.bind (P := fun a d =>
    Lasting (Function.Scoped ⟨none, .none, a.2, a.1, forms.head?.bind Sexpr.location⟩) d)
    (inScope_keeps (Resolves.declaring hbody) fun e d s outer hds ⟨hp, he, hd⟩ =>
      finished_scoped hp he hd hds none _) fun a d hd h => .pure (.refl d) ?_
  have hnil : d.scopes = [] := List.forall₂_nil_left_iff.mp (hc ▸ hd.scopes)
  exact hnil ▸ h.now

end Resolving

/-- Every program is resolved: the outcome is a scoped procedure or an error of the program. -/
theorem Function.ofProgram_scoped (primitives : Primitives) (nextObject : Nat)
    (forms : List Sexpr) :
    match Function.ofProgram primitives nextObject forms with
    | .ok (f, _) => f.Scoped []
    | .error e => e.IsError := by
  have h := Resolving.program_keeps (c := .start primitives nextObject) rfl forms
  unfold ofProgram
  cases hp : Resolving.program forms (.start primitives nextObject) with
  | ok f c => exact (h.of_ok hp).2
  | error e c => exact (h.of_error hp).2

end RegisterScheme
