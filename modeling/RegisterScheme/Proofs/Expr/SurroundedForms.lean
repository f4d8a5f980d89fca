import RegisterScheme.Proofs.Expr.Surroundings

/-! Form by form, what is resolved in two programs comes out the same if the expressions inside
do. -/

namespace RegisterScheme

open ScopeChain Resolving

namespace Surroundings

variable {q : Surroundings} {R : Sexpr → Sexpr → Prop} {i : Stage} {α β : Type} {name : String}
  {s s' : Sexpr} {forms forms' : List Sexpr}

/-- Resolutions of what is inside, anywhere in two programs. -/
def Inside (q : Surroundings) (R : Sexpr → Sexpr → Prop) (expand expand' : Expand) : Prop :=
  ∀ i s s', R s s' → q.Resolves i (expand s) (expand' s')

/-! ### Definitions inside a body -/

theorem definedName?_eq (hR : Sexpr.Likeness q.known R) (h : R s s') :
    definedName? s' = definedName? s := by
  cases hR _ _ h with
  | literal | vector | identifier => rfl
  | list hs | dotted hs =>
    cases hs with
    | nil => rfl
    | cons hhead _ => exact hR.identifier? hhead

theorem definedName?_head (hR : Sexpr.Likeness q.known R) (h : List.Forall₂ R forms forms') :
    forms'.head?.bind definedName? = forms.head?.bind definedName? := by
  cases h with
  | nil => rfl
  | cons hs _ => exact definedName?_eq hR hs

theorem declareDefinition_other
    (h : ∀ head l operands place, s ≠ .list (.identifier head l :: operands) place) :
    Resolving.declareDefinition s = pure () := by
  unfold Resolving.declareDefinition
  split
  · exact absurd rfl (h _ _ _ _)
  · rfl

/-- What is no form defines nothing. -/
theorem declareNothing (hR : Sexpr.Likeness q.known R) (h : R s s')
    (hs : ∀ head l operands place, s ≠ .list (.identifier head l :: operands) place) :
    Alongside q.pairing i (Resolving.declareDefinition s) (Resolving.declareDefinition s')
      fun _ _ _ => True := by
  rw [declareDefinition_other hs, declareDefinition_other]
  · exact .pure trivial
  · rintro head l operands place rfl
    cases hR _ _ h with
    | list hs' =>
      cases hs' with
      | cons hhead _ =>
        cases hR _ _ hhead with
        | identifier => exact hs _ _ _ _ rfl

mutual

theorem declareDefinitions (hR : Sexpr.Likeness q.known R) {i : Stage} (hi : i.depth ≠ 0) :
    (forms : List Sexpr) → {forms' : List Sexpr} → List.Forall₂ R forms forms' →
    Alongside q.pairing i (Resolving.declareDefinitions forms)
      (Resolving.declareDefinitions forms') fun _ _ _ => True
  | [], _, h => by
    cases h
    rw [Resolving.declareDefinitions]
    exact .pure trivial
  | form :: forms, _, h => by
    cases h with
    | cons hform hforms =>
      rw [Resolving.declareDefinitions, Resolving.declareDefinitions]
      refine (declareDefinition hR hi form hform).bind fun j _ _ hij _ => ?_
      exact declareDefinitions hR (hij.1 ▸ hi) forms hforms

theorem declareDefinition (hR : Sexpr.Likeness q.known R) {i : Stage} (hi : i.depth ≠ 0) :
    (form : Sexpr) → {form' : Sexpr} → R form form' →
    Alongside q.pairing i (Resolving.declareDefinition form)
      (Resolving.declareDefinition form') fun _ _ _ => True
  | .list (.identifier head l :: operands) place, _, h => by
    cases hR _ _ h with
    | list hs =>
      cases hs with
      | cons hhead hoperands =>
        cases hR _ _ hhead with
        | identifier hknown =>
          rw [Resolving.declareDefinition, Resolving.declareDefinition]
          refine primitive?_bind hknown fun p => ?_
          have hname := definedName?_head hR hoperands
          rcases p with _ | (form | op)
          · exact .pure trivial
          · cases form
            case define =>
              dsimp only
              rw [hname]
              cases operands.head?.bind definedName? with
              | none => exact .pure trivial
              | some name => exact (defineLocal hi name _ _).bind fun _ _ _ _ _ => .pure trivial
            case begin => exact declareDefinitions hR hi operands hoperands
            all_goals exact .pure trivial
          · exact .pure trivial
  | .list [] _, _, h | .list (.literal _ _ :: _) _, _, h | .list (.list _ _ :: _) _, _, h
  | .list (.dotted _ _ _ :: _) _, _, h | .list (.vector _ _ :: _) _, _, h | .literal _ _, _, h
  | .identifier _ _, _, h | .dotted _ _ _, _, h | .vector _ _, _, h =>
    declareNothing hR h (by simp)

end

/-! ### Sequences and procedures -/

section

variable {expand expand' : Expand} (he : q.Inside R expand expand')

include he

theorem inOrder (h : List.Forall₂ R forms forms') :
    Alongside q.pairing i (forms.mapM expand) (forms'.mapM expand')
      fun j es es' => Exprs.Alike (q.renumbering j) j.depth es es' :=
  (Alongside.mapM (P := fun j => Expr.Alike (q.renumbering j) j.depth)
    (fun _ _ _ _ hjk he => lasts hjk he) h fun j s s' _ hs => he j s s' hs).mono
    fun _ _ _ _ hes => .of_forall₂ hes

theorem sequence (h : List.Forall₂ R forms forms') (place place' : Option Location) :
    q.Resolves i (Resolving.sequence expand forms place)
      (Resolving.sequence expand' forms' place') := by
  cases h with
  | nil => exact .pure (.sequence .nil)
  | cons hs hforms =>
    cases hforms with
    | nil => exact he i _ _ hs
    | cons hs' hforms =>
      exact (inOrder he (.cons hs (.cons hs' hforms))).bind fun _ _ _ _ hes => .pure (.sequence hes)

theorem body (hR : Sexpr.Likeness q.known R) (hi : i.depth ≠ 0) (h : List.Forall₂ R forms forms')
    (place place' : Option Location) : q.Resolves i (Resolving.body expand forms place)
      (Resolving.body expand' forms' place') :=
  (declareDefinitions hR hi forms h).bind fun _ _ _ _ _ => sequence he h place place'

end

theorem parameterName (hR : Sexpr.Likeness q.known R) (h : R s s') :
    Alongside q.pairing i (Resolving.parameterName s) (Resolving.parameterName s') fun _ => Eq := by
  cases hR _ _ h with
  | identifier => exact .pure rfl
  | literal | list | dotted | vector => exact .throw _ _

theorem parameterItems (hR : Sexpr.Likeness q.known R) (h : R s s') :
    Alongside q.pairing i (Resolving.parameterItems s) (Resolving.parameterItems s')
      fun _ p p' => List.Forall₂ R p.1 p'.1 ∧ Option.Rel R p.2 p'.2 := by
  have hs := hR _ _ h
  cases hs with
  | identifier => exact .pure ⟨.nil, .some h⟩
  | list hs => exact .pure ⟨hs, .none⟩
  | dotted hs ht => exact .pure ⟨hs, .some ht⟩
  | literal | vector => exact .throw _ _

theorem restParameter (hR : Sexpr.Likeness q.known R) (hi : i.depth ≠ 0) (h : R s s') :
    Alongside q.pairing i (Resolving.restParameter s) (Resolving.restParameter s') fun _ => Eq := by
  refine (parameterName hR h).bind ?_
  rintro j name _ hij rfl
  refine (defineArgument (hij.1 ▸ hi) name .rest _ _).bind ?_
  rintro k ⟨slot, register⟩ _ _ rfl
  exact .pure rfl

section Parameters

variable {expand expand' : Expand} (he : q.Inside R expand expand')
  (hR : Sexpr.Likeness q.known R)

include he hR

/-- A default value. -/
theorem defaultValue {item item' : Sexpr} (h : R s s') :
    Alongside q.pairing i (Resolving.defaultValue expand s item)
      (Resolving.defaultValue expand' s' item')
      fun j f f' => f.Alike (q.renumbering j) (j.depth + 1) f' :=
  procedure (.pure (Parameters.none_alike _ _))
    (fun _ hij => body he hR (hij.1 ▸ i.inside_ne_zero) (.cons h .nil) _ _) none _ _

omit he hR in
theorem defaultedArgument (hi : i.depth ≠ 0) (name : String) (kind : ParameterKind)
    {default default' : Option Function}
    (hdefault : Option.Rel (Function.Alike (q.renumbering i) (i.depth + 1)) default default')
    (place place' : Option Location) : Alongside q.pairing i
      (do
        let (slot, register) ← Resolving.defineArgument name kind place
        return (⟨name, slot, register, default⟩ : OptionalParameter Function))
      (do
        let (slot, register) ← Resolving.defineArgument name kind place'
        return (⟨name, slot, register, default'⟩ : OptionalParameter Function))
      fun j p p' => Defaults.Alike (q.renumbering j) (j.depth + 1) [p] [p'] := by
  refine (defineArgument hi name kind _ _).bind ?_
  rintro j ⟨slot, register⟩ _ hij rfl
  have hrenumbering : q.renumbering i ≤ q.renumbering j := renumbering_mono hij
  rw [← hij.1] at hdefault
  cases hdefault with
  | none => exact .pure (.none .nil)
  | some hf => exact .pure (.some (hf.mono hrenumbering) .nil)

theorem optionalParameter (hi : i.depth ≠ 0) (kind : ParameterKind) (h : R s s') :
    Alongside q.pairing i (Resolving.optionalParameter expand kind s)
      (Resolving.optionalParameter expand' kind s')
      fun j p p' => Defaults.Alike (q.renumbering j) (j.depth + 1) [p] [p'] := by
  cases hR _ _ h with
  | identifier => exact defaultedArgument hi _ kind .none _ _
  | literal | dotted | vector => exact .throw _ _
  | list hs =>
    cases hs with
    | nil => exact .throw _ _
    | cons hname hs =>
      cases hs with
      | nil => exact .throw _ _
      | cons hform hs =>
        cases hs with
        | nil =>
          refine (parameterName hR hname).bind ?_
          rintro j name _ hij rfl
          refine (defaultValue he hR hform).bind fun k f f' hjk hf => ?_
          exact defaultedArgument ((le_trans hij hjk).1 ▸ hi) name kind (.some hf) _ _
        | cons => exact .throw _ _

theorem parameter (hi : i.depth ≠ 0) (part : Section) {p p' : Parameters Function}
    (hp : p.Alike (q.renumbering i) i.depth p') (h : R s s') :
    Alongside q.pairing i (Resolving.parameter expand part p s)
      (Resolving.parameter expand' part p' s')
      fun j p p' => p.Alike (q.renumbering j) j.depth p' := by
  have hlast {j : Stage} (hij : i ≤ j) : p.Alike (q.renumbering j) j.depth p' := by
    rw [hij.1]
    exact hp.mono (renumbering_mono hij)
  cases part with
  | required =>
    refine (parameterName hR h).bind ?_
    rintro j name _ hij rfl
    refine (defineArgument (hij.1 ▸ hi) name .required _ _).bind fun k _ _ hjk _ => ?_
    have hpk := hlast (le_trans hij hjk)
    exact .pure ⟨congrArg (· + 1) hpk.required, hpk.rest, hpk.optional, hpk.keys⟩
  | optional =>
    refine (optionalParameter he hR hi .optional h).bind fun j o o' hij ho => ?_
    have hpj := hlast hij
    exact .pure ⟨hpj.required, hpj.rest, ho.append hpj.optional, hpj.keys⟩
  | rest =>
    unfold Resolving.parameter
    dsimp only
    rw [hp.rest]
    split
    · exact .throw _ _
    · refine (restParameter hR hi h).bind ?_
      rintro j r _ hij rfl
      have hpj := hlast hij
      exact .pure ⟨hpj.required, rfl, hpj.optional, hpj.keys⟩
  | keys =>
    refine (optionalParameter he hR hi .key h).bind fun j o o' hij ho => ?_
    have hpj := hlast hij
    exact .pure ⟨hpj.required, hpj.rest, hpj.optional, ho.append hpj.keys⟩

theorem parameterItem (hi : i.depth ≠ 0) (part : Section) {p p' : Parameters Function}
    (hp : p.Alike (q.renumbering i) i.depth p') (h : R s s') :
    Alongside q.pairing i (Resolving.parameterItem expand part p s)
      (Resolving.parameterItem expand' part p' s')
      fun j x x' => x'.1 = x.1 ∧ x.2.Alike (q.renumbering j) j.depth x'.2 := by
  unfold Resolving.parameterItem
  rw [hR.identifier? h, hp.rest]
  split
  · split
    · exact .throw _ _
    · split
      · exact .throw _ _
      · exact .pure ⟨rfl, hp⟩
  · exact (parameter he hR hi part hp h).bind fun _ _ _ _ hp => .pure ⟨rfl, hp⟩

theorem parameters (hi : i.depth ≠ 0) {items items' : List Sexpr} {tail tail' : Option Sexpr}
    (h : List.Forall₂ R items items') (ht : Option.Rel R tail tail') :
    Alongside q.pairing i (Resolving.parameters expand items tail)
      (Resolving.parameters expand' items' tail')
      fun j p p' => p.Alike (q.renumbering j) j.depth p' := by
  refine (Alongside.foldlM (P := fun j (x x' : Section × Parameters Function) =>
    j.depth ≠ 0 ∧ x'.1 = x.1 ∧ x.2.Alike (q.renumbering j) j.depth x'.2) h ?_
    ⟨hi, rfl, Parameters.none_alike _ _⟩).bind ?_
  rotate_left
  · rintro j ⟨part, p⟩ ⟨_, p'⟩ hij ⟨hj, rfl, hp⟩
    dsimp only at hp ⊢
    rw [hp.rest]
    split
    · split <;> split <;> exact .throw _ _
    · cases ht with
      | none => exact .pure hp
      | some ht =>
        dsimp only
        split
        · exact .throw _ _
        · refine (restParameter hR hj ht).bind ?_
          rintro k r _ hjk rfl
          have hpk : p.Alike (q.renumbering k) k.depth p' := by
            rw [hjk.1]
            exact hp.mono (renumbering_mono hjk)
          exact .pure ⟨hpk.required, rfl, hpk.optional, hpk.keys⟩
  · rintro j ⟨part, p⟩ ⟨_, p'⟩ item item' hij ⟨hj, rfl, hp⟩ hitem
    refine (parameterItem he hR hj _ hp hitem).mono fun k x x' hjk hx => ?_
    exact ⟨hjk.1 ▸ hj, hx⟩

theorem lambda {items items' : List Sexpr} {tail tail' : Option Sexpr}
    (h : List.Forall₂ R items items') (ht : Option.Rel R tail tail')
    (hforms : List.Forall₂ R forms forms') (name : Option String) (place place' : Option Location) :
    Alongside q.pairing i (Resolving.lambda expand name items tail forms place)
      (Resolving.lambda expand' name items' tail' forms' place')
      fun j f f' => f.Alike (q.renumbering j) (j.depth + 1) f' :=
  procedure (parameters he hR i.inside_ne_zero h ht)
    (fun _ hij => body he hR (hij.1 ▸ i.inside_ne_zero) hforms place place') name place place'

end Parameters

/-! ### Local variables -/

theorem forall₂_zip {γ δ : Type} {P : α → γ → Prop} {Q : β → δ → Prop} {as : List α}
    {bs : List β} {cs : List γ} {ds : List δ} (h : List.Forall₂ P as cs)
    (h' : List.Forall₂ Q bs ds) :
    List.Forall₂ (fun x y => P x.1 y.1 ∧ Q x.2 y.2) (as.zip bs) (cs.zip ds) := by
  induction h generalizing bs ds with
  | nil => exact .nil
  | cons hp _ ih =>
    cases h' with
    | nil => exact .nil
    | cons hq h' => exact .cons ⟨hp, hq⟩ (ih h')

/-- The same name, with initial values that are related. -/
structure LocalAlike (R : Sexpr → Sexpr → Prop) (b b' : LocalBinding) : Prop where
  name : b'.name = b.name
  init : Option.Rel R b.init b'.init

theorem localBinding (hR : Sexpr.Likeness q.known R) (h : R s s') :
    Alongside q.pairing i (Resolving.localBinding s) (Resolving.localBinding s')
      fun _ => LocalAlike R := by
  cases hR _ _ h with
  | identifier => exact .pure ⟨rfl, .none⟩
  | literal | dotted | vector => exact .throw _ _
  | list hs =>
    cases hs with
    | nil => exact .throw _ _
    | cons hname hs =>
      cases hs with
      | nil =>
        refine (parameterName hR hname).bind ?_
        rintro j name _ _ rfl
        exact .pure ⟨rfl, .none⟩
      | cons hinit hs =>
        cases hs with
        | nil =>
          refine (parameterName hR hname).bind ?_
          rintro j name _ _ rfl
          exact .pure ⟨rfl, .some hinit⟩
        | cons => exact .throw _ _

theorem localBindings (hR : Sexpr.Likeness q.known R) (h : R s s') :
    Alongside q.pairing i (Resolving.localBindings s) (Resolving.localBindings s')
      fun _ => List.Forall₂ (LocalAlike R) := by
  cases hR _ _ h with
  | list hs =>
    exact .mapM (P := fun _ => LocalAlike R) (fun _ _ _ _ _ h => h) hs
      fun _ _ _ _ h => localBinding hR h
  | literal | identifier | dotted | vector => exact .throw _ _

theorem declareBindings (hi : i.depth ≠ 0) {bs bs' : List LocalBinding}
    (h : List.Forall₂ (LocalAlike R) bs bs') :
    Alongside q.pairing i (Resolving.declareBindings bs) (Resolving.declareBindings bs')
      fun j p p' => p.Alike (q.renumbering j) j.depth p' := by
  refine (Alongside.forIn h fun j b b' hij hb => ?_).bind fun j _ _ _ _ => ?_
  · rw [hb.name]
    exact (defineArgument (hij.1 ▸ hi) b.name .required _ _).bind fun _ _ _ _ _ => .pure ⟨rfl, rfl⟩
  · exact .pure ⟨h.length_eq.symm, rfl, .nil, .nil⟩

section Local

variable {expand expand' : Expand} (he : q.Inside R expand expand')

include he

theorem initialValues {bs bs' : List LocalBinding} (h : List.Forall₂ (LocalAlike R) bs bs') :
    Alongside q.pairing i (bs.mapM (initialValue expand)) (bs'.mapM (initialValue expand'))
      fun j es es' => Exprs.Alike (q.renumbering j) j.depth es es' := by
  refine (Alongside.mapM (P := fun j => Expr.Alike (q.renumbering j) j.depth)
    (fun _ _ _ _ hjk he => lasts hjk he) h fun j b b' _ hb => ?_).mono
    fun _ _ _ _ hes => .of_forall₂ hes
  obtain ⟨name, init, origin⟩ := b
  obtain ⟨name', init', origin'⟩ := b'
  obtain ⟨rfl, hinit⟩ := hb
  cases hinit with
  | none => exact literal .nil _ _
  | some hinit => exact he j _ _ hinit

theorem bindAndCall {bs bs' : List LocalBinding} (h : List.Forall₂ (LocalAlike R) bs bs')
    {build build' : Resolving Expr} (place place' : Option Location)
    (hbuild : ∀ j, i.depth < j.depth → q.Resolves j build build') :
    q.Resolves i (Resolving.bindAndCall expand bs place build)
      (Resolving.bindAndCall expand' bs' place' build') := by
  refine (initialValues he h).bind fun j es es' hij hes => ?_
  refine (procedure (declareBindings j.inside_ne_zero h) (fun k hjk => hbuild k ?_) none _ _).bind
    fun k f f' hjk hf => .pure (.call (.lambda hf) (all_last hjk hes))
  rw [hjk.1, ← hij.1]
  exact Nat.lt_succ_self _

variable (hR : Sexpr.Likeness q.known R)

include hR

theorem namedValue (name : String) (h : R s s') :
    q.Resolves i (Resolving.namedValue expand name s) (Resolving.namedValue expand' name s') := by
  cases hR _ _ h with
  | literal | identifier | dotted | vector => exact he i _ _ h
  | list hs =>
    rcases hs with _ | ⟨hhead, _ | ⟨hps, _ | ⟨hform, hforms⟩⟩⟩
    · exact he i _ _ h
    · cases hR _ _ hhead <;> exact he i _ _ h
    · cases hR _ _ hhead <;> exact he i _ _ h
    · cases hR _ _ hhead with
      | literal | list | dotted | vector => exact he i _ _ h
      | identifier hknown =>
        refine primitive?_bind hknown fun p => ?_
        split
        · refine (parameterItems hR hps).bind fun j p p' _ hp => ?_
          obtain ⟨hitems, htail⟩ := hp
          exact (lambda he hR hitems htail (.cons hform hforms) (some name) _ _).bind
            fun k f f' _ hf => .pure (.lambda hf)
        · exact he i _ _ h

theorem namedLet (name : String) (nameForm nameForm' : Sexpr) {bs bs' : List LocalBinding}
    (h : List.Forall₂ (LocalAlike R) bs bs') (hforms : List.Forall₂ R forms forms')
    (place place' : Option Location) :
    q.Resolves i (Resolving.namedLet expand name nameForm bs forms place)
      (Resolving.namedLet expand' name nameForm' bs' forms' place') := by
  refine (initialValues he h).bind fun j es es' hij hes => ?_
  refine (procedure (.pure (Parameters.none_alike _ _)) (fun k hjk => ?_) none _ _).bind
    fun k f f' hjk hf => .pure (.call (.call (.lambda hf) .nil) (all_last hjk hes))
  refine (definitionTarget name _ _).bind fun l v v' hkl hv => ?_
  refine (procedure (declareBindings l.inside_ne_zero h)
    (fun m hlm => body he hR (hlm.1 ▸ l.inside_ne_zero) hforms _ _) (some name) _ _).bind
    fun m f f' hlm hf => ?_
  have hv := target_lasts hlm hv
  exact .pure (.sequence (.cons (.assignment hv (.lambda hf)) (.cons (.reference hv) .nil)))

theorem letStar {bs bs' : List LocalBinding} (h : List.Forall₂ (LocalAlike R) bs bs')
    (hforms : List.Forall₂ R forms forms') (place place' : Option Location) :
    q.Resolves i (Resolving.letStar expand forms place bs)
      (Resolving.letStar expand' forms' place' bs') := by
  have hbody (j : Stage) (hij : i.depth < j.depth) : q.Resolves j
      (Resolving.body expand forms place) (Resolving.body expand' forms' place') :=
    body he hR (Nat.ne_of_gt (Nat.zero_lt_of_lt hij)) hforms place place'
  induction h generalizing i with
  | nil => exact bindAndCall he .nil place place' hbody
  | cons hb h ih =>
    cases h with
    | nil => exact bindAndCall he (.cons hb .nil) place place' hbody
    | cons hb' h =>
      refine bindAndCall he (.cons hb .nil) place place' fun j hij => ih fun k hjk => ?_
      exact hbody k (Nat.lt_trans hij hjk)

theorem letrec {bs bs' : List LocalBinding} (h : List.Forall₂ (LocalAlike R) bs bs')
    (hforms : List.Forall₂ R forms forms') (place place' : Option Location) :
    q.Resolves i (Resolving.letrec expand bs forms place)
      (Resolving.letrec expand' bs' forms' place') := by
  refine bindAndCall he .nil place place' fun j hij => ?_
  have hj : j.depth ≠ 0 := Nat.ne_of_gt (Nat.zero_lt_of_lt hij)
  refine (Alongside.mapM (P := fun j => VariableRef.Alike (q.renumbering j) j.depth)
    (fun _ _ _ _ hjk hv => target_lasts hjk hv) h fun k b b' _ hb => ?_).bind
    fun k vs vs' hjk hvs => ?_
  · rw [hb.name]
    exact definitionTarget b.name _ _
  · refine (Alongside.mapM (P := fun j => Expr.Alike (q.renumbering j) j.depth)
      (fun _ _ _ _ hjk he => lasts hjk he) (forall₂_zip h hvs) fun l x x' hkl hx => ?_).bind
      fun l es es' hkl hes => ?_
    · obtain ⟨⟨name, init, origin⟩, v⟩ := x
      obtain ⟨⟨name', init', origin'⟩, v'⟩ := x'
      obtain ⟨⟨hname, hinit⟩, hv⟩ := hx
      dsimp only at hname hinit hv
      subst hname
      cases hinit with
      | none =>
        refine (literal .nil _ _).bind fun m e e' hlm he => ?_
        exact .pure (.assignment (target_lasts (le_trans hkl hlm) hv) he)
      | some hinit =>
        refine (namedValue he hR _ hinit).bind fun m e e' hlm he => ?_
        exact .pure (.assignment (target_lasts (le_trans hkl hlm) hv) he)
    · refine (body he hR (hkl.1 ▸ hjk.1 ▸ hj) hforms place place').bind fun m e e' hlm he => ?_
      exact .pure (.sequence (Exprs.Alike.append (.cons he .nil) (all_last hlm (.of_forall₂ hes))))

end Local

/-! ### Clauses, definitions and assignments -/

theorem clauses_cons (expand : Expand) (head : Sexpr) (forms rest : List Sexpr)
    (place : Option Location) : Resolving.clauses expand (.list (head :: forms) place :: rest) =
      if head.identifier? = some "else" then
        if !rest.isEmpty then invalid .elseNotLast (.list (head :: forms) place)
        else if forms.isEmpty then invalid .elseWithoutBody (.list (head :: forms) place)
        else return ([], some (← Resolving.sequence expand forms place))
      else do
        let test ← expand head
        let body ← if forms.isEmpty then pure none
          else some <$> Resolving.sequence expand forms place
        let (more, otherwise) ← Resolving.clauses expand rest
        return (⟨test, body⟩ :: more, otherwise) := by
  by_cases hhead : head.identifier? = some "else"
  · rw [if_pos hhead]
    cases head with
    | identifier name l =>
      cases hhead
      rw [Resolving.clauses]
    | literal | list | dotted | vector => cases hhead
  · rw [if_neg hhead, Resolving.clauses]
    rintro l rfl
    exact hhead rfl

section Definitions

variable {expand expand' : Expand} (he : q.Inside R expand expand')
  (hR : Sexpr.Likeness q.known R)

include he hR

theorem clauses (h : List.Forall₂ R forms forms') :
    Alongside q.pairing i (Resolving.clauses expand forms) (Resolving.clauses expand' forms')
      fun j p p' => Clauses.Alike (q.renumbering j) j.depth p.1 p'.1 ∧
        OptionalExpr.Alike (q.renumbering j) j.depth p.2 p'.2 := by
  induction h generalizing i with
  | nil => exact .pure ⟨.nil, .none⟩
  | @cons clause clause' rest rest' hclause hrest ih =>
    have hempty : rest'.isEmpty = rest.isEmpty := by cases hrest <;> rfl
    cases hR _ _ hclause with
    | literal | identifier | dotted | vector => exact .throw _ _
    | list hs =>
      cases hs with
      | nil => exact .throw _ _
      | @cons head head' forms forms' hhead hforms =>
        have hnone : forms'.isEmpty = forms.isEmpty := by cases hforms <;> rfl
        rw [clauses_cons, clauses_cons, hR.identifier? hhead, hempty, hnone]
        split
        · split
          · exact .throw _ _
          · split
            · exact .throw _ _
            · exact (sequence he hforms _ _).bind fun _ _ _ _ he => .pure ⟨.nil, .some he⟩
        · refine (he i _ _ hhead).bind fun j test test' hij htest => ?_
          have hmore (k : Stage) (hjk : j ≤ k) {body body' : Option Expr}
              (hbody : OptionalExpr.Alike (q.renumbering k) k.depth body body') :
              Alongside q.pairing k
                (do
                  let (more, otherwise) ← Resolving.clauses expand rest
                  return ((⟨test, body⟩ : Clause Expr) :: more, otherwise))
                (do
                  let (more, otherwise) ← Resolving.clauses expand' rest'
                  return ((⟨test', body'⟩ : Clause Expr) :: more, otherwise))
                fun j p p' => Clauses.Alike (q.renumbering j) j.depth p.1 p'.1 ∧
                  OptionalExpr.Alike (q.renumbering j) j.depth p.2 p'.2 := by
            refine ih.bind fun l p p' hkl hp => ?_
            refine .pure ⟨.cons (lasts (le_trans hjk hkl) htest) ?_ hp.1, hp.2⟩
            rw [hkl.1]
            exact hbody.mono (renumbering_mono hkl)
          dsimp only
          split
          · exact (Alongside.pure .none).bind fun k _ _ hjk hbody => hmore k hjk hbody
          · exact ((sequence he hforms _ _).map fun _ _ _ _ he => .some he).bind
              fun k _ _ hjk hbody => hmore k hjk hbody

theorem namedLambda {ps ps' : Sexpr} (hps : R ps ps') (hforms : List.Forall₂ R forms forms')
    (place place' : Option Location) : q.Resolves i
      (Resolving.namedLambda expand ps forms place)
      (Resolving.namedLambda expand' ps' forms' place') := by
  refine (parameterItems hR hps).bind ?_
  rintro j ⟨items, tail⟩ ⟨items', tail'⟩ hij ⟨hitems, htail⟩
  cases hitems with
  | nil => exact .throw _ _
  | cons hhead hitems =>
    refine (parameterName hR hhead).bind ?_
    rintro k name _ _ rfl
    exact (lambda he hR hitems htail hforms (some name) _ _).bind fun _ _ _ _ hf =>
      .pure (.lambda hf)

theorem define (h : List.Forall₂ R forms forms') :
    q.Resolves i (Resolving.define expand forms s) (Resolving.define expand' forms' s') := by
  have hlength := h.length_eq
  have hheader {head head' : Sexpr} {items items' : List Sexpr} {tail tail' : Option Sexpr}
      {body body' : List Sexpr} (hhead : R head head') (hitems : List.Forall₂ R items items')
      (htail : Option.Rel R tail tail') (hbody : List.Forall₂ R body body') :
      q.Resolves i (define.header expand forms s SpecialForm.define.name head items tail body)
        (define.header expand' forms' s' SpecialForm.define.name head' items' tail' body') := by
    refine checkArity_bind hlength fun _ => (parameterName hR hhead).bind ?_
    rintro j name _ _ rfl
    refine (definitionTarget name _ _).bind fun k v v' _ hv => ?_
    refine (lambda he hR hitems htail hbody (some name) _ _).bind fun l f f' hkl hf => ?_
    exact .pure (.assignment (target_lasts hkl hv) (.lambda hf))
  unfold Resolving.define
  cases h with
  | nil => exact .throw _ _
  | cons htarget hforms =>
    cases hR _ _ htarget with
    | literal | vector => exact .throw _ _
    | list hs =>
      cases hs with
      | nil => exact .throw _ _
      | cons hhead hitems => exact hheader hhead hitems .none hforms
    | dotted hs ht =>
      cases hs with
      | nil => exact .throw _ _
      | cons hhead hitems => exact hheader hhead hitems (.some ht) hforms
    | @identifier name hknown l l' =>
      refine checkArity_bind hlength fun _ => ?_
      refine (definitionTarget name _ _).bind fun j v v' _ hv => ?_
      cases hforms with
      | nil =>
        refine (literal .nil _ _).bind fun k _ _ hjk he => ?_
        exact .pure (.assignment (target_lasts hjk hv) he)
      | cons hform _ =>
        refine (namedValue he hR name hform).bind fun k _ _ hjk he => ?_
        exact .pure (.assignment (target_lasts hjk hv) he)

theorem assign {target target' value value' : Sexpr} (ht : R target target')
    (hv : R value value') : q.Resolves i (Resolving.assign expand target value s)
      (Resolving.assign expand' target' value' s') := by
  cases hR _ _ ht with
  | literal | list | dotted | vector => exact .throw _ _
  | identifier hknown =>
    refine primitive?_bind hknown fun p => ?_
    split
    · exact .throw _ _
    · refine (variableRef hknown _ _).bind fun j v v' _ hv' => ?_
      exact (he j _ _ hv).bind fun k e e' hjk he =>
        .pure (.assignment (target_lasts hjk hv') he)

omit hR in
theorem conditional (negated : Bool) {test test' : Sexpr} (ht : R test test')
    (h : List.Forall₂ R forms forms') (place place' : Option Location) :
    q.Resolves i (Resolving.conditional expand negated test forms place)
      (Resolving.conditional expand' negated test' forms' place') := by
  refine (he i _ _ ht).bind fun j e e' _ htest => ?_
  refine (sequence he h _ _).bind fun k c c' hjk hc => .pure (.branch ?_ hc .none)
  have htest := lasts hjk htest
  cases negated with
  | false => exact htest
  | true => exact .operation (.cons htest .nil)

theorem letForm {first first' : Sexpr} {rest rest' : List Sexpr} (hfirst : R first first')
    (hrest : List.Forall₂ R rest rest') (h : List.Forall₂ R forms forms') :
    q.Resolves i (Resolving.letForm expand first rest forms s)
      (Resolving.letForm expand' first' rest' forms' s') := by
  have hbindings : q.Resolves i
      (do
        let bs ← Resolving.localBindings first
        Resolving.bindAndCall expand bs s.location (Resolving.body expand rest s.location))
      (do
        let bs ← Resolving.localBindings first'
        Resolving.bindAndCall expand' bs s'.location
          (Resolving.body expand' rest' s'.location)) := by
    refine (localBindings hR hfirst).bind fun j bs bs' _ hbs => ?_
    exact bindAndCall he hbs _ _ fun k hjk =>
      body he hR (Nat.ne_of_gt (Nat.zero_lt_of_lt hjk)) hrest _ _
  unfold Resolving.letForm
  rw [hR.identifier? hfirst]
  cases first.identifier? with
  | none => exact hbindings
  | some name =>
    refine checkArity_bind h.length_eq fun _ => ?_
    cases hrest with
    | nil => exact .throw _ _
    | cons hb hforms =>
      refine (localBindings hR hb).bind fun j bs bs' _ hbs => ?_
      exact namedLet he hR name _ _ hbs hforms _ _

end Definitions

end Surroundings

end RegisterScheme
