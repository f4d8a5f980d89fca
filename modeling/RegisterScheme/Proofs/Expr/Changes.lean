import RegisterScheme.Expr.Resolve
import RegisterScheme.Proofs.Expr.Variables

/-! What resolution does to a chain of scopes, whatever the chain and also when it fails: it adds to
the innermost scope, captures variables, numbers objects, and opens and finishes scopes. A relation
that these keep is kept by the resolution of every expression. -/

namespace RegisterScheme

open ScopeChain

/-- A relation between a chain and what it becomes that no step of a resolution leaves. -/
class ScopeChain.Closed (R : ScopeChain → ScopeChain → Prop) : Prop extends Std.Refl R where
  trans {b c d : ScopeChain} : R b c → R c d → R b d
  head {c : ScopeChain} {s t : Scope} {outer : List Scope} : c.scopes = s :: outer → s.Grows t →
    R c { c with scopes := t :: outer }
  capture {c : ScopeChain} (name : String) (r : Register) {distance : Nat} (owner : Nat) :
    distance < c.depth → R c { c with scopes := (capture name r distance owner c.scopes).2 }
  objects (c : ScopeChain) (n : Nat) : R c { c with nextObject := n }
  scope {c d : ScopeChain} : R { c with scopes := .empty :: c.scopes } d →
    R c { d with scopes := d.scopes.tail }

variable {α : Type} {R : ScopeChain → ScopeChain → Prop}

instance [h : Closed R] : Trans R R R := ⟨h.trans⟩

namespace Scope

variable {s t : Scope}

theorem grows_of_define {name : String} {kind : BindingKind} {location : Option Location}
    {slot : Nat} (h : s.define name kind location = .ok (slot, t)) : s.Grows t := by
  obtain ⟨-, -, rfl⟩ := define_eq_ok h
  exact grows_add s _

theorem grows_of_defineRegister {name : String} {kind : Register → VariableKind}
    {location : Option Location} {place : Nat × Register}
    (h : s.defineRegister name kind location = .ok (place, t)) : s.Grows t := by
  obtain ⟨-, -, -, -, rfl⟩ := defineRegister_eq_ok h
  exact grows_addRegister s _

end Scope

theorem ScopeChain.grows_capture (name : String) (r : Register) (n owner : Nat) (scopes : List Scope) :
    ScopesGrow scopes (capture name r n owner scopes).2 :=
  forall₂_capture Scope.Grows.refl (fun _ _ _ _ => Scope.grows_of_define) n owner scopes

namespace Resolving

theorem pop_of_nil {d : ScopeChain} (hs : d.scopes = []) :
    pop d = .error (.fault .chainUnderflow) { d with scopes := d.scopes.tail } := by
  obtain ⟨primitives, scopes, nextObject⟩ := d
  obtain rfl : scopes = [] := hs
  rfl

/-- What happens in a new scope changes the chain with that scope, and leaves the one without it. -/
theorem keeps_inScope {S : ScopeChain → ScopeChain → Prop} {c : ScopeChain} {act : Resolving α}
    (h : Keeps R (fun _ => True) { c with scopes := .empty :: c.scopes } act fun _ _ => True)
    (hS : ∀ d, R { c with scopes := .empty :: c.scopes } d →
      S c { d with scopes := d.scopes.tail }) :
    Keeps S (fun _ => True) c (inScope act) fun _ _ => True := by
  have hpush : push c = .ok ⟨⟩ { c with scopes := .empty :: c.scopes } := rfl
  cases hact : act { c with scopes := .empty :: c.scopes } with
  | ok a d =>
    have hr := hS d (h.of_ok hact).1
    cases hs : d.scopes with
    | nil =>
      have hrun : inScope act c =
          .error (.fault .chainUnderflow) { d with scopes := d.scopes.tail } := by
        rw [inScope, bind_of_ok hpush, bind_of_ok (tryCatch_of_ok hact),
          bind_of_error (pop_of_nil hs)]
      exact .fails hrun hr trivial
    | cons s outer =>
      rw [hs, List.tail_cons] at hr
      exact .answers (inScope_of_ok hact hs) hr trivial
  | error e d =>
    have hr := hS d (h.of_error hact).1
    cases hs : d.scopes with
    | nil =>
      have hcaught := tryCatch_of_error (f := fun f => do let _ ← pop; throw f) hact
      have hrun : inScope act c =
          .error (.fault .chainUnderflow) { d with scopes := d.scopes.tail } := by
        rw [inScope, bind_of_ok hpush,
          bind_of_error (hcaught.trans (bind_of_error (pop_of_nil hs)))]
      exact .fails hrun hr trivial
    | cons s outer =>
      rw [hs, List.tail_cons] at hr
      exact .fails (inScope_of_error hact hs) hr trivial

variable [Closed R]

theorem along_fault (f : Fault) : Along R (fault f : Resolving α) := .throw _

theorem along_invalid (cause : Malformed.Cause) (s : Sexpr) :
    Along R (invalid cause s : Resolving α) := .throw _

theorem along_checkArity (name : String) (arity : Arity) (operands : List Sexpr) (s : Sexpr) :
    Along R (checkArity name arity operands s) := by
  unfold checkArity
  split
  · exact .pure ()
  · exact .throw _

theorem along_primitive? (name : String) : Along R (primitive? name) :=
  .bind .get fun _ => .pure _

theorem along_current : Along R current := by
  refine .bind .get fun c => ?_
  split
  · exact .pure _
  · exact along_fault _

theorem along_located {act : Resolving α} (h : Along R act) (place : Option Location) :
    Along R (located place act) :=
  .tryCatch h fun _ => .throw _

theorem along_update {f : Scope → Except Error (α × Scope)}
    (hf : ∀ s a t, f s = .ok (a, t) → s.Grows t) : Along R (update f) := by
  refine ⟨fun c => ?_⟩
  cases hs : c.scopes with
  | nil =>
    have hrun : update f c = .error (.fault .emptyChain) c := by
      rw [update, bind_of_ok (x := get) (s := c) rfl, hs]
      rfl
    exact .fails hrun (Std.Refl.refl c) trivial
  | cons s outer =>
    cases hfs : f s with
    | ok p => exact .answers (by rw [update_eq hs, hfs]) (Closed.head hs (hf s p.1 p.2 hfs)) trivial
    | error e => exact .fails (by rw [update_eq hs, hfs]) (Std.Refl.refl c) trivial

theorem along_defineArgument (name : String) (kind : ParameterKind) (place : Option Location) :
    Along R (defineArgument name kind place) :=
  along_update fun _ _ _ => Scope.grows_of_defineRegister

theorem along_defineLocal (name : String) (place : Option Location) :
    Along R (defineLocal name place) :=
  along_update fun _ _ _ => Scope.grows_of_defineRegister

theorem along_shadowPrimitive (name : String) : Along R (shadowPrimitive name) := by
  refine along_update fun s _ t h => ?_
  cases h
  exact Scope.grows_shadow s name

theorem along_bindGlobal (name : String) : Along R (bindGlobal name) := by
  refine .bind along_current fun s => ?_
  split
  · exact .pure _
  · exact .throw _
  · exact along_update fun _ _ _ => Scope.grows_of_define

theorem keeps_captureFrom {c : ScopeChain} (name : String) {distance : Nat} (owner : Nat)
    (r : Register) (h : distance < c.depth) :
    Keeps R (fun _ => True) c (captureFrom name distance owner r) fun _ _ => True := by
  have hr : R c { c with scopes := (capture name r distance owner c.scopes).2 } :=
    Closed.capture name r owner h
  cases hslot : (capture name r distance owner c.scopes).1 with
  | ok slot => exact .answers (captureFrom_of_ok hslot) hr trivial
  | error e => exact .fails (captureFrom_of_error hslot) hr trivial

/-- Captures come from a scope of the chain. -/
theorem along_resolve (name : String) : Along R (resolve name) := by
  refine ⟨fun c => .get_bind ?_⟩
  have hglobal : Along R (do return .global (← bindGlobal name) : Resolving Resolution) :=
    .bind (along_bindGlobal name) fun _ => .pure _
  cases hfound : findIn name c.scopes with
  | none =>
    dsimp only
    split
    · exact (along_fault _).keeps c
    · split
      · exact (Along.pure _).keeps c
      · exact hglobal.keeps c
  | some found =>
    obtain ⟨distance, slot, b⟩ := found
    obtain ⟨-, ⟨s, hs, -⟩, -⟩ := findIn_eq_some hfound
    have hlt : distance < c.depth := (List.getElem?_eq_some_iff.mp hs).1
    dsimp only
    split
    case h_3 => exact hglobal.keeps c
    case h_7 => exact keeps_captureFrom name _ _ hlt
    case h_8 => exact keeps_captureFrom name _ _ hlt
    case h_9 =>
      split
      · exact (along_fault _).keeps c
      · exact keeps_captureFrom name _ _ hlt
    all_goals exact (Along.pure _).keeps c

theorem along_inScope {act : Resolving α} (h : Along R act) : Along R (inScope act) :=
  ⟨fun _ => keeps_inScope (h.keeps _) fun _ => Closed.scope⟩

theorem along_literal (d : Datum) (s : Sexpr) : Along R (literal d s) :=
  ⟨fun c => ⟨Closed.objects c _, trivial⟩⟩

theorem along_global (name : String) (s : Sexpr) : Along R (global name s) :=
  .bind (along_located (along_bindGlobal name) _) fun _ => .pure _

theorem along_variableRef (name : String) (s : Sexpr) : Along R (variableRef name s) := by
  refine .bind (along_located (along_resolve name) _) fun res => ?_
  split
  case h_4 =>
    split
    · exact along_global name s
    · exact along_invalid _ s
  case h_5 => exact along_invalid _ s
  all_goals exact .pure _

theorem along_definitionTarget (name : String) (s : Sexpr) :
    Along R (definitionTarget name s) := by
  refine .bind .get fun c => ?_
  split
  · refine .bind (along_global name s) fun target => ?_
    split
    · exact .bind (along_shadowPrimitive name) fun _ => .pure _
    · exact .pure _
  · refine .bind along_current fun scope => ?_
    split
    · exact .pure _
    · exact along_invalid _ s
    · exact along_invalid _ s
    · exact .bind (along_defineLocal name _) fun _ => .pure _

mutual

theorem along_declareDefinitions : (forms : List Sexpr) → Along R (declareDefinitions forms)
  | [] => by
    rw [declareDefinitions]
    exact .pure ()
  | form :: forms => by
    rw [declareDefinitions]
    exact .bind (along_declareDefinition form) fun _ => along_declareDefinitions forms

theorem along_declareDefinition : (form : Sexpr) → Along R (declareDefinition form)
  | .list (.identifier head l :: operands) location => by
    rw [declareDefinition]
    refine .bind (along_primitive? head) fun p => ?_
    split
    · split
      · exact .bind (along_defineLocal _ location) fun _ => .pure ()
      · exact .pure ()
    · exact along_declareDefinitions operands
    · exact .pure ()
  | .list [] _ | .list (.literal _ _ :: _) _ | .list (.list _ _ :: _) _
  | .list (.dotted _ _ _ :: _) _ | .list (.vector _ _ :: _) _ | .literal _ _ | .identifier _ _
  | .dotted _ _ _ | .vector _ _ => by
    unfold declareDefinition
    exact .pure ()

end

theorem along_parameterName (s : Sexpr) : Along R (parameterName s) := by
  unfold parameterName
  split
  · exact .pure _
  · exact along_invalid _ _

theorem along_parameterItems (s : Sexpr) : Along R (parameterItems s) := by
  unfold parameterItems
  split
  · exact .pure _
  · exact .pure _
  · exact .pure _
  · exact along_invalid _ _

theorem along_procedure {declare : Resolving (Parameters Function)} {build : Resolving Expr}
    (hd : Along R declare) (hb : Along R build) (name : Option String) (place : Option Location) :
    Along R (procedure name place declare build) :=
  .bind (along_inScope (.bind hd fun _ => .bind hb fun _ => .pure _)) fun _ =>
    .pure _

theorem along_restParameter (item : Sexpr) : Along R (restParameter item) :=
  .bind (along_parameterName item) fun name =>
    .bind (along_defineArgument name .rest _) fun _ => .pure _

theorem along_localBindings (s : Sexpr) : Along R (localBindings s) := by
  unfold localBindings
  split
  · refine .mapM (fun item => ?_) _
    unfold localBinding
    split
    · exact .pure _
    · exact .bind (along_parameterName _) fun _ => .pure _
    · exact .bind (along_parameterName _) fun _ => .pure _
    · exact along_invalid _ _
  · exact along_invalid _ _

theorem along_declareBindings (bs : List LocalBinding) : Along R (declareBindings bs) := by
  unfold declareBindings
  refine Along.bind ?_ fun _ => .pure _
  apply Along.forIn
  intro b _
  exact .bind (along_defineArgument b.name .required _) fun _ => .pure _

theorem along_callGlobal (name : String) (arguments : List Expr) (s : Sexpr) :
    Along R (callGlobal name arguments s) :=
  .bind (along_global name s) fun _ => .pure _

/-- A template without anything to evaluate is a quotation. -/
theorem along_unlessConstant {template : Sexpr} {level : Nat} {build : Resolving Expr}
    (h : Along R build) : Along R (do
      if !hasUnquote (levelMark? (← get)) template level then literal template.toDatum template
      else build) := by
  refine .bind .get fun c => ?_
  split
  · exact along_literal _ _
  · exact h

section

variable {expand : Expand} (he : ∀ s, Along R (expand s))

include he

theorem along_sequence (forms : List Sexpr) (place : Option Location) :
    Along R (sequence expand forms place) := by
  unfold sequence
  split
  · exact he _
  · exact .bind (.mapM he _) fun _ => .pure _

theorem along_body (forms : List Sexpr) (place : Option Location) :
    Along R (body expand forms place) :=
  .bind (along_declareDefinitions forms) fun _ => along_sequence he forms place

theorem along_defaultValue (form item : Sexpr) : Along R (defaultValue expand form item) :=
  along_procedure (.pure _) (along_body he _ _) none _

theorem along_optionalParameter (kind : ParameterKind) (item : Sexpr) :
    Along R (optionalParameter expand kind item) := by
  have hdefine (p : String × Option Function) : Along R (do
      let place ← defineArgument p.1 kind item.location
      return (⟨p.1, place.1, place.2, p.2⟩ : OptionalParameter Function)) :=
    .bind (along_defineArgument p.1 kind _) fun _ => .pure _
  unfold optionalParameter
  split
  · exact .bind (.pure _) hdefine
  · exact .bind (along_parameterName _) fun _ =>
      .bind (along_defaultValue he _ _) fun _ => .bind (.pure _) hdefine
  · exact .bind (.throw _) hdefine
  · exact .bind (along_invalid _ _) hdefine

theorem along_parameter (sec : Section) (p : Parameters Function) (item : Sexpr) :
    Along R (parameter expand sec p item) := by
  unfold parameter
  cases sec with
  | required =>
    exact .bind (along_parameterName item) fun name =>
      .bind (along_defineArgument name .required _) fun _ => .pure _
  | optional => exact .bind (along_optionalParameter he .optional item) fun _ => .pure _
  | rest =>
    dsimp only
    split
    · exact along_invalid _ _
    · exact .bind (along_restParameter item) fun _ => .pure _
  | keys => exact .bind (along_optionalParameter he .key item) fun _ => .pure _

theorem along_parameterItem (sec : Section) (p : Parameters Function) (item : Sexpr) :
    Along R (parameterItem expand sec p item) := by
  unfold parameterItem
  split
  · split
    · exact along_invalid _ _
    · split
      · exact along_invalid _ _
      · exact .pure _
  · exact .bind (along_parameter he sec p item) fun _ => .pure _

theorem along_parameters (items : List Sexpr) (tail : Option Sexpr) :
    Along R (parameters expand items tail) := by
  refine .bind (.foldlM (fun q item => along_parameterItem he q.1 q.2 item) items _)
    fun (sec, p) => ?_
  dsimp only
  split
  · split
    · exact along_invalid _ _
    · exact .throw _
  · split
    · exact .pure _
    · split
      · exact along_invalid _ _
      · exact .bind (along_restParameter _) fun _ => .pure _

theorem along_lambda (name : Option String) (items : List Sexpr) (tail : Option Sexpr)
    (forms : List Sexpr) (place : Option Location) :
    Along R (lambda expand name items tail forms place) :=
  along_procedure (along_parameters he items tail) (along_body he forms place) name place

theorem along_initialValue (b : LocalBinding) : Along R (initialValue expand b) := by
  unfold initialValue
  split
  · exact he _
  · exact along_literal _ _

theorem along_bindAndCall (bs : List LocalBinding) (place : Option Location)
    {build : Resolving Expr} (hb : Along R build) : Along R (bindAndCall expand bs place build) :=
  .bind (.mapM (along_initialValue he) bs) fun _ =>
    .bind (along_procedure (along_declareBindings bs) hb none place) fun _ => .pure _

theorem along_namedValue (name : String) (s : Sexpr) : Along R (namedValue expand name s) := by
  unfold namedValue
  split
  · refine .bind (along_primitive? _) fun p => ?_
    split
    · exact .bind (along_parameterItems _) fun (items, tail) =>
        .bind (along_lambda he _ items tail _ _) fun _ => .pure _
    · exact he _
  · exact he _

/-- The procedure of a named `let`, in the scope of its name. -/
theorem along_loop (name : String) (nameForm : Sexpr) (bs : List LocalBinding)
    (forms : List Sexpr) (place : Option Location) : Along R (do
      let target ← definitionTarget name nameForm
      let loop ← procedure (some name) place (declareBindings bs) (body expand forms place)
      return Expr.sequence [.assignment target (.lambda loop place) place,
        .reference target nameForm.location] place) := by
  have hloop : Along R (procedure (some name) place (declareBindings bs)
      (body expand forms place)) :=
    along_procedure (along_declareBindings bs) (along_body he forms place) _ place
  exact .bind (along_definitionTarget name nameForm) fun _ => .bind hloop fun _ => .pure _

theorem along_namedLet (name : String) (nameForm : Sexpr) (bs : List LocalBinding)
    (forms : List Sexpr) (place : Option Location) :
    Along R (namedLet expand name nameForm bs forms place) := by
  have hwrapper := along_loop (R := R) he name nameForm bs forms place
  exact .bind (.mapM (along_initialValue he) bs) fun _ =>
    .bind (along_procedure (.pure _) hwrapper none place) fun _ => .pure _

theorem along_letStar (forms : List Sexpr) (place : Option Location) (bs : List LocalBinding) :
    Along R (letStar expand forms place bs) := by
  induction bs with
  | nil => exact along_bindAndCall he [] place (along_body he forms place)
  | cons b bs ih =>
    cases bs with
    | nil => exact along_bindAndCall he [b] place (along_body he forms place)
    | cons b' bs => exact along_bindAndCall he [b] place ih

/-- The bindings of a `letrec` and its body, in their scope. -/
theorem along_recursive (bs : List LocalBinding) (forms : List Sexpr) (place : Option Location) :
    Along R (do
      let targets ← bs.mapM fun b => definitionTarget b.name b.origin
      let assignments ← (bs.zip targets).mapM fun (b, target) => do
        let value ← match b.init with
          | some init => namedValue expand b.name init
          | none => literal .nil b.origin
        return Expr.assignment target value b.origin.location
      return Expr.sequence (assignments ++ [← body expand forms place]) place) := by
  have htarget (b : LocalBinding) : Along R (definitionTarget b.name b.origin) :=
    along_definitionTarget b.name b.origin
  refine .bind (.mapM htarget bs) fun targets => ?_
  refine .bind (.mapM (fun p => ?_) (bs.zip targets)) fun _ => ?_
  · obtain ⟨b, target⟩ := p
    dsimp only
    split
    · exact .bind (along_namedValue he _ _) fun _ => .pure _
    · exact .bind (along_literal _ _) fun _ => .pure _
  · exact .bind (along_body he forms place) fun _ => .pure _

theorem along_letrec (bs : List LocalBinding) (forms : List Sexpr) (place : Option Location) :
    Along R (letrec expand bs forms place) :=
  along_bindAndCall he [] place (along_recursive he bs forms place)

mutual

theorem along_quasi : (template : Sexpr) → (level : Nat) →
    Along R (quasi expand template level)
  | .literal _ _, level | .identifier _ _, level | .list [] _, level => by
    rw [quasi.eq_def]
    exact along_unlessConstant (along_literal _ _)
  | .list [item] _, level => by
    rw [quasi.eq_def]
    exact along_unlessConstant (along_quasiItems true (along_literal _ _) [item] level)
  | .list [head, arg] _, level => by
    rw [quasi.eq_def]
    refine along_unlessConstant (.bind .get fun d => ?_)
    split
    · exact he arg
    · exact along_invalid _ _
    · exact .bind (along_quasi arg _) fun _ => .bind (along_literal _ _) fun _ =>
        .bind (along_literal _ _) fun _ => .pure _
    · exact along_quasiItems true (along_literal _ _) [head, arg] _
  | .list (item :: second :: third :: rest) _, level => by
    rw [quasi.eq_def]
    exact along_unlessConstant (along_quasiItems true (along_literal _ _)
      (item :: second :: third :: rest) level)
  | .dotted items tail _, level => by
    rw [quasi.eq_def]
    exact along_unlessConstant (along_quasiItems false (along_quasi tail level) items level)
  | .vector items _, level => by
    rw [quasi.eq_def]
    exact along_unlessConstant (.bind
      (along_quasiItems true (along_literal _ _) items level) fun _ =>
        along_callGlobal _ _ _)

theorem along_quasiItems (dotted : Bool) {last : Resolving Expr} (hlast : Along R last) :
    (items : List Sexpr) → (level : Nat) → Along R (quasiItems expand dotted last items level)
  | [], level => by
    rw [quasiItems]
    exact hlast
  | item :: rest, level => by
    rw [quasiItems.eq_def]
    refine .bind .get fun c => ?_
    dsimp only
    have hmore := along_quasiItems dotted hlast rest level
    split
    · exact he _
    · refine .bind hmore fun cdr => ?_
      refine .bind .get fun d => ?_
      split
      · exact .bind (he _) fun _ => along_callGlobal _ _ _
      · exact .bind (along_quasi item level) fun _ => .pure _

end

theorem along_clauses (forms : List Sexpr) : Along R (clauses expand forms) := by
  induction forms with
  | nil => exact .pure _
  | cons clause rest ih =>
    unfold clauses
    split
    · split
      · exact along_invalid _ _
      · split
        · exact along_invalid _ _
        · exact .bind (along_sequence he _ _) fun _ => .pure _
    · have hmore (test : Expr) (body : Option Expr) : Along R (do
          let later ← clauses expand rest
          return ((⟨test, body⟩ : Clause Expr) :: later.1, later.2)) :=
        .bind ih fun _ => .pure _
      refine .bind (he _) fun test => ?_
      dsimp only
      split
      · exact .bind (.pure _) (hmore test)
      · exact .bind (.map some (along_sequence he _ _)) (hmore test)
    · exact along_invalid _ _

theorem along_define (operands : List Sexpr) (s : Sexpr) : Along R (define expand operands s) := by
  have hheader (name : String) (head : Sexpr) (items : List Sexpr) (tail : Option Sexpr)
      (forms : List Sexpr) :
      Along R (define.header expand operands s name head items tail forms) :=
    .bind (along_checkArity _ _ _ _) fun _ => .bind (along_parameterName head)
      fun procedureName => .bind (along_definitionTarget procedureName head) fun _ =>
        .bind (along_lambda he _ items tail forms _) fun _ => .pure _
  unfold define
  split
  · exact .throw _
  · split
    · refine .bind (along_checkArity _ _ _ _) fun _ => ?_
      refine .bind (along_definitionTarget _ _) fun _ => ?_
      split
      · exact .bind (along_namedValue he _ _) fun _ => .pure _
      · exact .bind (along_literal _ _) fun _ => .pure _
    · exact hheader _ _ _ _ _
    · exact hheader _ _ _ _ _
    · exact along_invalid _ _

theorem along_assign (target value s : Sexpr) : Along R (assign expand target value s) := by
  unfold assign
  split
  · refine .bind (along_primitive? _) fun p => ?_
    split
    · exact along_invalid _ _
    · exact .bind (along_variableRef _ _) fun _ => .bind (he value) fun _ => .pure _
  · exact along_invalid _ _

theorem along_namedLambda (ps : Sexpr) (forms : List Sexpr) (place : Option Location) :
    Along R (namedLambda expand ps forms place) := by
  refine .bind (along_parameterItems ps) fun (items, tail) => ?_
  cases items with
  | nil => exact along_invalid _ _
  | cons head items =>
    exact .bind (along_parameterName head) fun _ =>
      .bind (along_lambda he _ items tail forms _) fun _ => .pure _

theorem along_letForm (first : Sexpr) (rest operands : List Sexpr) (s : Sexpr) :
    Along R (letForm expand first rest operands s) := by
  unfold letForm
  split
  · exact .bind (along_localBindings first) fun bs =>
      along_bindAndCall he bs _ (along_body he rest _)
  · refine .bind (along_checkArity _ _ _ _) fun _ => ?_
    split
    · exact .bind (along_localBindings _) fun bs => along_namedLet he _ first bs _ _
    · exact .throw _

theorem along_specialForm (form : SpecialForm) (name : String) (operands : List Sexpr)
    (s : Sexpr) : Along R (specialForm expand form name operands s) := by
  have hconditional (negated : Bool) (test : Sexpr) (forms : List Sexpr)
      (place : Option Location) : Along R (conditional expand negated test forms place) :=
    .bind (he test) fun _ => .bind (along_sequence he forms place) fun _ => .pure _
  refine .bind (along_checkArity name _ operands s) fun _ => ?_
  split
  · exact along_literal _ _
  · exact along_quasi he _ 1
  · exact along_invalid _ _
  · exact along_invalid _ _
  · rename_i alternative
    have halternative : Along R (alternative.head?.mapM expand) := by
      cases alternative with
      | nil => exact .pure _
      | cons a _ => exact .map some (he a)
    exact .bind (he _) fun _ => .bind (he _) fun _ => .bind halternative fun _ =>
      .pure _
  · exact .bind (along_clauses he _) fun _ => .pure _
  · exact .bind (along_parameterItems _) fun (items, tail) =>
      .bind (along_lambda he none items tail _ _) fun _ => .pure _
  · exact along_namedLambda he _ _ _
  · exact along_define he _ s
  · exact along_assign he _ _ s
  · exact .bind (.mapM he _) fun _ => .pure _
  · exact along_letForm he _ _ _ s
  · exact .bind (along_localBindings _) fun bs => along_letStar he _ _ bs
  · exact .bind (along_localBindings _) fun bs => along_letrec he bs _ _
  · exact hconditional false _ _ _
  · exact hconditional true _ _ _
  · exact .throw _

theorem along_compound (head : Sexpr) (operands : List Sexpr) (s : Sexpr) :
    Along R (compound expand head operands s) := by
  unfold compound
  split
  on_goal 1 => refine .bind (.map _ (along_primitive? _)) fun p => ?_
  on_goal 2 => refine .bind (.pure none) fun p => ?_
  all_goals
    dsimp only
    split
    · exact along_specialForm he _ _ operands s
    · exact .bind (along_checkArity _ _ _ _) fun _ => .bind (.mapM he operands)
        fun _ => .pure _
    · exact .bind (he head) fun _ => .bind (.mapM he operands) fun _ => .pure _

theorem along_expandWith (s : Sexpr) : Along R (expandWith expand s) := by
  unfold expandWith
  split
  · exact along_literal _ _
  · exact along_literal _ _
  · exact .bind (along_variableRef _ _) fun _ => .pure _
  · exact along_literal _ _
  · exact along_compound he _ _ _
  · exact along_invalid _ _

end

theorem along_expandWithin (height : Nat) (s : Sexpr) : Along R (expandWithin height s) := by
  induction height generalizing s with
  | zero => exact along_fault .nesting
  | succ height ih => exact along_expandWith ih s

end Resolving

end RegisterScheme
