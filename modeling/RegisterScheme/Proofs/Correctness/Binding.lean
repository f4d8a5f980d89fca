import RegisterScheme.Proofs.Correctness.Execution
import RegisterScheme.Proofs.Generation.Parameters
import RegisterScheme.Proofs.Machine.Defaults

/-! What a call of a compiled procedure does before its body: arguments that do not fit are refused
at once; others become the values of their parameters, and the defaults that are due are evaluated
in the new activation. -/

namespace RegisterScheme

/-- Variables are as a call binds them: a parameter holds its argument, nil if it has neither an
argument nor a default, or else the value of its default, and the rest the list of what is left,
unless a default that is evaluated later changes the variable. -/
structure Store.Binds (s : Store) (a first : Nat) (F : Formals Function) (args : List Value)
    (es : List Evaluation) : Prop where
  given : ∀ q ∈ F.assign args, (q.2 = none → q.1.default = none) →
    (∀ e ∈ es, e.Keeps a q.1.register) → s.register? a q.1.register = some (q.2.getD .nil)
  rest : ∀ r ∈ F.rest, (∀ e ∈ es, e.Keeps a r) →
    s.register? a r = some (.listFrom first .nil (F.extra args))
  defaults : ∀ before e after, es = before ++ e :: after →
    (∀ e' ∈ after, e'.Keeps a e.register) → s.register? a e.register = some e.value

/-- Evaluating the defaults that are due binds the variables. -/
theorem Evaluations.binds {run : Closure → Running Value} (hrun : ∀ c, Retaining (run c))
    {F : Formals Function} (hd : F.Distinct) {args : List Value} {c : Closure} {s s₁ s₂ : Store}
    {es : List Evaluation} (hs : s.Begins c F args s₁)
    (h : Evaluations run s.frames.size (F.due args) s₁ es s₂) :
    s₂.Binds s.frames.size s.nextObject F args es where
  given q hq hnone hkeeps := by
    rw [h.register?_eq (fun p hp heq => ?_) hkeeps, hs.given q hq]
    obtain ⟨q', hq', hv, hdefault, hr⟩ := Formals.mem_due.mp hp
    obtain rfl := hd.assign_unique hq hq' ((Fin.ext heq).trans hr.symm)
    cases (hnone hv).symm.trans hdefault
  rest r hr hkeeps := by
    rw [h.register?_eq (fun p hp heq => ?_) hkeeps, hs.rest r hr]
    obtain ⟨q, hq, -, -, hp⟩ := Formals.mem_due.mp hp
    exact hd.rest_ne hq hr (hp.trans (Fin.ext heq).symm)
  defaults before e after hes hkeeps := by
    refine h.register?_value hrun (hd.due_pairwise args) (fun p hp => ?_) hes hkeeps
    obtain ⟨q, hq, -, -, hr⟩ := Formals.mem_due.mp hp
    rw [← hr, hs.given q hq]
    rfl

namespace Running

/-- Only the outcome of what is done in a procedure matters. -/
theorem inProcedure_congr {α : Type} {act act' : Running α} {s t : Store} (h : act s = act' t)
    (name : String) : inProcedure name act s = inProcedure name act' t := by
  simp only [inProcedure, MonadExcept.tryCatch, tryCatchThe, MonadExceptOf.tryCatch,
    EStateM.tryCatch, h]

variable {f : Function} {outer : List Scope} {c : Closure} {args : List Value}
  {run : Closure → Running Value}

/-- Arguments that do not fit are refused, and nothing is done. -/
theorem bindArguments_of_not_fits (hf : f.Scoped outer) (hc : f.template = .ok c.template)
    (h : ¬ f.formals.Fits args) (a : Nat) (s : Store) :
    ∃ misfit : Misfit, bindArguments run ⟨a, c⟩ args s =
      .error (.arity f.parameters.arity args.length (some (f.displayName ++ misfit.text)) none)
        s := by
  have hr := hf.renders hc
  obtain ⟨misfit, hmisfit, -⟩ | ⟨y, x, -, hx, -⟩ := Dealing.ofArguments_matches hr.formals args
  · refine ⟨misfit, ?_⟩
    rw [bindArguments_of_error (Template.unmarked?_eq_none hr.marks args) hmisfit, hr.arity, hr.displayName]
    rfl
  · exact absurd (Formals.fits_of_ofArguments hf.formals_distinct hx) h

/-- Arguments that fit are assigned in the new frame, and then the defaults that are due are
evaluated, unless one fails. -/
theorem bindArguments_of_fits (hf : f.Scoped outer) (hc : f.template = .ok c.template)
    (hrun : ∀ c, Retaining (run c)) (h : f.formals.Fits args) (s : Store) :
    ∃ s₁, s.Begins c f.formals args s₁ ∧
      ((∃ es s₂, Evaluations run s.frames.size (f.formals.due args) s₁ es s₂ ∧
        bindArguments run ⟨s.frames.size, c⟩ args (s.enter c) = .ok () s₂) ∨
      ∃ e s₂, EvaluationFails run s.frames.size (f.formals.due args) s₁ e s₂ ∧
        bindArguments run ⟨s.frames.size, c⟩ args (s.enter c) = .error e s₂) := by
  have hr := hf.renders hc
  have hd := hf.formals_distinct
  have hw : f.formals.Within c.template.frameSize :=
    hf.formals_within.mono (hr.tempBase ▸ hr.tempBase_le)
  obtain ⟨x, hx, hdeals⟩ := Formals.ofArguments_of_fits hd h
  obtain ⟨misfit, -, hmisfit⟩ | ⟨y, x', hy, hx', hyx⟩ := Dealing.ofArguments_matches hr.formals args
  · cases hx.symm.trans hmisfit
  obtain rfl : x = x' := Except.ok.inj (hx.symm.trans hx')
  have hbegins := s.begins hd hw hdeals
  obtain ⟨hfill, hrest⟩ := s.begin_eq hw hdeals
  have hdue : List.Forall₂ (fun a b => b.1 = a.1 ∧ f.DefaultAt outer c.template.literals b.2 a.2)
      (f.formals.due args) y.defaults := hdeals.defaults ▸ hyx.defaults.flip
  have hregisters : ∀ p ∈ f.formals.due args,
      ((s.begin c x).register? s.frames.size p.1).isSome := by
    intro p hp
    obtain ⟨q, hq, -, -, hp⟩ := Formals.mem_due.mp hp
    rw [← hp, hbegins.given q hq]
    rfl
  have hbind : bindArguments run ⟨s.frames.size, c⟩ args (s.enter c) =
      fillDefaults run ⟨s.frames.size, c⟩ y.defaults (s.begin c x) := by
    rw [bindArguments_of_ok (Template.unmarked?_eq_none hr.marks args) hy, hyx.values, hyx.rest, bind_of_ok hfill, bind_of_ok hrest]
  refine ⟨s.begin c x, hbegins, ?_⟩
  rw [hbind]
  exact fillDefaults_cases hrun ⟨s.frames.size, c⟩ hdue hregisters

end Running

namespace Machine

open Running

section

variable {m : Machine} {room : Nat} {c : Closure} {args : List Value} {s t : Store}

/-- The body comes after the arguments. -/
theorem callClosure_of_ok
    (h : bindArguments (m.callClosure room · []) ⟨s.frames.size, c⟩ args (s.enter c) = .ok () t) :
    m.callClosure (room + 1) c args s = inProcedure c.template.displayName
      (exec m.caching (m.applyWith (m.callClosure room)) ⟨s.frames.size, c⟩ c.template.code 0)
      t := by
  have henter : newFrame c s = .ok s.frames.size (s.enter c) := rfl
  refine inProcedure_congr ?_ c.template.displayName
  rw [bind_of_ok henter]
  exact bind_of_ok h

theorem callClosure_of_error {e : Failure}
    (h : bindArguments (m.callClosure room · []) ⟨s.frames.size, c⟩ args (s.enter c) =
      .error e t) :
    m.callClosure (room + 1) c args s = .error (e.inProcedure c.template.displayName) t := by
  have henter : newFrame c s = .ok s.frames.size (s.enter c) := rfl
  refine tryCatch_of_error (f := fun e => throw (Failure.inProcedure c.template.displayName e)) ?_
  rw [bind_of_ok henter]
  exact bind_of_error h

end

variable {primitives : Primitives} {first next : Nat} {forms : List Sexpr} {g f : Function}
  {outer : List Scope} {t : Template}

/-- A call of a compiled procedure that may be active refuses exactly the arguments that do not
fit, before anything else happens. With others it begins with a new frame that holds what they
assign, and evaluates the defaults that are due in order, in the new activation. If one fails, so
does the call; and if none does, the body runs with its variables bound. -/
theorem callClosure_binds (hg : Function.ofProgram primitives first forms = .ok (g, next))
    (hf : g.Contains [] f outer) (ht : f.template = .ok t) (m : Machine) (room : Nat) {c : Closure}
    (hc : c.template = t) (args : List Value) (s : Store) :
    (¬ f.formals.Fits args → ∃ misfit : Misfit, m.callClosure (room + 1) c args s =
      .error (.arity f.parameters.arity args.length (some (f.displayName ++ misfit.text)) none)
        (s.enter c)) ∧
    (f.formals.Fits args → ∃ s₁, s.Begins c f.formals args s₁ ∧
      ((∃ e s₂,
        EvaluationFails (m.callClosure room · []) s.frames.size (f.formals.due args) s₁ e s₂ ∧
        m.callClosure (room + 1) c args s = .error (e.inProcedure f.displayName) s₂) ∨
      ∃ es s₂, Evaluations (m.callClosure room · []) s.frames.size (f.formals.due args) s₁ es s₂ ∧
        s₂.Binds s.frames.size s.nextObject f.formals args es ∧
        m.callClosure (room + 1) c args s = inProcedure f.displayName
          (exec m.caching (m.applyWith (m.callClosure room)) ⟨s.frames.size, c⟩ t.code 0) s₂)) := by
  subst hc
  have hscoped := (Function.ofProgram_ok hg).contained hf
  have hrun (c : Closure) : Retaining (m.callClosure room c []) := m.retaining_callClosure room c []
  rw [← (hscoped.renders ht).displayName]
  constructor
  · intro h
    obtain ⟨misfit, hbind⟩ := bindArguments_of_not_fits hscoped ht h s.frames.size (s.enter c)
    rw [← (hscoped.renders ht).displayName] at hbind
    exact ⟨misfit, callClosure_of_error hbind⟩
  · intro h
    obtain ⟨s₁, hbegins, hcases⟩ := bindArguments_of_fits hscoped ht hrun h s
    refine ⟨s₁, hbegins, ?_⟩
    obtain ⟨es, s₂, hes, hbind⟩ | ⟨e, s₂, hfails, hbind⟩ := hcases
    · exact .inr ⟨es, s₂, hes, hes.binds hrun hscoped.formals_distinct hbegins,
        callClosure_of_ok hbind⟩
    · exact .inl ⟨e, s₂, hfails, callClosure_of_error hbind⟩

/-- `(lambda (a &optional (b (set! a 5))) a)` -/
def assigningForms : List Sexpr :=
  let name (text : String) : Sexpr := .identifier text none
  let list (items : List Sexpr) : Sexpr := .list items none
  [list [name "lambda", list [name "a", name "&optional",
    list [name "b", list [name "set!", name "a", .literal (.integer 5) none]]], name "a"]]

/-- The register of `b`. -/
def secondRegister : Register := ⟨1, by decide⟩

def assigningDefault : Function :=
  ⟨none, .none, ⟨[⟨"a", .variable (.captured 1 .zero)⟩], 0, []⟩,
    .assignment (.captured 0) (.literal ⟨0, .atom (.integer 5)⟩ none) none, none⟩

def assigning : Function :=
  ⟨none, { Parameters.none with
      required := 1, optional := [⟨"b", 1, secondRegister, some assigningDefault⟩] },
    ⟨[⟨"a", .variable (.argument .zero .required)⟩,
      ⟨"b", .variable (.argument secondRegister .optional)⟩], 2, []⟩,
    .reference (.localVariable .zero) none, none⟩

def assigningProgram : Function := ⟨none, .none, .empty, .lambda assigning none, none⟩

theorem assigning_contained :
    Function.ofProgram .standard 0 assigningForms = .ok (assigningProgram, 0) ∧
      assigningProgram.Contains [] assigning [.empty] ∧ ∃ t, assigning.template = .ok t :=
  ⟨rfl, .lambda .self (.refl _), _, by with_unfolding_all rfl⟩

theorem assigning_fits : assigning.formals.Fits [.integer 1] :=
  ⟨by decide, fun h => absurd rfl h, fun h => absurd rfl h, fun _ _ => rfl⟩

/-- The default of `b` is due where only `a` is given, and the body comes after it. -/
theorem callClosure_binds_assigning : ∃ t, assigning.template = .ok t ∧
    let m := collecting none
    let c : Closure := ⟨0, t, none⟩
    let s := Store.ofGlobals tupleGlobals
    (∃ misfit : Misfit, m.callClosure 2 c [] s =
      .error (.arity (.between 1 2) 0 (some ("<anonymous>" ++ misfit.text)) none) (s.enter c)) ∧
    ∃ s₁, s.Begins c assigning.formals [.integer 1] s₁ ∧
      ((∃ e s₂,
        EvaluationFails (m.callClosure 1 · []) 0 [(secondRegister, assigningDefault)] s₁ e s₂ ∧
        m.callClosure 2 c [.integer 1] s = .error (e.inProcedure "<anonymous>") s₂) ∨
      ∃ es s₂, Evaluations (m.callClosure 1 · []) 0 [(secondRegister, assigningDefault)] s₁ es s₂ ∧
        s₂.Binds 0 0 assigning.formals [.integer 1] es ∧
        m.callClosure 2 c [.integer 1] s = inProcedure "<anonymous>"
          (exec m.caching (m.applyWith (m.callClosure 1)) ⟨0, c⟩ t.code 0) s₂) := by
  obtain ⟨hprogram, hcontained, t, ht⟩ := assigning_contained
  have hbinds (args : List Value) := callClosure_binds hprogram hcontained ht (collecting none) 1
    (c := ⟨0, t, none⟩) rfl args (.ofGlobals tupleGlobals)
  exact ⟨t, ht, (hbinds []).1 fun h => absurd h.enough (by decide),
    (hbinds [.integer 1]).2 assigning_fits⟩

/-- A parameter that is given an argument need not hold it in the body: the default of another may
assign it. And arguments that do not fit are not looked at if no more call may be active. -/
theorem callClosure_assigning : ∃ t, assigning.template = .ok t ∧
    let m := collecting (some 1)
    let c : Closure := ⟨0, t, none⟩
    let s := Store.ofGlobals tupleGlobals
    (assigning.formals.Fits [.integer 1] ∧
      (⟨"a", .zero, none⟩, some (.integer 1)) ∈ assigning.formals.assign [.integer 1] ∧
      ∃ s₂, bindArguments (m.callClosure 1 · []) ⟨0, c⟩ [.integer 1] (s.enter c) = .ok () s₂ ∧
        s₂.register? 0 0 = some (.integer 5)) ∧
    ¬ assigning.formals.Fits [] ∧ m.callClosure 0 c [] s = .error (.runtime (.callDepth 1)) s := by
  refine ⟨_, by with_unfolding_all rfl, ⟨assigning_fits, .head _, _, by with_unfolding_all rfl, ?_⟩,
    fun h => absurd h.enough (by decide), rfl⟩
  with_unfolding_all rfl

end Machine

end RegisterScheme
