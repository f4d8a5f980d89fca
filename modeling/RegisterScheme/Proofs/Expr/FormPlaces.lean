import RegisterScheme.Proofs.Expr.Places

/-! Where the errors of special forms and templates lie, and so those of whole programs. -/

namespace RegisterScheme.Resolving

variable {P : Location → Prop} {place : Option Location} {s : Sexpr} {expand : Expand}
  {forms operands : List Sexpr}

theorem ends_callGlobal (name : String) (arguments : List Expr) (hs : s.Placed P) :
    Ends (Failure.Placed P) (callGlobal name arguments s) fun _ => True :=
  (ends_global name hs).bind fun _ _ => .pure trivial

/-- What is spliced in is a part of the item. -/
theorem placed_of_spliced? {c : ScopeChain} {level : Nat} {e : Sexpr} (hs : s.Placed P)
    (h : spliced? c level s = some e) : e.Placed P := by
  unfold spliced? at h
  split at h
  · cases hs with
    | list place parts =>
      split at h
      · cases h
        exact parts _ (List.mem_cons_of_mem _ List.mem_cons_self)
      · cases h
  · cases h

/-- Templates without anything to evaluate are quotations. -/
theorem ends_unlessConstant {template : Sexpr} {level : Nat} {build : Resolving Expr}
    (h : Ends (Failure.Placed P) build fun _ => True) : Ends (Failure.Placed P) (do
      if !hasUnquote (levelMark? (← get)) template level then
        literal template.toDatum template
      else build) fun _ => True := by
  refine ends_get.bind fun c _ => ?_
  split
  · exact ends_literal _ _
  · exact h

mutual

theorem ends_quasi (he : Locates P expand) : (template : Sexpr) → template.Placed P →
    (level : Nat) → Ends (Failure.Placed P) (quasi expand template level) fun _ => True
  | .literal _ _, _, level => by
    rw [quasi.eq_def]
    exact ends_unlessConstant (ends_literal _ _)
  | .identifier _ _, _, level => by
    rw [quasi.eq_def]
    exact ends_unlessConstant (ends_literal _ _)
  | .list [] _, _, level => by
    rw [quasi.eq_def]
    exact ends_unlessConstant (ends_literal .nil _)
  | .list [item] l, .list _ parts, level => by
    rw [quasi.eq_def]
    exact ends_unlessConstant (ends_quasiItems he true (ends_literal .nil _) [item] parts level)
  | .list [head, arg] l, .list place parts, level => by
    have harg : arg.Placed P := parts _ (List.mem_cons_of_mem _ List.mem_cons_self)
    rw [quasi.eq_def]
    refine ends_unlessConstant (ends_get.bind fun d _ => ?_)
    split
    · exact he arg harg
    · exact ends_invalid _ (.list place parts)
    · refine (ends_quasi he arg harg _).bind fun _ _ => ?_
      exact (ends_literal _ _).bind fun _ _ => (ends_literal _ _).bind fun _ _ => .pure trivial
    · exact ends_quasiItems he true (ends_literal .nil _) [head, arg] parts _
  | .list (item :: second :: third :: rest) l, .list _ parts, level => by
    rw [quasi.eq_def]
    exact ends_unlessConstant (ends_quasiItems he true (ends_literal .nil _)
      (item :: second :: third :: rest) parts level)
  | .dotted items tail l, .dotted _ parts last, level => by
    rw [quasi.eq_def]
    exact ends_unlessConstant
      (ends_quasiItems he false (ends_quasi he tail last level) items parts level)
  | .vector items l, .vector place parts, level => by
    rw [quasi.eq_def]
    refine ends_unlessConstant (Ends.bind
      (ends_quasiItems he true (ends_literal .nil _) items parts level) fun _ _ => ?_)
    exact ends_callGlobal _ _ (.vector place parts)

theorem ends_quasiItems (he : Locates P expand) (dotted : Bool) {last : Resolving Expr}
    (hlast : Ends (Failure.Placed P) last fun _ => True) : (items : List Sexpr) →
    (∀ s ∈ items, s.Placed P) → (level : Nat) →
      Ends (Failure.Placed P) (quasiItems expand dotted last items level) fun _ => True
  | [], _, level => by
    rw [quasiItems]
    exact hlast
  | item :: rest, h, level => by
    obtain ⟨hitem, hrest⟩ := List.forall_mem_cons.mp h
    rw [quasiItems.eq_def]
    refine ends_get.bind fun c _ => ?_
    dsimp only
    have hmore := ends_quasiItems he dotted hlast rest hrest level
    split
    · exact he _ (hrest _ List.mem_cons_self)
    · refine hmore.bind fun cdr _ => ?_
      refine ends_get.bind fun d _ => ?_
      split
      · rename_i e hsplice
        refine (he e (placed_of_spliced? hitem hsplice)).bind fun _ _ => ?_
        exact ends_callGlobal _ _ hitem
      · exact (ends_quasi he item hitem level).bind fun _ _ => .pure trivial

end

theorem ends_clauses (he : Locates P expand) (hforms : ∀ s ∈ forms, s.Placed P) :
    Ends (Failure.Placed P) (clauses expand forms) fun _ => True := by
  induction forms with
  | nil => exact .pure trivial
  | cons clause rest ih =>
    obtain ⟨hclause, hrest⟩ := List.forall_mem_cons.mp hforms
    unfold clauses
    split
    · cases hclause with
      | list place parts =>
        obtain ⟨-, hbody⟩ := List.forall_mem_cons.mp parts
        split
        · exact ends_invalid _ (.list place parts)
        · split
          · exact ends_invalid _ (.list place parts)
          · exact (ends_sequence he hbody).bind fun _ _ => .pure trivial
    · cases hclause with
      | list place parts =>
        obtain ⟨htest, hbody⟩ := List.forall_mem_cons.mp parts
        refine (he _ htest).bind fun test _ => ?_
        have hmore (body : Option Expr) (_ : True) : Ends (Failure.Placed P) (do
            let later ← clauses expand rest
            return ((⟨test, body⟩ : Clause Expr) :: later.1, later.2)) fun _ => True :=
          (ih hrest).bind fun _ _ => .pure trivial
        dsimp only
        split
        · exact Ends.bind (.pure trivial) hmore
        · exact Ends.bind ((ends_sequence he hbody).map fun _ _ => trivial) hmore
    · exact ends_invalid _ hclause

theorem ends_header (he : Locates P expand) (hs : s.Placed P) {head : Sexpr}
    (hhead : head.Placed P) {items : List Sexpr} (hitems : ∀ s ∈ items, s.Placed P)
    {tail : Option Sexpr} (htail : ∀ s ∈ tail, s.Placed P) (hforms : ∀ s ∈ forms, s.Placed P)
    (name : String) : Ends (Failure.Placed P)
      (define.header expand operands s name head items tail forms) fun _ => True := by
  refine (ends_checkArity name _ operands hs).bind fun _ _ => ?_
  refine (ends_parameterName hhead).bind fun procedureName _ => ?_
  refine (ends_definitionTarget procedureName hhead).bind fun _ _ => ?_
  exact (ends_lambda he hitems htail hforms _).bind fun _ _ => .pure trivial

theorem ends_define (he : Locates P expand) (hs : s.Placed P)
    (hoperands : ∀ s ∈ operands, s.Placed P) :
    Ends (Failure.Placed P) (define expand operands s) fun _ => True := by
  unfold define
  split
  · exact .throw hs.location
  · obtain ⟨htarget, hforms⟩ := List.forall_mem_cons.mp hoperands
    split
    · refine (ends_checkArity _ _ _ hs).bind fun _ _ => ?_
      refine (ends_definitionTarget _ htarget).bind fun _ _ => ?_
      split
      · exact (ends_namedValue he _ (hforms _ List.mem_cons_self)).bind fun _ _ => .pure trivial
      · exact (ends_literal _ _).bind fun _ _ => .pure trivial
    · cases htarget with
      | list _ parts =>
        obtain ⟨hhead, hitems⟩ := List.forall_mem_cons.mp parts
        exact ends_header he hs hhead hitems (by simp) hforms _
    · cases htarget with
      | dotted _ parts last =>
        obtain ⟨hhead, hitems⟩ := List.forall_mem_cons.mp parts
        exact ends_header he hs hhead hitems (by simpa using last) hforms _
    · exact ends_invalid _ htarget

theorem ends_assign (he : Locates P expand) (hs : s.Placed P) {target value : Sexpr}
    (htarget : target.Placed P) (hvalue : value.Placed P) :
    Ends (Failure.Placed P) (assign expand target value s) fun _ => True := by
  unfold assign
  split
  · refine (ends_primitive? _).bind fun p _ => ?_
    split
    · exact ends_invalid _ hs
    · refine (ends_variableRef _ htarget).bind fun _ _ => ?_
      exact (he value hvalue).bind fun _ _ => .pure trivial
  · exact ends_invalid _ htarget

theorem ends_namedLambda (he : Locates P expand) (hs : s.Placed P)
    (hforms : ∀ s ∈ forms, s.Placed P) :
    Ends (Failure.Placed P) (namedLambda expand s forms place) fun _ => True := by
  refine (ends_parameterItems hs).bind fun (items, tail) ⟨hitems, htail⟩ => ?_
  cases items with
  | nil => exact ends_invalid _ hs
  | cons head items =>
    obtain ⟨hhead, hitems⟩ := List.forall_mem_cons.mp hitems
    refine (ends_parameterName hhead).bind fun _ _ => ?_
    exact (ends_lambda he hitems htail hforms _).bind fun _ _ => .pure trivial

theorem ends_letForm (he : Locates P expand) (hs : s.Placed P) {first : Sexpr}
    (hfirst : first.Placed P) (hforms : ∀ s ∈ forms, s.Placed P) :
    Ends (Failure.Placed P) (letForm expand first forms operands s) fun _ => True := by
  unfold letForm
  split
  · exact (ends_localBindings hfirst).bind fun _ hbs =>
      ends_bindAndCall he hbs (ends_body he hforms)
  · refine (ends_checkArity _ _ _ hs).bind fun _ _ => ?_
    split
    · obtain ⟨hbindings, hforms⟩ := List.forall_mem_cons.mp hforms
      exact (ends_localBindings hbindings).bind fun _ hbs =>
        ends_namedLet he _ hfirst hbs hforms
    · exact .throw hs.location

theorem ends_conditional (he : Locates P expand) (negated : Bool) (hs : s.Placed P)
    (hforms : ∀ s ∈ forms, s.Placed P) :
    Ends (Failure.Placed P) (conditional expand negated s forms place) fun _ => True :=
  (he s hs).bind fun _ _ => (ends_sequence he hforms).bind fun _ _ => .pure trivial

theorem ends_specialForm (he : Locates P expand) (hs : s.Placed P)
    (hoperands : ∀ s ∈ operands, s.Placed P) (form : SpecialForm) (name : String) :
    Ends (Failure.Placed P) (specialForm expand form name operands s) fun _ => True := by
  refine (ends_checkArity name _ operands hs).bind fun _ _ => ?_
  split
  · exact ends_literal _ _
  · exact ends_quasi he _ (hoperands _ List.mem_cons_self) 1
  · exact ends_invalid _ hs
  · exact ends_invalid _ hs
  · rename_i alternative
    obtain ⟨htest, hrest⟩ := List.forall_mem_cons.mp hoperands
    obtain ⟨hconsequent, halternative⟩ := List.forall_mem_cons.mp hrest
    refine (he _ htest).bind fun _ _ => (he _ hconsequent).bind fun _ _ => ?_
    have hoptional : Ends (Failure.Placed P) (alternative.head?.mapM expand) fun _ => True := by
      cases alternative with
      | nil => exact .pure trivial
      | cons a _ => exact (he a (halternative a List.mem_cons_self)).map fun _ _ => trivial
    exact hoptional.bind fun _ _ => .pure trivial
  · exact (ends_clauses he hoperands).bind fun _ _ => .pure trivial
  · obtain ⟨hps, hforms⟩ := List.forall_mem_cons.mp hoperands
    refine (ends_parameterItems hps).bind fun (items, tail) ⟨hitems, htail⟩ => ?_
    exact (ends_lambda he hitems htail hforms _).bind fun _ _ => .pure trivial
  · obtain ⟨hps, hforms⟩ := List.forall_mem_cons.mp hoperands
    exact ends_namedLambda he hps hforms
  · exact ends_define he hs hoperands
  · obtain ⟨htarget, hvalue⟩ := List.forall_mem_cons.mp hoperands
    exact ends_assign he hs htarget (hvalue _ List.mem_cons_self)
  · exact (Ends.mapM fun s hs => he s (hoperands s hs)).bind fun _ _ => .pure trivial
  · obtain ⟨hfirst, hrest⟩ := List.forall_mem_cons.mp hoperands
    exact ends_letForm he hs hfirst hrest
  · obtain ⟨hbindings, hforms⟩ := List.forall_mem_cons.mp hoperands
    exact (ends_localBindings hbindings).bind fun _ hbs => ends_letStar he hbs hforms
  · obtain ⟨hbindings, hforms⟩ := List.forall_mem_cons.mp hoperands
    exact (ends_localBindings hbindings).bind fun _ hbs => ends_letrec he hbs hforms
  · obtain ⟨htest, hforms⟩ := List.forall_mem_cons.mp hoperands
    exact ends_conditional he false htest hforms
  · obtain ⟨htest, hforms⟩ := List.forall_mem_cons.mp hoperands
    exact ends_conditional he true htest hforms
  · exact .throw hs.location

theorem ends_compound (he : Locates P expand) (hs : s.Placed P) {head : Sexpr}
    (hhead : head.Placed P) (hoperands : ∀ s ∈ operands, s.Placed P) :
    Ends (Failure.Placed P) (compound expand head operands s) fun _ => True := by
  have hall : Ends (Failure.Placed P) (operands.mapM expand) fun es => ∀ e ∈ es, True :=
    .mapM fun s hs => he s (hoperands s hs)
  have hname (name : String) : Ends (Failure.Placed P)
      ((·.map fun p => (name, p)) <$> primitive? name) fun _ => True :=
    (ends_primitive? name).map fun _ _ => trivial
  have hnone : Ends (Failure.Placed P)
      (Pure.pure none : Resolving (Option (String × Primitive))) fun _ => True := .pure trivial
  unfold compound
  split
  on_goal 1 => refine (hname _).bind fun p _ => ?_
  on_goal 2 => refine hnone.bind fun p _ => ?_
  all_goals
    dsimp only
    split
    · exact ends_specialForm he hs hoperands _ _
    · exact (ends_checkArity _ _ _ hs).bind fun _ _ => hall.bind fun _ _ => .pure trivial
    · exact (he head hhead).bind fun _ _ => hall.bind fun _ _ => .pure trivial

theorem locates_expandWith (he : Locates P expand) : Locates P (expandWith expand) := by
  intro s hs
  unfold expandWith
  split
  · exact ends_literal _ _
  · exact ends_literal _ _
  · exact (ends_variableRef _ hs).bind fun _ _ => .pure trivial
  · exact ends_literal _ _
  · cases hs with
    | list place parts =>
      obtain ⟨hhead, hoperands⟩ := List.forall_mem_cons.mp parts
      exact ends_compound he (.list place parts) hhead hoperands
  · exact ends_invalid _ hs

theorem locates_expandWithin (P : Location → Prop) (height : Nat) :
    Locates P (expandWithin height) := by
  induction height with
  | zero => exact fun s _ => ends_fault _
  | succ height ih => exact locates_expandWith ih

theorem ends_program (hforms : ∀ s ∈ forms, s.Placed P) :
    Ends (Failure.Placed P) (program forms) fun _ => True :=
  Ends.bind (ends_inScope (ends_sequence (locates_expandWithin P _) hforms)) fun _ _ =>
    .pure trivial

end RegisterScheme.Resolving
