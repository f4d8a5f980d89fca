import RegisterScheme.Expr.Resolve
import RegisterScheme.Proofs.Sexpr.Places

/-! Where the errors of resolution lie. If all parts of a program have places with a property, then
a form that is not as it should be, or has a wrong number of operands, is reported at such a
place. -/

namespace RegisterScheme

/-- The place of an error in the source has a property. -/
def Failure.PlacedBy (Q : Option Location → Prop) : Failure → Prop
  | .error (.malformed e) => Q e.location
  | .error (.arity e) => Q e.location
  | _ => True

/-- An error in the source lies at a place with a property. -/
abbrev Failure.Placed (P : Location → Prop) : Failure → Prop :=
  Failure.PlacedBy (Somewhere P)

/-- A place is right or still missing. -/
def OpenPlace (P : Location → Prop) (place : Option Location) : Prop :=
  place = none ∨ Somewhere P place

theorem Failure.PlacedBy.located {P : Location → Prop} {f : Failure}
    (h : f.PlacedBy (OpenPlace P)) {place : Option Location} (hp : Somewhere P place) :
    (f.located place).Placed P := by
  have hplace {own : Option Location} (hown : OpenPlace P own) : Somewhere P (own <|> place) := by
    rcases hown with rfl | ⟨l, rfl, hl⟩
    · exact hp
    · exact ⟨l, rfl, hl⟩
  cases f with
  | error e =>
    cases e with
    | malformed e => exact hplace h
    | arity e => exact hplace h
    | runtime | overrun => trivial
  | fault | unfinished => trivial

namespace Scope

variable {Q : Option Location → Prop} {s : Scope} {e : Error} {location : Option Location}

theorem define_error {name : String} {kind : BindingKind}
    (h : s.define name kind location = .error e) (hq : Q location) :
    (Failure.error e).PlacedBy Q := by
  unfold define at h
  split at h
  · cases h
    exact hq
  · cases h

theorem defineRegister_error {name : String} {kind : Register → VariableKind}
    (h : s.defineRegister name kind location = .error e) (hq : Q location) :
    (Failure.error e).PlacedBy Q := by
  unfold defineRegister at h
  split at h
  · cases h
    exact hq
  · rcases error_of_bind h with hallocate | ⟨_, -, h⟩
    · unfold allocate at hallocate
      split at hallocate
      · cases hallocate
      · cases hallocate
        trivial
    · rcases error_of_bind h with hdefine | ⟨_, -, h⟩
      · exact define_error hdefine hq
      · cases h

end Scope

theorem ScopeChain.capture_error {Q : Option Location → Prop} (hq : Q none) {name : String}
    {r : Register} {n owner : Nat} {scopes scopes' : List Scope} {e : Error}
    (h : capture name r n owner scopes = (.error e, scopes')) : (Failure.error e).PlacedBy Q := by
  induction n generalizing owner scopes scopes' with
  | zero => cases scopes <;> cases h
  | succ n ih =>
    cases scopes with
    | nil => cases h
    | cons s outer =>
      unfold capture at h
      split at h
      · rename_i hinner
        cases h
        exact ih hinner
      · split at h
        · cases h
          trivial
        · split at h
          · rename_i hdefine
            cases h
            exact Scope.define_error hdefine hq
          · cases h

namespace Resolving

variable {α : Type} {P : Location → Prop} {Q : Option Location → Prop} {place : Option Location}
  {s : Sexpr}

theorem ends_fault {A : α → Prop} (f : Fault) : Ends (Failure.PlacedBy Q) (fault f) A :=
  .throw trivial

theorem ends_get : Ends (Failure.PlacedBy Q) (get : Resolving ScopeChain) fun _ => True :=
  .answers fun c => ⟨c, c, rfl⟩

theorem ends_set (c : ScopeChain) :
    Ends (Failure.PlacedBy Q) (set c : Resolving PUnit) fun _ => True :=
  .answers fun _ => ⟨⟨⟩, c, rfl⟩

theorem ends_current : Ends (Failure.PlacedBy Q) current fun _ => True := by
  refine ends_get.bind fun c _ => ?_
  split
  · exact .pure trivial
  · exact ends_fault _

theorem ends_primitive? (name : String) :
    Ends (Failure.PlacedBy Q) (primitive? name) fun _ => True :=
  ends_get.bind fun _ _ => .pure trivial

theorem ends_update {f : Scope → Except Error (α × Scope)}
    (h : ∀ s e, f s = .error e → (Failure.error e).PlacedBy Q) :
    Ends (Failure.PlacedBy Q) (update f) fun _ => True := by
  refine ends_get.bind fun c _ => ?_
  split
  · exact ends_fault _
  · split
    · exact (ends_set _).bind fun _ _ => .pure trivial
    · rename_i hf
      exact .throw (h _ _ hf)

theorem ends_defineArgument (name : String) (kind : ParameterKind) (hq : Q place) :
    Ends (Failure.PlacedBy Q) (defineArgument name kind place) fun _ => True :=
  ends_update fun _ _ h => Scope.defineRegister_error h hq

theorem ends_defineLocal (name : String) (hq : Q place) :
    Ends (Failure.PlacedBy Q) (defineLocal name place) fun _ => True :=
  ends_update fun _ _ h => Scope.defineRegister_error h hq

theorem ends_bindGlobal (hq : Q none) (name : String) :
    Ends (Failure.PlacedBy Q) (bindGlobal name) fun _ => True := by
  refine ends_current.bind fun s _ => ?_
  split
  · exact .pure trivial
  · exact .throw hq
  · exact ends_update fun _ _ h => Scope.define_error h hq

theorem ends_captureFrom (hq : Q none) (name : String) (distance owner : Nat) (r : Register) :
    Ends (Failure.PlacedBy Q) (captureFrom name distance owner r) fun _ => True := by
  refine ends_get.bind fun c _ => ?_
  split
  rename_i slot scopes hcapture
  refine (ends_set _).bind fun _ _ => ?_
  split
  · exact .pure trivial
  · exact .throw (ScopeChain.capture_error hq hcapture)

/-- What a name means is found out without a place. -/
theorem ends_resolve (hq : Q none) (name : String) :
    Ends (Failure.PlacedBy Q) (resolve name) fun _ => True := by
  refine ends_get.bind fun c _ => ?_
  split
  · split
    · exact ends_fault _
    · split
      · exact .pure trivial
      · exact (ends_bindGlobal hq name).bind fun _ _ => .pure trivial
  · split
    case h_3 => exact (ends_bindGlobal hq name).bind fun _ _ => .pure trivial
    case h_7 => exact ends_captureFrom hq _ _ _ _
    case h_8 => exact ends_captureFrom hq _ _ _ _
    case h_9 =>
      split
      · exact ends_fault _
      · exact ends_captureFrom hq _ _ _ _
    all_goals exact .pure trivial

/-- A missing place is filled in. -/
theorem ends_located {act : Resolving α} (hp : Somewhere P place)
    (h : Ends (Failure.PlacedBy (OpenPlace P)) act fun _ => True) :
    Ends (Failure.Placed P) (located place act) fun _ => True :=
  h.tryCatch fun _ he => .throw (he.located hp)

theorem ends_invalid {A : α → Prop} (cause : Malformed.Cause) (hs : s.Placed P) :
    Ends (Failure.Placed P) (invalid cause s) A := .throw hs.location

theorem ends_checkArity (name : String) (arity : Arity) (operands : List Sexpr)
    (hs : s.Placed P) :
    Ends (Failure.Placed P) (checkArity name arity operands s) fun _ => True := by
  unfold checkArity
  split
  · exact .pure trivial
  · exact .throw hs.location

theorem ends_pop : Ends (Failure.PlacedBy Q) pop fun _ => True := by
  refine ends_get.bind fun c _ => ?_
  split
  · exact (ends_set _).bind fun _ _ => .pure trivial
  · exact ends_fault _

theorem ends_inScope {act : Resolving α} (h : Ends (Failure.PlacedBy Q) act fun _ => True) :
    Ends (Failure.PlacedBy Q) (inScope act) fun _ => True := by
  have hpush : Ends (Failure.PlacedBy Q) push fun _ => True := .answers fun _ => ⟨_, _, rfl⟩
  refine hpush.bind fun _ _ => ?_
  refine Ends.bind (h.tryCatch fun e he => ends_pop.bind fun _ _ => .throw he) fun _ _ => ?_
  exact ends_pop.bind fun _ _ => .pure trivial

theorem ends_quote (d : Datum) : Ends (Failure.PlacedBy Q) (quote d) fun _ => True :=
  ends_get.bind fun _ _ => (ends_set _).bind fun _ _ => .pure trivial

theorem ends_literal (d : Datum) (s : Sexpr) :
    Ends (Failure.PlacedBy Q) (literal d s) fun _ => True :=
  (ends_quote d).bind fun _ _ => .pure trivial

theorem ends_global (name : String) (hs : s.Placed P) :
    Ends (Failure.Placed P) (global name s) fun _ => True :=
  (ends_located hs.location (ends_bindGlobal (.inl rfl) name)).bind fun _ _ => .pure trivial

theorem ends_variableRef (name : String) (hs : s.Placed P) :
    Ends (Failure.Placed P) (variableRef name s) fun _ => True := by
  refine (ends_located hs.location (ends_resolve (.inl rfl) name)).bind fun r _ => ?_
  split
  case h_4 =>
    split
    · exact ends_global name hs
    · exact ends_invalid _ hs
  case h_5 => exact ends_invalid _ hs
  all_goals exact .pure trivial

theorem ends_definitionTarget (name : String) (hs : s.Placed P) :
    Ends (Failure.Placed P) (definitionTarget name s) fun _ => True := by
  refine ends_get.bind fun c _ => ?_
  split
  · refine (ends_global name hs).bind fun target _ => ?_
    have hshadow : Ends (Failure.Placed P) (shadowPrimitive name) fun _ => True :=
      ends_update fun _ _ h => nomatch h
    split
    · exact hshadow.bind fun _ _ => .pure trivial
    · exact .pure trivial
  · refine ends_current.bind fun scope _ => ?_
    split
    · exact .pure trivial
    · exact ends_invalid _ hs
    · exact ends_invalid _ hs
    · exact (ends_defineLocal name hs.location).bind fun _ _ => .pure trivial

/-- The resolution of parts that lie where they should. -/
def Locates (P : Location → Prop) (expand : Expand) : Prop :=
  ∀ s : Sexpr, s.Placed P → Ends (Failure.Placed P) (expand s) fun _ => True

variable {expand : Expand} {forms items : List Sexpr} {tail : Option Sexpr}

theorem ends_sequence (he : Locates P expand) (hforms : ∀ s ∈ forms, s.Placed P) :
    Ends (Failure.Placed P) (sequence expand forms place) fun _ => True := by
  unfold sequence
  split
  · exact he _ (hforms _ List.mem_cons_self)
  · exact (Ends.mapM fun s hs => he s (hforms s hs)).bind fun _ _ => .pure trivial

mutual

theorem ends_declareDefinitions : (forms : List Sexpr) → (∀ s ∈ forms, s.Placed P) →
    Ends (Failure.Placed P) (declareDefinitions forms) fun _ => True
  | [], _ => .pure trivial
  | form :: forms, h => by
    obtain ⟨hform, hforms⟩ := List.forall_mem_cons.mp h
    rw [declareDefinitions]
    exact (ends_declareDefinition form hform).bind fun _ _ => ends_declareDefinitions forms hforms

theorem ends_declareDefinition : (form : Sexpr) → form.Placed P →
    Ends (Failure.Placed P) (declareDefinition form) fun _ => True
  | .list (.identifier head l :: operands) location, h => by
    rw [declareDefinition]
    cases h with
    | list place parts =>
      obtain ⟨-, hoperands⟩ := List.forall_mem_cons.mp parts
      refine (ends_primitive? head).bind fun p _ => ?_
      split
      · split
        · exact (ends_defineLocal _ place).bind fun _ _ => .pure trivial
        · exact .pure trivial
      · exact ends_declareDefinitions operands hoperands
      · exact .pure trivial
  | .literal _ _, _ | .identifier _ _, _ | .dotted _ _ _, _ | .vector _ _, _ | .list [] _, _
  | .list (.literal _ _ :: _) _, _ | .list (.list _ _ :: _) _, _
  | .list (.dotted _ _ _ :: _) _, _ | .list (.vector _ _ :: _) _, _ => by
    rw [declareDefinition]
    · exact .pure trivial
    · simp

end

theorem ends_body (he : Locates P expand) (hforms : ∀ s ∈ forms, s.Placed P) :
    Ends (Failure.Placed P) (body expand forms place) fun _ => True :=
  (ends_declareDefinitions forms hforms).bind fun _ _ => ends_sequence he hforms

theorem ends_parameterName (hs : s.Placed P) :
    Ends (Failure.Placed P) (parameterName s) fun _ => True := by
  unfold parameterName
  split
  · exact .pure trivial
  · exact ends_invalid _ hs

/-- The parts of a parameter list have places, as the list has. -/
theorem ends_parameterItems (hs : s.Placed P) : Ends (Failure.Placed P) (parameterItems s)
    fun (items, tail) => (∀ s ∈ items, s.Placed P) ∧ ∀ s ∈ tail, s.Placed P := by
  cases hs with
  | identifier place =>
    refine .pure ⟨by simp, fun s hs => ?_⟩
    obtain rfl := Option.some.inj hs
    exact .identifier place
  | list place parts => exact .pure ⟨parts, by simp⟩
  | dotted place parts last =>
    refine .pure ⟨parts, fun s hs => ?_⟩
    obtain rfl := Option.some.inj hs
    exact last
  | literal place => exact .throw place
  | vector place => exact .throw place

theorem ends_procedure {declare : Resolving (Parameters Function)} {build : Resolving Expr}
    (hdeclare : Ends (Failure.PlacedBy Q) declare fun _ => True)
    (hbuild : Ends (Failure.PlacedBy Q) build fun _ => True) (name : Option String) :
    Ends (Failure.PlacedBy Q) (procedure name place declare build) fun _ => True := by
  refine Ends.bind (ends_inScope ?_) fun _ _ => .pure trivial
  exact hdeclare.bind fun _ _ => hbuild.bind fun _ _ => .pure trivial

theorem ends_optionalParameter (he : Locates P expand) (kind : ParameterKind) (hs : s.Placed P) :
    Ends (Failure.Placed P) (optionalParameter expand kind s) fun _ => True := by
  have hdefine (p : String × Option Function) (_ : True) : Ends (Failure.Placed P) (do
      let place ← defineArgument p.1 kind s.location
      return (⟨p.1, place.1, place.2, p.2⟩ : OptionalParameter Function)) fun _ => True :=
    (ends_defineArgument p.1 kind hs.location).bind fun _ _ => .pure trivial
  unfold optionalParameter
  split
  · exact Ends.bind (.pure trivial) hdefine
  · cases hs with
    | list place parts =>
      rename_i name form l
      have hname := parts name (by simp)
      have hform : ∀ s ∈ [form], s.Placed P := by simpa using parts form (by simp)
      have hdefault : Ends (Failure.Placed P) (defaultValue expand form (.list [name, form] l))
          fun _ => True := ends_procedure (.pure trivial) (ends_body he hform) none
      exact (ends_parameterName hname).bind fun _ _ => hdefault.bind fun _ _ =>
        Ends.bind (.pure trivial) hdefine
  · exact Ends.bind (.throw hs.location) hdefine
  · exact Ends.bind (ends_invalid _ hs) hdefine

theorem ends_restParameter (hs : s.Placed P) :
    Ends (Failure.Placed P) (restParameter s) fun _ => True :=
  (ends_parameterName hs).bind fun name _ =>
    (ends_defineArgument name .rest hs.location).bind fun _ _ => .pure trivial

theorem ends_parameter (he : Locates P expand) (sec : Section) (p : Parameters Function)
    (hs : s.Placed P) : Ends (Failure.Placed P) (parameter expand sec p s) fun _ => True := by
  unfold parameter
  cases sec with
  | required =>
    refine (ends_parameterName hs).bind fun name _ => ?_
    exact (ends_defineArgument name .required hs.location).bind fun _ _ => .pure trivial
  | optional => exact (ends_optionalParameter he .optional hs).bind fun _ _ => .pure trivial
  | rest =>
    dsimp only
    split
    · exact ends_invalid _ hs
    · exact (ends_restParameter hs).bind fun _ _ => .pure trivial
  | keys => exact (ends_optionalParameter he .key hs).bind fun _ _ => .pure trivial

theorem ends_parameterItem (he : Locates P expand) (sec : Section) (p : Parameters Function)
    (hs : s.Placed P) : Ends (Failure.Placed P) (parameterItem expand sec p s) fun _ => True := by
  unfold parameterItem
  split
  · split
    · exact ends_invalid _ hs
    · split
      · exact ends_invalid _ hs
      · exact .pure trivial
  · exact (ends_parameter he sec p hs).bind fun _ _ => .pure trivial

/-- If `&rest` lacks its name, there is an item to report, since the marker is one. -/
theorem ends_parameters (he : Locates P expand) (hitems : ∀ s ∈ items, s.Placed P)
    (htail : ∀ s ∈ tail, s.Placed P) :
    Ends (Failure.Placed P) (parameters expand items tail) fun _ => True := by
  have hfold : Ends (Failure.Placed P) (items.foldlM
      (fun (q : Section × Parameters Function) item => parameterItem expand q.1 q.2 item)
      (Section.required, Parameters.none)) fun q => items = [] → q.1 = .required := by
    cases items with
    | nil => exact .pure fun _ => rfl
    | cons item items =>
      refine (Ends.foldlM (I := fun _ => True) trivial fun s hs q _ => ?_).mono
        fun _ _ h => nomatch h
      exact ends_parameterItem he q.1 q.2 (hitems s hs)
  refine hfold.bind fun (sec, p) hsec => ?_
  dsimp only at hsec ⊢
  split
  · rename_i hrest
    split
    · rename_i last hlast
      exact ends_invalid _ (hitems _ (List.mem_of_mem_getLast? hlast))
    · rename_i hlast
      rw [hsec (List.getLast?_eq_none_iff.mp hlast)] at hrest
      simp at hrest
  · split
    · exact .pure trivial
    · rename_i tail
      have htail := htail tail rfl
      split
      · exact ends_invalid _ htail
      · exact (ends_restParameter htail).bind fun _ _ => .pure trivial

theorem ends_lambda (he : Locates P expand) (hitems : ∀ s ∈ items, s.Placed P)
    (htail : ∀ s ∈ tail, s.Placed P) (hforms : ∀ s ∈ forms, s.Placed P) (name : Option String) :
    Ends (Failure.Placed P) (lambda expand name items tail forms place) fun _ => True :=
  ends_procedure (ends_parameters he hitems htail) (ends_body he hforms) name

/-- The parts of a binding have places. -/
structure LocalBinding.Placed (P : Location → Prop) (b : LocalBinding) : Prop where
  init : ∀ s ∈ b.init, s.Placed P
  origin : b.origin.Placed P

theorem ends_localBinding (hs : s.Placed P) :
    Ends (Failure.Placed P) (localBinding s) (LocalBinding.Placed P) := by
  unfold localBinding
  split
  · exact .pure ⟨by simp, hs⟩
  · cases hs with
    | list place parts =>
      refine (ends_parameterName (parts _ List.mem_cons_self)).bind fun _ _ => ?_
      exact .pure ⟨by simp, .list place parts⟩
  · cases hs with
    | list place parts =>
      refine (ends_parameterName (parts _ List.mem_cons_self)).bind fun _ _ => ?_
      exact .pure ⟨by simpa using parts _ (List.mem_cons_of_mem _ List.mem_cons_self),
        .list place parts⟩
  · exact ends_invalid _ hs

theorem ends_localBindings (hs : s.Placed P) :
    Ends (Failure.Placed P) (localBindings s) fun bs => ∀ b ∈ bs, b.Placed P := by
  unfold localBindings
  split
  · cases hs with
    | list place parts => exact .mapM fun s hs => ends_localBinding (parts s hs)
  · exact ends_invalid _ hs

variable {b : LocalBinding} {bs : List LocalBinding}

theorem ends_initialValue (he : Locates P expand) (hb : b.Placed P) :
    Ends (Failure.Placed P) (initialValue expand b) fun _ => True := by
  unfold initialValue
  split
  · rename_i init hinit
    exact he _ (hb.init _ hinit)
  · exact ends_literal _ _

theorem ends_declareBindings (hbs : ∀ b ∈ bs, b.Placed P) :
    Ends (Failure.Placed P) (declareBindings bs) fun _ => True := by
  refine Ends.bind (.forIn _ fun b hb _ => ?_) fun _ _ => .pure trivial
  exact (ends_defineArgument b.name .required (hbs b hb).origin.location).bind fun _ _ =>
    .pure trivial

theorem ends_bindAndCall (he : Locates P expand) (hbs : ∀ b ∈ bs, b.Placed P)
    {build : Resolving Expr} (hbuild : Ends (Failure.Placed P) build fun _ => True) :
    Ends (Failure.Placed P) (bindAndCall expand bs place build) fun _ => True := by
  refine (Ends.mapM fun b hb => ends_initialValue he (hbs b hb)).bind fun _ _ => ?_
  exact (ends_procedure (ends_declareBindings hbs) hbuild none).bind fun _ _ => .pure trivial

theorem ends_namedValue (he : Locates P expand) (name : String) (hs : s.Placed P) :
    Ends (Failure.Placed P) (namedValue expand name s) fun _ => True := by
  unfold namedValue
  split
  · cases hs with
    | list place parts =>
      obtain ⟨-, hrest⟩ := List.forall_mem_cons.mp parts
      obtain ⟨hps, hforms⟩ := List.forall_mem_cons.mp hrest
      refine (ends_primitive? _).bind fun p _ => ?_
      split
      · refine (ends_parameterItems hps).bind fun (items, tail) ⟨hitems, htail⟩ => ?_
        exact (ends_lambda he hitems htail hforms _).bind fun _ _ => .pure trivial
      · exact he _ (.list place parts)
  · exact he _ hs

theorem ends_namedLet (he : Locates P expand) (name : String) (hs : s.Placed P)
    (hbs : ∀ b ∈ bs, b.Placed P) (hforms : ∀ s ∈ forms, s.Placed P) :
    Ends (Failure.Placed P) (namedLet expand name s bs forms place) fun _ => True := by
  refine (Ends.mapM fun b hb => ends_initialValue he (hbs b hb)).bind fun _ _ => ?_
  refine Ends.bind (ends_procedure (.pure trivial) ?_ none) fun _ _ => .pure trivial
  refine (ends_definitionTarget name hs).bind fun _ _ => ?_
  exact (ends_procedure (ends_declareBindings hbs) (ends_body he hforms) _).bind fun _ _ =>
    .pure trivial

theorem ends_letStar (he : Locates P expand) (hbs : ∀ b ∈ bs, b.Placed P)
    (hforms : ∀ s ∈ forms, s.Placed P) :
    Ends (Failure.Placed P) (letStar expand forms place bs) fun _ => True := by
  induction bs with
  | nil => exact ends_bindAndCall he hbs (ends_body he hforms)
  | cons b bs ih =>
    obtain ⟨hb, hrest⟩ := List.forall_mem_cons.mp hbs
    cases bs with
    | nil => exact ends_bindAndCall he hbs (ends_body he hforms)
    | cons b' bs => exact ends_bindAndCall he (List.forall_mem_singleton.mpr hb) (ih hrest)

theorem ends_letrec (he : Locates P expand) (hbs : ∀ b ∈ bs, b.Placed P)
    (hforms : ∀ s ∈ forms, s.Placed P) :
    Ends (Failure.Placed P) (letrec expand bs forms place) fun _ => True := by
  refine ends_bindAndCall he (by simp) ?_
  refine (Ends.mapM fun b hb => ends_definitionTarget b.name (hbs b hb).origin).bind
    fun targets _ => ?_
  refine Ends.bind (.mapM (P := fun _ => True) fun q hq => ?_) fun _ _ => ?_
  · obtain ⟨b, target⟩ := q
    have hb := hbs b (List.of_mem_zip hq).1
    dsimp only
    split
    · rename_i init hinit
      exact (ends_namedValue he _ (hb.init _ hinit)).bind fun _ _ => .pure trivial
    · exact (ends_literal _ _).bind fun _ _ => .pure trivial
  · exact (ends_body he hforms).bind fun _ _ => .pure trivial

end Resolving

end RegisterScheme
