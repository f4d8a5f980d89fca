import RegisterScheme.Proofs.Expr.Toplevel

/-! The walk over a program keeps up with its resolution, form by form, as long as that succeeds. -/

namespace RegisterScheme

open ScopeChain Resolving

/-- A computation outside the procedures of a program goes from one outline to another, unless it
fails. -/
structure Follows {α : Type} (o : Outline) (act : Resolving α) (p : Outline) : Prop where
  leaves (c : ScopeChain) : o.Matches c → Leaves c act (fun _ d => p.Matches d) fun _ _ => True

theorem Leaves.located {α : Type} {c : ScopeChain} {act : Resolving α} {Q : α → ScopeChain → Prop}
    (h : Leaves c act Q fun _ _ => True) (place : Option Location) :
    Leaves c (Resolving.located place act) Q fun _ _ => True := by
  cases hact : act c with
  | ok a d => exact .answers (tryCatch_of_ok hact) (h.of_ok hact)
  | error e d => exact .fails (tryCatch_of_error hact) trivial

namespace Follows

variable {α β : Type} {o p q : Outline}

theorem pure (a : α) : Follows o (Pure.pure a : Resolving α) o := ⟨fun _ h => .pure h⟩

theorem throw (e : Failure) : Follows o (MonadExcept.throw e : Resolving α) p :=
  ⟨fun _ _ => .throw trivial⟩

theorem bind {x : Resolving α} {f : α → Resolving β} (hx : Follows o x p)
    (hf : ∀ a, Follows p (f a) q) : Follows o (x >>= f) q :=
  ⟨fun c hc => (hx.leaves c hc).bind fun a d hd => (hf a).leaves d hd⟩

theorem throw_bind (e : Failure) {f : α → Resolving β} :
    Follows o ((MonadExcept.throw e : Resolving α) >>= f) p :=
  ⟨fun c _ => .fails (t := c) rfl trivial⟩

theorem map {x : Resolving α} (f : α → β) (hx : Follows o x p) : Follows o (f <$> x) p := by
  rw [map_eq_pure_bind]
  exact hx.bind fun a => pure (f a)

theorem get_bind {f : ScopeChain → Resolving α} (hf : ∀ c, o.Matches c → Follows o (f c) p) :
    Follows o (get >>= f) p :=
  ⟨fun c hc => ⟨((hf c hc).leaves c hc).outcome⟩⟩

theorem primitive?_bind {name : String} {f : Option Primitive → Resolving α}
    (hf : Follows o (f (o.primitive? name)) p) : Follows o (Resolving.primitive? name >>= f) p := by
  refine ⟨fun c hc => ?_⟩
  have hrun : Resolving.primitive? name c = .ok (o.primitive? name) c := by
    rw [← hc.primitive? name]
    rfl
  exact ⟨by rw [bind_of_ok hrun]; exact (hf.leaves c hc).outcome⟩

theorem checkArity_bind {name : String} {arity : Arity} {operands : List Sexpr} {s : Sexpr}
    {f : Unit → Resolving α} (hf : arity.accepts operands.length → Follows o (f ()) p) :
    Follows o (checkArity name arity operands s >>= f) p := by
  unfold checkArity
  split
  · rename_i h
    exact hf h
  · exact .throw_bind _

theorem located {act : Resolving α} (h : Follows o act p) (place : Option Location) :
    Follows o (Resolving.located place act) p :=
  ⟨fun c hc => (h.leaves c hc).located place⟩

/-- A computation that only numbers objects. -/
theorem literal (d : Datum) (s : Sexpr) : Follows o (Resolving.literal d s) o :=
  ⟨fun _ hc => ⟨hc.primitives, hc.scopes⟩⟩

theorem mapM {f : α → Resolving β} {walk : α → Outline → Outline}
    (hf : ∀ o a, Follows o (f a) (walk a o)) (l : List α) (o : Outline) :
    Follows o (l.mapM f) (l.foldl (fun o a => walk a o) o) := by
  induction l generalizing o with
  | nil =>
    rw [List.mapM_nil]
    exact .pure []
  | cons a l ih =>
    rw [List.mapM_cons]
    exact .bind (hf o a) fun b => .bind (ih (walk a o)) fun bs => .pure (b :: bs)

theorem bindGlobal (name : String) : Follows o (Resolving.bindGlobal name) (o.mention name) := by
  refine ⟨fun c hc => ?_⟩
  obtain ⟨shadowed, hs, hshadowed⟩ := hc.scopes
  have hcurrent : current c = .ok (o.scope shadowed) c := by
    rw [current, bind_of_ok (x := get) (s := c) rfl, hs]
    rfl
  cases hf : (o.scope shadowed).find? name with
  | none =>
    have hn : name ∉ o.globals := Outline.find?_scope_eq_none.mp hf
    have hdefine := Scope.define_of_not_binds (.variable .global) none (Scope.find?_eq_none.mp hf)
    have hrun : Resolving.bindGlobal name c = .ok (o.scope shadowed).bindings.length
        { c with scopes := [(o.mention name).scope shadowed] } := by
      rw [Resolving.bindGlobal, bind_of_ok hcurrent, hf]
      dsimp only
      rw [update_eq hs, hdefine, Outline.add_scope hn]
    refine .answers hrun ⟨?_, shadowed, rfl, ?_⟩
    · rw [Outline.mention_primitives]
      exact hc.primitives
    · rwa [Outline.mention_primitives, Outline.mention_defined]
  | some found =>
    obtain ⟨slot, n, kind⟩ := found
    obtain ⟨hkind, hmem⟩ := Outline.find?_scope hf
    obtain rfl : kind = .variable .global := hkind
    have hrun : Resolving.bindGlobal name c = .ok slot c := by
      rw [Resolving.bindGlobal, bind_of_ok hcurrent, hf]
      rfl
    rw [Outline.mention_of_mem hmem]
    exact .answers hrun hc

theorem global (name : String) (s : Sexpr) :
    Follows o (Resolving.global name s) (o.mention name) :=
  .bind (.located (.bindGlobal name) _) fun _ => .pure _

/-- A name means a global from now on, or else it is a primitive. -/
theorem resolve_leaves {c : ScopeChain} (hc : o.Matches c) (name : String) :
    Leaves c (resolve name)
      (fun r d => (∃ slot, r = .global slot ∧ (o.mention name).Matches d) ∨
        ∃ p, r = .primitive p ∧ o.Matches d) fun _ _ => True := by
  obtain ⟨shadowed, hs, -⟩ := hc.scopes
  have hfound := Outline.Matches.findIn_eq hs name
  have hget : (get : Resolving ScopeChain) c = .ok c c := rfl
  have hglobal := (Follows.bindGlobal (o := o) name).leaves c hc
  cases hf : (o.scope shadowed).find? name with
  | some found =>
    obtain ⟨slot, n, kind⟩ := found
    obtain ⟨hkind, hmem⟩ := Outline.find?_scope hf
    obtain rfl : kind = .variable .global := hkind
    have hrun : resolve name c = .ok (.global slot) c := by
      rw [resolve, bind_of_ok hget, hfound, hf]
      rfl
    exact .answers hrun (.inl ⟨slot, rfl, by rwa [Outline.mention_of_mem hmem]⟩)
  | none =>
    rw [hf] at hfound
    cases hp : c.primitives.find? name with
    | some p =>
      have hrun : resolve name c = .ok (.primitive p) c := by
        rw [resolve, bind_of_ok hget, hfound]
        dsimp only [Option.map_none]
        rw [if_neg (by simp [hs]), hp]
        rfl
      exact .answers hrun (.inr ⟨p, rfl, hc⟩)
    | none =>
      have hrun : resolve name c =
          (do return .global (← Resolving.bindGlobal name) : Resolving Resolution) c := by
        rw [resolve, bind_of_ok hget, hfound]
        dsimp only [Option.map_none]
        rw [if_neg (by simp [hs]), hp]
      have hact := hglobal.bind fun slot d hd =>
        Leaves.pure (Q := fun r d => (∃ slot, r = .global slot ∧ (o.mention name).Matches d) ∨
          ∃ p, r = .primitive p ∧ o.Matches d) (a := Resolution.global slot) (.inl ⟨slot, rfl, hd⟩)
      exact ⟨by rw [hrun]; exact hact.outcome⟩

/-- An operator as a value is a global as well. -/
theorem variableRef (name : String) (s : Sexpr) :
    Follows o (Resolving.variableRef name s) (o.mention name) := by
  refine ⟨fun c hc => ((resolve_leaves hc name).located _).bind ?_⟩
  rintro r d (⟨slot, rfl, hd⟩ | ⟨p, rfl, hd⟩)
  · exact .pure hd
  · cases p with
    | form f => exact .throw trivial
    | operator op =>
      dsimp only
      split
      · exact (Follows.global name s).leaves d hd
      · exact .throw trivial

theorem definitionTarget (name : String) (s : Sexpr) :
    Follows o (Resolving.definitionTarget name s) (o.define name) := by
  refine .get_bind fun c hc => ?_
  rw [if_pos hc.isTopLevel, hc.primitives]
  refine .bind (.global name s) fun target => ?_
  split
  · rename_i hsome
    refine .bind ⟨fun d hd => ?_⟩ fun _ => .pure _
    obtain ⟨shadowed, hs, hshadowed⟩ := hd.scopes
    obtain ⟨more, hmore, hmem⟩ := (o.mention name).shadow_scope shadowed name
    have hrun : shadowPrimitive name d = .ok () { d with scopes := [(o.define name).scope more] } := by
      rw [shadowPrimitive, update_eq hs, hmore]
      rfl
    refine .answers hrun ⟨hd.primitives, more, rfl, fun n => ?_⟩
    rw [hmem, hshadowed]
    simp only [Outline.define, Outline.mention_primitives, Outline.mention_defined,
      List.mem_append, List.mem_singleton]
    grind
  · rename_i hnone
    refine ⟨fun d hd => .pure ?_⟩
    obtain ⟨shadowed, hs, hshadowed⟩ := hd.scopes
    refine ⟨hd.primitives, shadowed, hs, fun n => ?_⟩
    rw [hshadowed]
    simp only [Outline.define, Outline.mention_primitives, Outline.mention_defined,
      List.mem_append, List.mem_singleton]
    grind

/-- A procedure is none of the program's own. -/
theorem procedure {declare : Resolving (Parameters Function)} {build : Resolving Expr}
    (hd : Along Beneath declare) (hb : Along Beneath build) (name : Option String)
    (place : Option Location) : Follows o (Resolving.procedure name place declare build) o := by
  refine .bind ⟨fun c hc => ?_⟩ fun _ => .pure _
  obtain ⟨shadowed, hs, hshadowed⟩ := hc.scopes
  have hact : Along Beneath (do
      let parameters ← declare
      let body ← build
      return (parameters, body)) :=
    .bind hd fun _ => .bind hb fun _ => .pure _
  have hscope := keeps_inScope (S := fun c d => d.primitives = c.primitives ∧
    ∀ s, c.scopes = [s] → d.scopes = [s]) (hact.keeps { c with scopes := .empty :: c.scopes })
    fun d hd => ⟨hd.primitives, fun _ hs => hd.tail_eq hs⟩
  refine ⟨?_⟩
  cases hrun : inScope _ c with
  | error e d => trivial
  | ok a d =>
    obtain ⟨⟨hprimitives, hscopes⟩, -⟩ := hscope.of_ok hrun
    exact ⟨hprimitives.trans hc.primitives, shadowed, hscopes _ hs, hshadowed⟩

theorem parameterName (s : Sexpr) {f : String → Resolving α}
    (hf : ∀ name, s.identifier? = some name → Follows o (f name) p) :
    Follows o (Resolving.parameterName s >>= f) p := by
  cases s with
  | identifier name _ => exact hf name rfl
  | _ => exact .throw_bind _

theorem parameterItems (s : Sexpr) : Follows o (Resolving.parameterItems s) o := by
  cases s with
  | literal _ _ => exact .throw _
  | vector _ _ => exact .throw _
  | _ => exact .pure _

/-- Bindings and the forms of their initial values. -/
theorem localBindings {s : Sexpr} {f : List LocalBinding → Resolving α}
    (hf : ∀ items location bs, s = .list items location →
      bs.map LocalBinding.init = items.map Outline.initialForm? → Follows o (f bs) p) :
    Follows o (Resolving.localBindings s >>= f) p := by
  have hitem (c : ScopeChain) (item : Sexpr) : Leaves c (localBinding item)
      (fun b d => d = c ∧ b.init = Outline.initialForm? item) fun _ _ => True := by
    unfold localBinding
    split
    · exact .pure ⟨rfl, rfl⟩
    · rename_i name _
      cases name with
      | identifier name _ => exact .pure ⟨rfl, rfl⟩
      | _ => exact .fails (t := c) rfl trivial
    · rename_i name init _
      cases name with
      | identifier name _ => exact .pure ⟨rfl, rfl⟩
      | _ => exact .fails (t := c) rfl trivial
    · exact .throw trivial
  have hitems (c : ScopeChain) (items : List Sexpr) : Leaves c (items.mapM localBinding)
      (fun bs d => d = c ∧ bs.map LocalBinding.init = items.map Outline.initialForm?)
      fun _ _ => True := by
    induction items with
    | nil =>
      rw [List.mapM_nil]
      exact .pure ⟨rfl, rfl⟩
    | cons item items ih =>
      rw [List.mapM_cons]
      refine (hitem c item).bind ?_
      rintro b _ ⟨rfl, hb⟩
      refine ih.bind ?_
      rintro bs _ ⟨rfl, hbs⟩
      exact .pure ⟨rfl, by rw [List.map_cons, List.map_cons, hb, hbs]⟩
  cases s with
  | list items location =>
    refine ⟨fun c hc => (hitems c items).bind ?_⟩
    rintro bs _ ⟨rfl, hbs⟩
    exact (hf items location bs rfl hbs).leaves _ hc
  | _ => exact .throw_bind _

section

variable {expand : Expand} {walk : Walk} (ha : ∀ s, Along Beneath (expand s))
  (hw : ∀ o s, Follows o (expand s) (walk s o))

section

include ha

theorem lambda (name : Option String) (items : List Sexpr) (tail : Option Sexpr)
    (forms : List Sexpr) (place : Option Location) (o : Outline) :
    Follows o (Resolving.lambda expand name items tail forms place) o :=
  .procedure (along_parameters ha items tail) (along_body ha forms place) name place

theorem namedLambda (ps : Sexpr) (forms : List Sexpr) (place : Option Location) (o : Outline) :
    Follows o (Resolving.namedLambda expand ps forms place) o := by
  refine .bind (.parameterItems ps) fun (items, tail) => ?_
  cases items with
  | nil => exact .throw _
  | cons head items =>
    exact .parameterName head fun name _ =>
      .bind (.lambda ha _ items tail forms place o) fun _ => .pure _

end

section

include hw

theorem inOrder (forms : List Sexpr) (o : Outline) :
    Follows o (forms.mapM expand) (o.inOrder walk forms) :=
  .mapM hw forms o

theorem sequence (forms : List Sexpr) (place : Option Location) (o : Outline) :
    Follows o (Resolving.sequence expand forms place) (.inOrder walk forms o) := by
  unfold Resolving.sequence
  split
  · exact hw o _
  · exact .bind (.inOrder hw _ o) fun _ => .pure _

theorem initialValues (bs : List LocalBinding) (o : Outline) :
    Follows o (bs.mapM (initialValue expand))
      (.inOrder walk (bs.filterMap LocalBinding.init) o) := by
  induction bs generalizing o with
  | nil =>
    rw [List.mapM_nil]
    exact .pure []
  | cons b bs ih =>
    obtain ⟨name, init, origin⟩ := b
    rw [List.mapM_cons]
    cases init with
    | none => exact .bind (.literal .nil origin) fun _ => .bind (ih o) fun _ => .pure _
    | some init => exact .bind (hw o init) fun _ => .bind (ih (walk init o)) fun _ => .pure _

theorem clauses (forms : List Sexpr) (o : Outline) :
    Follows o (Resolving.clauses expand forms) (.clauses walk forms o) := by
  induction forms generalizing o with
  | nil => exact .pure _
  | cons clause rest ih =>
    have hmore (test : Expr) (body : Option Expr) (o : Outline) : Follows o (do
        let later ← Resolving.clauses expand rest
        return ((⟨test, body⟩ : Clause Expr) :: later.1, later.2)) (.clauses walk rest o) :=
      .bind (ih o) fun _ => .pure _
    unfold Resolving.clauses
    split
    · split
      · exact .throw _
      · split
        · exact .throw _
        · exact .bind (.sequence hw _ _ o) fun _ => .pure _
    · rename_i test forms place helse
      have hclauses : Outline.clauses walk (.list (test :: forms) place :: rest) o =
          .clauses walk rest (.inOrder walk forms (walk test o)) := by
        rw [Outline.clauses]
        · rfl
        · exact fun location _ h => helse location (List.cons.inj h).1
      rw [hclauses]
      refine .bind (hw o test) fun test => ?_
      dsimp only
      split
      · rename_i hempty
        obtain rfl : forms = [] := List.isEmpty_iff.mp hempty
        exact .bind (.pure none) fun body => hmore test body _
      · exact .bind (.map some (.sequence hw forms place _)) fun body => hmore test body _
    · exact .throw _

theorem assign (target value s : Sexpr) (o : Outline) :
    Follows o (Resolving.assign expand target value s)
      (.specialForm walk .assign [target, value] o) := by
  cases target with
  | identifier name location =>
    refine .primitive?_bind ?_
    split
    · exact .throw _
    · exact .bind (.variableRef name _) fun _ => .bind (hw _ value) fun _ => .pure _
  | _ => exact .throw _

theorem conditional (negated : Bool) (test : Sexpr) (forms : List Sexpr)
    (place : Option Location) (o : Outline) :
    Follows o (Resolving.conditional expand negated test forms place)
      (.inOrder walk (test :: forms) o) :=
  .bind (hw o test) fun _ => .bind (.sequence hw forms place _) fun _ => .pure _

theorem bindAndCall (bs : List LocalBinding) (place : Option Location) {build : Resolving Expr}
    (hb : Along Beneath build) (o : Outline) :
    Follows o (Resolving.bindAndCall expand bs place build)
      (.inOrder walk (bs.filterMap LocalBinding.init) o) :=
  .bind (.initialValues hw bs o) fun _ =>
    .bind (.procedure (along_declareBindings bs) hb none place) fun _ => .pure _

end

include ha hw

theorem namedValue (name : String) (s : Sexpr) (o : Outline) :
    Follows o (Resolving.namedValue expand name s) (.value walk s o) := by
  unfold Resolving.namedValue
  split
  · rename_i head l ps form forms place
    have hvalue : Outline.value walk (.list (.identifier head l :: ps :: form :: forms) place) o =
        if o.primitive? head = some (.form .lambda) then o
        else walk (.list (.identifier head l :: ps :: form :: forms) place) o := rfl
    rw [hvalue]
    refine .primitive?_bind ?_
    by_cases hhead : o.primitive? head = some (.form .lambda)
    · rw [if_pos hhead, if_pos hhead]
      exact .bind (.parameterItems _) fun (items, tail) =>
        .bind (.lambda ha _ items tail _ _ o) fun _ => .pure _
    · rw [if_neg hhead, if_neg hhead]
      exact hw o _
  · rename_i hother
    have hvalue : Outline.value walk s o = walk s o := by
      unfold Outline.value
      split
      · exact absurd rfl (hother _ _ _ _ _ _)
      · rfl
    rw [hvalue]
    exact hw o s

theorem define (operands : List Sexpr) (s : Sexpr) (o : Outline) :
    Follows o (Resolving.define expand operands s) (.definition walk operands o) := by
  have hheader (head : Sexpr) (items : List Sexpr) (tail : Option Sexpr) (forms : List Sexpr) :
      Follows o (define.header expand operands s SpecialForm.define.name head items tail forms)
        (head.identifier?.elim o o.define) := by
    refine .checkArity_bind fun _ => .parameterName head fun name hname => ?_
    rw [hname]
    exact .bind (.definitionTarget name head) fun _ =>
      .bind (.lambda ha _ items tail forms _ _) fun _ => .pure _
  unfold Resolving.define
  split
  · exact .throw _
  · rename_i target forms
    split
    · rename_i name l
      refine .checkArity_bind fun _ => .bind (.definitionTarget name _) fun target => ?_
      cases forms with
      | nil => exact .bind (.literal .nil s) fun _ => .pure _
      | cons form forms => exact .bind (.namedValue ha hw name form _) fun _ => .pure _
    · exact hheader _ _ _ _
    · exact hheader _ _ _ _
    · exact .throw _

theorem namedLet (name : String) (nameForm : Sexpr) (bs : List LocalBinding) (forms : List Sexpr)
    (place : Option Location) (o : Outline) :
    Follows o (Resolving.namedLet expand name nameForm bs forms place)
      (.inOrder walk (bs.filterMap LocalBinding.init) o) := by
  have hwrapper := along_loop (R := Beneath) ha name nameForm bs forms place
  exact .bind (.initialValues hw bs o) fun _ =>
    .bind (.procedure (.pure _) hwrapper none place) fun _ => .pure _

theorem letForm (first : Sexpr) (rest operands : List Sexpr) (s : Sexpr) (o : Outline) :
    Follows o (Resolving.letForm expand first rest operands s)
      (.specialForm walk .let (first :: rest) o) := by
  have hbindings {items : List Sexpr} {bs : List LocalBinding}
      (hbs : bs.map LocalBinding.init = items.map Outline.initialForm?) :
      bs.filterMap LocalBinding.init = items.filterMap Outline.initialForm? := by
    have h := congrArg (List.filterMap id) hbs
    simpa only [List.filterMap_map, Function.id_comp] using h
  cases first with
  | identifier name location =>
    refine .checkArity_bind fun _ => ?_
    cases rest with
    | nil => exact .throw _
    | cons bindings forms =>
      refine .localBindings fun items place bs hlist hbs => ?_
      subst hlist
      have hlet := Follows.namedLet ha hw name (.identifier name location) bs forms s.location o
      rw [hbindings hbs] at hlet
      exact hlet
  | list items location =>
    refine .localBindings fun items' location' bs hlist hbs => ?_
    cases hlist
    have hlet := Follows.bindAndCall hw bs s.location (along_body ha rest s.location) o
    rw [hbindings hbs] at hlet
    exact hlet
  | _ => exact .localBindings fun _ _ _ hlist _ => nomatch hlist

theorem letStar (bindings : Sexpr) (forms : List Sexpr) (place : Option Location) (o : Outline) :
    Follows o (Resolving.localBindings bindings >>= Resolving.letStar expand forms place)
      (.specialForm walk .letStar (bindings :: forms) o) := by
  refine .localBindings fun items location bs hlist hbs => ?_
  subst hlist
  cases items with
  | nil =>
    obtain rfl : bs = [] := List.map_eq_nil_iff.mp hbs
    exact .bindAndCall hw [] place (along_body ha forms place) o
  | cons item items =>
    cases bs with
    | nil => cases hbs
    | cons b bs =>
      have hinit : b.init = Outline.initialForm? item := (List.cons.inj hbs).1
      have hfirst : Outline.specialForm walk .letStar (.list (item :: items) location :: forms) o =
          .inOrder walk ([b].filterMap LocalBinding.init) o := by
        rw [Outline.specialForm, List.filterMap_cons, hinit]
        cases Outline.initialForm? item <;> rfl
      rw [hfirst]
      cases bs with
      | nil => exact .bindAndCall hw [b] place (along_body ha forms place) o
      | cons b' bs => exact .bindAndCall hw [b] place (along_letStar ha forms place (b' :: bs)) o

theorem letrec (bs : List LocalBinding) (forms : List Sexpr) (place : Option Location)
    (o : Outline) : Follows o (Resolving.letrec expand bs forms place) o :=
  .bindAndCall hw [] place (along_recursive ha bs forms place) o

end

/-- Nothing but the marks that are known decides whether a template is constant. -/
theorem unlessConstant {template : Sexpr} {level : Nat} {build : Resolving Expr}
    (hb : Follows o build p) : Follows o (do
      if !hasUnquote (levelMark? (← get)) template level then
        Resolving.literal template.toDatum template
      else build) (if !hasUnquote o.mark? template level then o else p) := by
  refine .get_bind fun c hc => ?_
  rw [hc.levelMark?]
  split
  · exact .literal _ _
  · exact hb

theorem callGlobal (name : String) (arguments : List Expr) (s : Sexpr) :
    Follows o (Resolving.callGlobal name arguments s) (o.mention name) :=
  .bind (.global name s) fun _ => .pure _

section

variable {expand : Expand} {walk : Walk} (hw : ∀ o s, Follows o (expand s) (walk s o))

include hw

mutual

theorem quasi : (template : Sexpr) → (level : Nat) → (o : Outline) →
    Follows o (Resolving.quasi expand template level) (.quasi walk template level o)
  | .literal _ _, level, o | .identifier _ _, level, o | .list [] _, level, o => by
    rw [Resolving.quasi.eq_def, Outline.quasi.eq_def]
    exact unlessConstant (.literal _ _)
  | .list [item] _, level, o => by
    rw [Resolving.quasi.eq_def, Outline.quasi.eq_def]
    exact unlessConstant (.quasiItems true (fun o => .literal _ _) [item] level o)
  | .list [head, arg] _, level, o => by
    rw [Resolving.quasi.eq_def, Outline.quasi.eq_def]
    refine unlessConstant (.get_bind fun c hc => ?_)
    rw [hc.levelMark?]
    dsimp only
    cases hmark : o.mark? head with
    | none => exact .quasiItems true (fun o => .literal _ _) [head, arg] level o
    | some mark =>
      dsimp only
      split
      · rename_i hsome
        obtain rfl := Option.some.inj hsome
        exact hw o arg
      · exact .throw _
      · rename_i level _ _ mark' hsome hunquote hsplicing
        obtain rfl := Option.some.inj hsome
        by_cases hquasi : mark = .quasiquote
        · rw [if_pos hquasi, if_pos hquasi]
          exact .bind (.quasi arg _ o) fun _ => .bind (.literal _ _) fun _ =>
            .bind (.literal _ _) fun _ => .pure _
        · have hlevel : level ≠ 1 := by
            intro hone
            cases mark with
            | quote => exact o.mark?_ne_quote head hmark
            | quasiquote => exact hquasi rfl
            | unquote => exact hunquote hone rfl
            | unquoteSplicing => exact hsplicing hone rfl
          rw [if_neg hquasi, if_neg hquasi, if_neg hlevel]
          exact .bind (.quasi arg _ o) fun _ => .bind (.literal _ _) fun _ =>
            .bind (.literal _ _) fun _ => .pure _
      · contradiction
  | .list (item :: second :: third :: rest) _, level, o => by
    rw [Resolving.quasi.eq_def, Outline.quasi.eq_def]
    exact unlessConstant (.quasiItems true (fun o => .literal _ _)
      (item :: second :: third :: rest) level o)
  | .dotted items tail _, level, o => by
    rw [Resolving.quasi.eq_def, Outline.quasi.eq_def]
    exact unlessConstant (.quasiItems false (fun o => .quasi tail level o) items level o)
  | .vector items _, level, o => by
    rw [Resolving.quasi.eq_def, Outline.quasi.eq_def]
    exact unlessConstant (.bind (.quasiItems true (fun o => .literal _ _) items level o) fun _ =>
      .callGlobal _ _ _)

theorem quasiItems (dotted : Bool) {last : Resolving Expr} {walkLast : Outline → Outline}
    (hlast : ∀ o, Follows o last (walkLast o)) :
    (items : List Sexpr) → (level : Nat) → (o : Outline) →
      Follows o (Resolving.quasiItems expand dotted last items level)
        (.quasiItems walk dotted walkLast items level o)
  | [], level, o => by
    rw [Resolving.quasiItems, Outline.quasiItems]
    exact hlast o
  | item :: rest, level, o => by
    rw [Resolving.quasiItems.eq_def, Outline.quasiItems.eq_def]
    refine .get_bind fun c hc => ?_
    rw [hc.levelMark?]
    dsimp only
    have hmore := quasiItems dotted hlast rest level o
    have element : Follows o
        (do
          let cdr ← Resolving.quasiItems expand dotted last rest level
          match Resolving.spliced? (← get) level item with
          | some e => Resolving.callGlobal "append" [← expand e, cdr] item
          | none => return consExpr (← Resolving.quasi expand item level) cdr item)
        (match (Outline.quasiItems walk dotted walkLast rest level o).spliced? level item with
          | some e =>
            (walk e (Outline.quasiItems walk dotted walkLast rest level o)).mention "append"
          | none =>
            Outline.quasi walk item level
              (Outline.quasiItems walk dotted walkLast rest level o)) := by
      refine .bind hmore fun cdr => .get_bind fun d hd => ?_
      rw [hd.spliced?]
      cases Outline.spliced? _ level item with
      | some e => exact .bind (hw _ e) fun _ => .callGlobal _ _ _
      | none => exact .bind (.quasi item level _) fun _ => .pure _
    generalize (dotted && level == 1 && o.mark? item == some .unquote) = isTail
    rcases isTail, rest with ⟨_ | _, _ | ⟨e, _ | ⟨next, more⟩⟩⟩
    case true.cons.nil => exact hw o e
    all_goals exact element

end

end

section

variable {expand : Expand} {walk : Walk} (ha : ∀ s, Along Beneath (expand s))
  (hw : ∀ o s, Follows o (expand s) (walk s o))

include ha hw

theorem specialForm (form : SpecialForm) (name : String) (operands : List Sexpr) (s : Sexpr)
    (o : Outline) : Follows o (Resolving.specialForm expand form name operands s)
      (.specialForm walk form operands o) := by
  refine .checkArity_bind fun harity => ?_
  split
  · exact .literal _ _
  · exact .quasi hw _ 1 o
  · exact .throw _
  · exact .throw _
  · rename_i test consequent alternative
    cases alternative with
    | nil => exact .bind (hw o test) fun _ => .bind (hw _ consequent) fun _ =>
        .bind (.pure none) fun _ => .pure _
    | cons a rest =>
      obtain rfl : rest = [] := by
        simp only [formArity, Arity.accepts, List.length_cons, Bool.and_eq_true,
          decide_eq_true_eq] at harity
        exact List.eq_nil_of_length_eq_zero (by omega)
      exact .bind (hw o test) fun _ => .bind (hw _ consequent) fun _ =>
        .bind (.map some (hw _ a)) fun _ => .pure _
  · exact .bind (.clauses hw _ o) fun _ => .pure _
  · exact .bind (.parameterItems _) fun (items, tail) =>
      .bind (.lambda ha none items tail _ _ o) fun _ => .pure _
  · exact .namedLambda ha _ _ _ o
  · exact .define ha hw _ s o
  · exact .assign hw _ _ s o
  · exact .bind (.inOrder hw _ o) fun _ => .pure _
  · exact .letForm ha hw _ _ _ s o
  · exact .letStar ha hw _ _ _ o
  · refine .localBindings fun _ _ bs _ _ => .letrec ha hw bs _ _ o
  · exact .conditional hw false _ _ _ o
  · exact .conditional hw true _ _ _ o
  · exact .throw _

theorem compound (head : Sexpr) (operands : List Sexpr) (s : Sexpr) (o : Outline) :
    Follows o (Resolving.compound expand head operands s) (.compound walk head operands o) := by
  have hcall : Follows o (do
      let callee ← expand head
      return Expr.call callee (← operands.mapM expand) s.location)
      (.inOrder walk (head :: operands) o) :=
    .bind (hw o head) fun _ => .bind (.inOrder hw operands _) fun _ => .pure _
  unfold Resolving.compound Outline.compound
  cases head.identifier? with
  | none =>
    dsimp only [Option.bind_none]
    rw [pure_bind]
    exact hcall
  | some name =>
    dsimp only [Option.bind_some]
    rw [map_eq_pure_bind, bind_assoc]
    refine .primitive?_bind ?_
    rw [pure_bind]
    cases o.primitive? name with
    | none => exact hcall
    | some p =>
      cases p with
      | form form => exact .specialForm ha hw form name operands s o
      | operator op =>
        exact .checkArity_bind fun _ => .bind (.inOrder hw operands o) fun _ => .pure _

theorem expandWith (s : Sexpr) (o : Outline) :
    Follows o (Resolving.expandWith expand s) (.walkWith walk s o) := by
  cases s with
  | literal a location => exact .literal _ _
  | vector items location => exact .literal _ _
  | identifier name location => exact .bind (.variableRef name _) fun _ => .pure _
  | list items location =>
    cases items with
    | nil => exact .literal _ _
    | cons head operands => exact .compound ha hw head operands _ o
  | dotted items tail location => exact .throw _

end

/-- The walk over an expression tells what its resolution makes global. -/
theorem expandWithin (height : Nat) (s : Sexpr) (o : Outline) :
    Follows o (Resolving.expandWithin height s) (.walkWithin height s o) := by
  induction height generalizing s o with
  | zero => exact .throw _
  | succ height ih => exact .expandWith (along_expandWithin height) (fun o s => ih s o) s o

/-- A program that is resolved has the globals of its outline, and shadows the primitives that it
defines. -/
theorem program_scope {primitives : Primitives} {first : Nat} {forms : List Sexpr} {f : Function}
    {d : ScopeChain} (h : Resolving.program forms (.start primitives first) = .ok f d) :
    ∃ shadowed, f.scope = (Outline.ofProgram primitives forms).scope shadowed ∧
      ∀ name, name ∈ shadowed ↔ name ∈ (Outline.ofProgram primitives forms).defined ∧
        (primitives.find? name).isSome := by
  let c : ScopeChain := { ScopeChain.start primitives first with scopes := [.empty] }
  let place := forms.head?.bind Sexpr.location
  have hc : (Outline.start primitives).Matches c := ⟨rfl, [], rfl, by simp [Outline.start]⟩
  have hwalk := (Follows.sequence (fun o s => expandWithin (Sexpr.heightOfItems forms) s o) forms
    place (.start primitives)).leaves c hc
  have hbeneath := (along_sequence (R := Beneath)
    (along_expandWithin (Sexpr.heightOfItems forms)) forms place).keeps c
  cases hrun : Resolving.sequence (Resolving.expandWithin (Sexpr.heightOfItems forms)) forms
      place c with
  | error e d' =>
    have hdepth : d'.scopes.length = 1 := (hbeneath.of_error hrun).1.depth
    obtain ⟨s, hs⟩ := List.length_eq_one_iff.mp hdepth
    have hscope := inScope_of_error (c := .start primitives first) hrun hs
    rw [Resolving.program, bind_of_error hscope] at h
    cases h
  | ok body d' =>
    obtain ⟨hprimitives, shadowed, hs, hshadowed⟩ := hwalk.of_ok hrun
    rw [← hprimitives, (hbeneath.of_ok hrun).1.primitives] at hshadowed
    have hscope := inScope_of_ok (c := .start primitives first) hrun hs
    rw [Resolving.program, bind_of_ok hscope] at h
    cases h
    exact ⟨shadowed, rfl, hshadowed⟩

theorem program {primitives : Primitives} {first : Nat} {forms : List Sexpr} {f : Function}
    {d : ScopeChain} (h : Resolving.program forms (.start primitives first) = .ok f d)
    (name : String) : name ∈ f.scope.shadowed ↔
      name ∈ (Outline.ofProgram primitives forms).defined ∧ (primitives.find? name).isSome := by
  obtain ⟨shadowed, hscope, hshadowed⟩ := program_scope h
  rw [hscope]
  exact hshadowed name

end Follows

end RegisterScheme
