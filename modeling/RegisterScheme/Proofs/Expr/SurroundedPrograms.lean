import RegisterScheme.Proofs.Expr.SurroundedForms

/-! Templates, special forms and whole expressions in two programs. -/

namespace RegisterScheme

open ScopeChain Resolving

namespace Sexpr.Likeness

variable {known : String → Prop} {R : Sexpr → Sexpr → Prop}
  {mark? mark?' : Sexpr → Option QuoteMark}

theorem endsInUnquote (hmark : ∀ s s', R s s' → mark?' s' = mark? s) {items items' : List Sexpr}
    (h : List.Forall₂ R items items') :
    Resolving.endsInUnquote mark?' items' = Resolving.endsInUnquote mark? items := by
  have hreverse := List.rel_reverse h
  unfold Resolving.endsInUnquote
  generalize items.reverse = last, items'.reverse = last' at hreverse
  cases hreverse with
  | nil => rfl
  | cons _ hrest =>
    cases hrest with
    | nil => rfl
    | cons hmarker _ =>
      dsimp only
      rw [hmark _ _ hmarker]

mutual

theorem hasUnquote (hR : Likeness known R) (hmark : ∀ s s', R s s' → mark?' s' = mark? s) :
    (s : Sexpr) → {s' : Sexpr} → R s s' → (level : Nat) →
      Resolving.hasUnquote mark?' s' level = Resolving.hasUnquote mark? s level
  | .literal a l, s', h, level => by
    cases hR _ _ h
    rw [Resolving.hasUnquote.eq_def, Resolving.hasUnquote.eq_def]
  | .identifier name l, s', h, level => by
    cases hR _ _ h
    rw [Resolving.hasUnquote.eq_def, Resolving.hasUnquote.eq_def]
  | .list [] l, s', h, level => by
    cases hR _ _ h with
    | list hs =>
      cases hs
      rw [Resolving.hasUnquote.eq_def, Resolving.hasUnquote.eq_def]
      rfl
  | .list [item] l, s', h, level => by
    cases hR _ _ h with
    | list hs =>
      have hany := anyUnquote hR hmark [item] hs level
      have hends := endsInUnquote hmark hs
      rcases hs with _ | ⟨_, _ | _⟩
      rw [Resolving.hasUnquote.eq_def, Resolving.hasUnquote.eq_def]
      dsimp only
      rw [hany, hends]
  | .list [head, arg] l, s', h, level => by
    cases hR _ _ h with
    | list hs =>
      rcases hs with _ | ⟨hhead, _ | ⟨harg, _ | _⟩⟩
      rw [Resolving.hasUnquote.eq_def, Resolving.hasUnquote.eq_def]
      dsimp only
      rw [hmark _ _ hhead, hasUnquote hR hmark head hhead, hasUnquote hR hmark arg harg,
        hasUnquote hR hmark arg harg, hasUnquote hR hmark arg harg]
  | .list (first :: second :: third :: rest) l, s', h, level => by
    cases hR _ _ h with
    | list hs =>
      have hany := anyUnquote hR hmark (first :: second :: third :: rest) hs level
      have hends := endsInUnquote hmark hs
      rcases hs with _ | ⟨_, _ | ⟨_, _ | _⟩⟩
      rw [Resolving.hasUnquote.eq_def, Resolving.hasUnquote.eq_def]
      dsimp only
      rw [hany, hends]
  | .dotted items tail l, s', h, level => by
    cases hR _ _ h with
    | dotted hs ht =>
      rw [Resolving.hasUnquote.eq_def, Resolving.hasUnquote.eq_def]
      dsimp only
      rw [anyUnquote hR hmark items hs, hasUnquote hR hmark tail ht]
  | .vector items l, s', h, level => by
    cases hR _ _ h with
    | vector hs =>
      rw [Resolving.hasUnquote.eq_def, Resolving.hasUnquote.eq_def]
      exact anyUnquote hR hmark items hs level

theorem anyUnquote (hR : Likeness known R) (hmark : ∀ s s', R s s' → mark?' s' = mark? s) :
    (items : List Sexpr) → {items' : List Sexpr} → List.Forall₂ R items items' → (level : Nat) →
      Resolving.anyUnquote mark?' items' level = Resolving.anyUnquote mark? items level
  | [], _, h, level => by
    cases h
    rw [Resolving.anyUnquote, Resolving.anyUnquote]
  | item :: items, _, h, level => by
    cases h with
    | cons hitem hitems =>
      rw [Resolving.anyUnquote, Resolving.anyUnquote, hasUnquote hR hmark item hitem,
        anyUnquote hR hmark items hitems]

end

end Sexpr.Likeness

namespace Surroundings

variable {q : Surroundings} {R : Sexpr → Sexpr → Prop} {i : Stage} {α β : Type} {name : String}
  {s s' : Sexpr} {forms forms' : List Sexpr}

/-! ### Templates -/

theorem levelMark?_eq (hR : Sexpr.Likeness q.known R) {c d : ScopeChain} (hcd : q.Holds i c d)
    (h : R s s') : levelMark? d s' = levelMark? c s := by
  cases hR _ _ h with
  | identifier hknown =>
    unfold levelMark?
    dsimp only
    rw [primitive?_eq hcd hknown]
  | literal | list | dotted | vector => rfl

theorem spliced?_eq (hR : Sexpr.Likeness q.known R) {c d : ScopeChain} (hcd : q.Holds i c d)
    (level : Nat) (h : R s s') : Option.Rel R (spliced? c level s) (spliced? d level s') := by
  cases hR _ _ h with
  | literal | identifier | dotted | vector => exact .none
  | list hs =>
    rcases hs with _ | ⟨hhead, _ | ⟨harg, _ | _⟩⟩
    case cons.cons.nil =>
      unfold spliced?
      dsimp only
      rw [levelMark?_eq hR hcd hhead]
      split
      · exact .some harg
      · exact .none
    all_goals exact .none

theorem callGlobal (name : String) {args args' : List Expr} (s s' : Sexpr)
    (h : Exprs.Alike (q.renumbering i) i.depth args args') :
    q.Resolves i (Resolving.callGlobal name args s) (Resolving.callGlobal name args' s') :=
  (global name s s').bind fun _ _ _ hij hv => .pure (.call (.reference hv.1) (all_last hij h))

theorem consExpr_alike {r : Renumbering} {n : Nat} {e e' f f' : Expr} (he : e.Alike r n e')
    (hf : f.Alike r n f') (s s' : Sexpr) : (consExpr e f s).Alike r n (consExpr e' f' s') :=
  .operation (.cons he (.cons hf .nil))

section

variable (hR : Sexpr.Likeness q.known R)

include hR

/-- What stands under a mark, or a template without a mark. -/
theorem unlessConstant (h : R s s') (level : Nat) {x y : Resolving Expr} (hxy : q.Resolves i x y) :
    q.Resolves i
      (do
        if !Resolving.hasUnquote (levelMark? (← get)) s level then
          Resolving.literal s.toDatum s
        else x)
      (do
        if !Resolving.hasUnquote (levelMark? (← get)) s' level then
          Resolving.literal s'.toDatum s'
        else y) := by
  refine .get_bind fun c d hcd => ?_
  rw [hR.hasUnquote (fun _ _ h => levelMark?_eq hR hcd h) s h level, hR.toDatum s h]
  split
  · exact literal _ _ _
  · exact hxy

variable {expand expand' : Expand} (he : q.Inside R expand expand')

include he

mutual

theorem quasi : (s : Sexpr) → {s' : Sexpr} → R s s' → (level : Nat) → {i : Stage} →
    q.Resolves i (Resolving.quasi expand s level) (Resolving.quasi expand' s' level)
  | .literal a l, s', h, level, i => by
    cases hR _ _ h
    rw [Resolving.quasi.eq_def, Resolving.quasi.eq_def]
    exact unlessConstant hR h level (literal _ _ _)
  | .identifier name l, s', h, level, i => by
    cases hR _ _ h
    rw [Resolving.quasi.eq_def, Resolving.quasi.eq_def]
    exact unlessConstant hR h level (literal _ _ _)
  | .list [] l, s', h, level, i => by
    cases hR _ _ h with
    | list hs =>
      have hitems (t : Sexpr) := quasiItems true (fun i => literal (i := i) .nil (.list [] l) t)
        [] hs level (i := i)
      cases hs
      rw [Resolving.quasi.eq_def, Resolving.quasi.eq_def]
      exact unlessConstant hR h level (hitems _)
  | .list [item] l, s', h, level, i => by
    cases hR _ _ h with
    | list hs =>
      have hitems (t : Sexpr) := quasiItems true (fun i => literal (i := i) .nil (.list [item] l) t)
        [item] hs level (i := i)
      rcases hs with _ | ⟨_, _ | _⟩
      rw [Resolving.quasi.eq_def, Resolving.quasi.eq_def]
      exact unlessConstant hR h level (hitems _)
  | .list [head, arg] l, s', h, level, i => by
    cases hR _ _ h with
    | list hs =>
      have hitems (t : Sexpr) := quasiItems true
        (fun i => literal (i := i) .nil (.list [head, arg] l) t) [head, arg] hs level (i := i)
      rcases hs with _ | ⟨hhead, _ | ⟨harg, _ | _⟩⟩
      rw [Resolving.quasi.eq_def, Resolving.quasi.eq_def]
      refine unlessConstant hR h level (.get_bind fun c d hcd => ?_)
      rw [levelMark?_eq hR hcd hhead]
      split
      · exact he _ _ _ harg
      · exact .throw _ _
      · refine (quasi arg harg _).bind fun j e e' hij hinner => ?_
        rw [hR.toDatum head hhead]
        refine (literal _ _ _).bind fun k f f' hjk hkeyword => ?_
        refine (literal _ _ _).bind fun m g g' hkm hnil => .pure ?_
        have hinner := lasts (le_trans hjk hkm) hinner
        exact consExpr_alike (lasts hkm hkeyword) (consExpr_alike hinner hnil _ _) _ _
      · exact hitems _
  | .list (first :: second :: third :: rest) l, s', h, level, i => by
    cases hR _ _ h with
    | list hs =>
      have hitems (t : Sexpr) := quasiItems true
        (fun i => literal (i := i) .nil (.list (first :: second :: third :: rest) l) t)
        (first :: second :: third :: rest) hs level (i := i)
      rcases hs with _ | ⟨_, _ | ⟨_, _ | _⟩⟩
      rw [Resolving.quasi.eq_def, Resolving.quasi.eq_def]
      exact unlessConstant hR h level (hitems _)
  | .dotted items tail l, s', h, level, i => by
    cases hR _ _ h with
    | dotted hs ht =>
      rw [Resolving.quasi.eq_def, Resolving.quasi.eq_def]
      exact unlessConstant hR h level
        (quasiItems false (fun i => quasi tail ht level (i := i)) items hs level)
  | .vector items l, s', h, level, i => by
    cases hR _ _ h with
    | vector hs =>
      rw [Resolving.quasi.eq_def, Resolving.quasi.eq_def]
      exact unlessConstant hR h level
        ((quasiItems true (fun i => literal (i := i) .nil _ _) items hs level).bind
          fun j e e' _ hlist => callGlobal _ _ _ (.cons hlist .nil))

theorem quasiItems (dotted : Bool) {last last' : Resolving Expr}
    (hlast : ∀ i, q.Resolves i last last') : (items : List Sexpr) → {items' : List Sexpr} →
      List.Forall₂ R items items' → (level : Nat) → {i : Stage} →
      q.Resolves i (Resolving.quasiItems expand dotted last items level)
        (Resolving.quasiItems expand' dotted last' items' level)
  | [], _, h, level, i => by
    cases h
    rw [Resolving.quasiItems, Resolving.quasiItems]
    exact hlast i
  | item :: rest, _, h, level, i => by
    cases h with
    | @cons _ item' _ rest' hitem hrest =>
      have element : q.Resolves i
          (do
            let cdr ← Resolving.quasiItems expand dotted last rest level
            match Resolving.spliced? (← get) level item with
            | some e => Resolving.callGlobal "append" [← expand e, cdr] item
            | none => return consExpr (← Resolving.quasi expand item level) cdr item)
          (do
            let cdr ← Resolving.quasiItems expand' dotted last' rest' level
            match Resolving.spliced? (← get) level item' with
            | some e => Resolving.callGlobal "append" [← expand' e, cdr] item'
            | none => return consExpr (← Resolving.quasi expand' item' level) cdr item') := by
        refine (quasiItems dotted hlast rest hrest level).bind fun j cdr cdr' _ hcdr => ?_
        refine .get_bind fun c d hcd => ?_
        have hspliced := spliced?_eq hR hcd level hitem
        generalize spliced? c level item = x, spliced? d level item' = y at hspliced
        cases hspliced with
        | none =>
          exact (quasi item hitem level).bind fun k e e' hjk hcar =>
            .pure (consExpr_alike hcar (lasts hjk hcdr) _ _)
        | some harg =>
          exact (he _ _ _ harg).bind fun k e e' hjk hcar =>
            callGlobal _ _ _ (.cons hcar (.cons (lasts hjk hcdr) .nil))
      rw [Resolving.quasiItems.eq_def, Resolving.quasiItems.eq_def]
      refine .get_bind fun c d hcd => ?_
      rw [levelMark?_eq hR hcd hitem]
      dsimp only
      generalize (dotted && level == 1 && levelMark? c item == some .unquote) = isTail
      rcases isTail with _ | _
      · exact element
      · rcases hrest with _ | ⟨hnext, _ | _⟩
        case cons.nil => exact he _ _ _ hnext
        all_goals exact element

end

end

/-! ### Expressions -/

section

variable {expand expand' : Expand} (he : q.Inside R expand expand')
  (hR : Sexpr.Likeness q.known R)

include he hR

theorem specialForm (form : SpecialForm) (name : String) (hs : List.Forall₂ R forms forms')
    (s s' : Sexpr) : q.Resolves i (Resolving.specialForm expand form name forms s)
      (Resolving.specialForm expand' form name forms' s') := by
  have hlength := hs.length_eq
  refine checkArity_bind hlength fun _ => ?_
  cases form with
  | quote =>
    rcases hs with _ | ⟨h, _ | ⟨_, _⟩⟩
    case cons.nil =>
      dsimp only
      rw [hR.toDatum _ h]
      exact literal _ _ _
    all_goals exact .throw _ _
  | quasiquote =>
    rcases hs with _ | ⟨h, _ | ⟨_, _⟩⟩
    case cons.nil => exact quasi hR he _ h 1
    all_goals exact .throw _ _
  | unquote | unquoteSplicing => exact .throw _ _
  | «if» =>
    rcases hs with _ | ⟨htest, _ | ⟨hconsequent, hrest⟩⟩
    case cons.cons =>
      refine (he _ _ _ htest).bind fun j e e' _ htest => ?_
      refine (he _ _ _ hconsequent).bind fun k c c' hjk hconsequent => ?_
      cases hrest with
      | nil => exact .pure (.branch (lasts hjk htest) hconsequent .none)
      | cons ha _ =>
        refine ((he _ _ _ ha).map (P := fun j => OptionalExpr.Alike (q.renumbering j) j.depth)
          fun _ _ _ _ h => .some h).bind fun l a a' hkl ha => .pure ?_
        exact .branch (lasts (le_trans hjk hkl) htest) (lasts hkl hconsequent) ha
    all_goals exact .throw _ _
  | cond => exact (clauses he hR hs).bind fun _ _ _ _ h => .pure (.cond h.1 h.2)
  | lambda =>
    rcases hs with _ | ⟨hps, hforms⟩
    · exact .throw _ _
    · refine (parameterItems hR hps).bind fun j p p' _ hp => ?_
      exact (lambda he hR hp.1 hp.2 hforms none _ _).bind fun _ _ _ _ hf => .pure (.lambda hf)
  | namedLambda =>
    rcases hs with _ | ⟨hps, hforms⟩
    · exact .throw _ _
    · exact namedLambda he hR hps hforms _ _
  | define => exact define he hR hs
  | assign =>
    rcases hs with _ | ⟨ht, _ | ⟨hv, _ | ⟨_, _⟩⟩⟩
    case cons.cons.nil => exact assign he hR ht hv
    all_goals exact .throw _ _
  | begin => exact (inOrder he hs).bind fun _ _ _ _ h => .pure (.sequence h)
  | «let» =>
    have hwhole := hs
    rcases hs with _ | ⟨hfirst, hrest⟩
    · exact .throw _ _
    · exact letForm he hR hfirst hrest hwhole
  | letStar =>
    rcases hs with _ | ⟨hb, hforms⟩
    · exact .throw _ _
    · exact (localBindings hR hb).bind fun j bs bs' _ hbs => letStar he hR hbs hforms _ _
  | letrec =>
    rcases hs with _ | ⟨hb, hforms⟩
    · exact .throw _ _
    · exact (localBindings hR hb).bind fun j bs bs' _ hbs => letrec he hR hbs hforms _ _
  | when =>
    rcases hs with _ | ⟨ht, hforms⟩
    · exact .throw _ _
    · exact conditional he false ht hforms _ _
  | «unless» =>
    rcases hs with _ | ⟨ht, hforms⟩
    · exact .throw _ _
    · exact conditional he true ht hforms _ _

theorem compound {head head' : Sexpr} (hhead : R head head') (hs : List.Forall₂ R forms forms')
    (s s' : Sexpr) : q.Resolves i (Resolving.compound expand head forms s)
      (Resolving.compound expand' head' forms' s') := by
  have hcall (i : Stage) : q.Resolves i
      (do
        let callee ← expand head
        return Expr.call callee (← forms.mapM expand) s.location)
      (do
        let callee ← expand' head'
        return Expr.call callee (← forms'.mapM expand') s'.location) := by
    refine (he _ _ _ hhead).bind fun j e e' _ hcallee => ?_
    exact (inOrder he hs).bind fun k es es' hjk hes => .pure (.call (lasts hjk hcallee) hes)
  unfold Resolving.compound
  rw [hR.identifier? hhead]
  cases hname : head.identifier? with
  | none =>
    dsimp only
    rw [pure_bind, pure_bind]
    exact hcall i
  | some name =>
    dsimp only
    rw [map_eq_pure_bind, bind_assoc, bind_assoc]
    refine primitive?_bind (hR.known_of_identifier? hhead hname) fun p => ?_
    rw [pure_bind, pure_bind]
    cases p with
    | none => exact hcall i
    | some p =>
      cases p with
      | form form => exact specialForm he hR form name hs s s'
      | operator op =>
        refine checkArity_bind hs.length_eq fun _ => ?_
        exact (inOrder he hs).bind fun _ _ _ _ h => .pure (.operation h)

theorem expandWith (h : Sexpr.Shape q.known R s s') (hdatum : s'.toDatum = s.toDatum) :
    q.Resolves i (Resolving.expandWith expand s) (Resolving.expandWith expand' s') := by
  cases h with
  | literal a l l' => exact literal _ _ _
  | identifier h l l' => exact (variableRef h _ _).bind fun _ _ _ _ hv => .pure (.reference hv)
  | dotted hs ht l l' => exact .throw _ _
  | vector hs l l' =>
    unfold Resolving.expandWith
    dsimp only
    rw [hdatum]
    exact literal _ _ _
  | list hs l l' =>
    cases hs with
    | nil => exact literal _ _ _
    | cons hhead hs => exact compound he hR hhead hs _ _

end

theorem expandWithin (q : Surroundings) (n n' : Nat) :
    q.Inside (Sexpr.Within q.known n n') (Resolving.expandWithin n)
      (Resolving.expandWithin n') := by
  induction n generalizing n' with
  | zero =>
    intro i s s' h
    exact absurd h.height (Nat.not_le.mpr s.height_pos)
  | succ n ih =>
    intro i s s' h
    cases n' with
    | zero => exact absurd h.height' (Nat.not_le.mpr s'.height_pos)
    | succ n' =>
      have hdatum := (Sexpr.likeness_within q.known _ _).toDatum s h
      exact expandWith (ih n') (Sexpr.likeness_within q.known n n') h.shape hdatum

end Surroundings

end RegisterScheme
