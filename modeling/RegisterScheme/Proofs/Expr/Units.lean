import RegisterScheme.Proofs.Correctness.Redefinition
import RegisterScheme.Proofs.Expr.SurroundedPrograms
import RegisterScheme.Proofs.Expr.Walk

/-! A program in two parts, resolved as a whole and one part after the other. What the parts stand
for is the same both times, unless the first makes a primitive a global that it does not define, and
the second mentions that. -/

namespace RegisterScheme

open ScopeChain Resolving

/-- Expressions in order; a single one stands for itself. -/
def Expr.inRow : List Expr → Option Location → Expr
  | [e], _ => e
  | es, l => .sequence es l

theorem Resolving.sequence_eq (expand : Expand) (forms : List Sexpr) (place : Option Location) :
    Resolving.sequence expand forms place = (Expr.inRow · place) <$> forms.mapM expand := by
  rcases forms with _ | ⟨form, _ | ⟨second, rest⟩⟩ <;> simp [Resolving.sequence, Expr.inRow]

/-- A program of some expressions, which are not in any procedure. -/
structure Function.Consists (f : Function) (es : List Expr) : Prop where
  parameters : f.parameters = .none
  body : ∃ place, f.body = .inRow es place
  globals : ∀ b ∈ f.scope.bindings, b.kind = .variable .global

theorem Outline.kind_of_mem {o : Outline} {shadowed : List String} {b : Binding}
    (h : b ∈ (o.scope shadowed).bindings) : b.kind = .variable .global := by
  obtain ⟨name, -, rfl⟩ := List.mem_map.mp h
  rfl

/-- The expressions of a program in its outermost scope. -/
theorem Function.mapM_of_ofProgram {primitives : Primitives} {first next : Nat}
    {forms : List Sexpr} {f : Function}
    (h : Function.ofProgram primitives first forms = .ok (f, next)) : ∃ es d,
      forms.mapM (expandWithin (Sexpr.heightOfItems forms)) ⟨primitives, [.empty], first⟩ =
        .ok es d ∧
      ∀ (o : Outline) shadowed, d.scopes = [o.scope shadowed] →
        f.Consists es ∧ f.scope = o.scope shadowed ∧ next = d.nextObject := by
  rw [Function.ofProgram] at h
  let c : ScopeChain := ⟨primitives, [.empty], first⟩
  cases hrun : forms.mapM (expandWithin (Sexpr.heightOfItems forms)) c with
  | error e d =>
    have hsequence : Resolving.sequence (expandWithin (Sexpr.heightOfItems forms)) forms
        (forms.head?.bind Sexpr.location) c = .error e d := by
      rw [Resolving.sequence_eq, map_eq_pure_bind, bind_of_error hrun]
    obtain ⟨e', d', hfails⟩ := inScope_fails (c := .start primitives first) hsequence
    rw [Resolving.program, bind_of_error hfails] at h
    cases h
  | ok es d =>
    refine ⟨es, d, rfl, fun o shadowed hs => ?_⟩
    have hsequence : Resolving.sequence (expandWithin (Sexpr.heightOfItems forms)) forms
        (forms.head?.bind Sexpr.location) c =
          .ok (.inRow es (forms.head?.bind Sexpr.location)) d := by
      rw [Resolving.sequence_eq, map_eq_pure_bind, bind_of_ok hrun]
      rfl
    have hscope := inScope_of_ok (c := .start primitives first) hsequence hs
    rw [Resolving.program, bind_of_ok hscope] at h
    cases h
    exact ⟨⟨rfl, ⟨_, rfl⟩, fun b hb => Outline.kind_of_mem hb⟩, rfl, rfl⟩

/-- The scope of a program is that of its outline. -/
theorem Function.scope_of_ofProgram {primitives : Primitives} {first next : Nat}
    {forms : List Sexpr} {f : Function}
    (h : Function.ofProgram primitives first forms = .ok (f, next)) : ∃ shadowed,
      f.scope = (Outline.ofProgram primitives forms).scope shadowed ∧
      ∀ name, name ∈ shadowed ↔ name ∈ (Outline.ofProgram primitives forms).defined ∧
        (primitives.find? name).isSome := by
  rw [Function.ofProgram] at h
  cases hprogram : Resolving.program forms (.start primitives first) with
  | error e c =>
    rw [hprogram] at h
    cases h
  | ok f' c =>
    rw [hprogram] at h
    cases h
    exact Follows.program_scope hprogram

/-- Objects from two numbers on, so many, and the slots of the same names in two scopes. -/
def Renumbering.between (s s' : Scope) (first first' count : Nat) : Renumbering where
  objects a b := ∃ m < count, a = first + m ∧ b = first' + m
  globals slot slot' := ∃ name, s.bindings[slot]? = some ⟨name, .variable .global⟩ ∧
    s'.bindings[slot']? = some ⟨name, .variable .global⟩

theorem Surroundings.renumbering_le {q : Surroundings} {i : Stage} {o : Outline}
    (ho : i.outline'.Extends o) (shadowed shadowed' : List String) : q.renumbering i ≤
      .between (i.outline.scope shadowed) (o.scope shadowed') q.first q.first' i.objects := by
  refine ⟨fun a b h => h, ?_⟩
  rintro slot slot' ⟨name, hs, hs'⟩
  exact ⟨name, by simp [Outline.scope, hs], by simp [Outline.scope, ho.getElem? hs']⟩

theorem length_of_mapM {ε σ α β : Type} {f : α → EStateM ε σ β} {as : List α} {bs : List β}
    {s t : σ} (h : as.mapM f s = .ok bs t) : bs.length = as.length := by
  induction as generalizing bs s with
  | nil =>
    cases h
    rfl
  | cons a as ih =>
    rw [List.mapM_cons] at h
    obtain ⟨b, u, -, hrest⟩ := answers_of_bind h
    obtain ⟨cs, v, has, hbs⟩ := answers_of_bind hrest
    cases hbs
    rw [List.length_cons, List.length_cons, ih has]

/-- Forms that are resolved in one program are in the other. -/
theorem Surroundings.Holds.mapM {q : Surroundings} {i : Stage} {c c' d : ScopeChain}
    (h : q.Holds i c c') {n n' : Nat} {forms forms' : List Sexpr}
    (hforms : List.Forall₂ (Sexpr.Within q.known n n') forms forms') {es : List Expr}
    (hes : forms.mapM (Resolving.expandWithin n) c = .ok es d) : ∃ es' d' j,
      forms'.mapM (Resolving.expandWithin n') c' = .ok es' d' ∧ i ≤ j ∧ q.Holds j d d' ∧
      Exprs.Alike (q.renumbering j) j.depth es es' := by
  have hmeets := (Surroundings.inOrder (q.expandWithin n n') hforms).outcome c c' h
  rw [hes] at hmeets
  generalize hes' : forms'.mapM (Resolving.expandWithin n') c' = r at hmeets
  cases hmeets with
  | ok hij hholds halike => exact ⟨_, _, _, rfl, hij, hholds, halike⟩

/-- Outside of procedures there is one scope on either side. -/
theorem Surroundings.Holds.toplevel {q : Surroundings} {i : Stage} {c c' : ScopeChain}
    (h : q.Holds i c c') (hi : i.depth = 0) : ∃ shadowed shadowed',
      c = ⟨i.outline.primitives, [i.outline.scope shadowed], q.first + i.objects⟩ ∧
      c' = ⟨i.outline'.primitives, [i.outline'.scope shadowed'], q.first' + i.objects⟩ ∧
      (∀ name, q.known name → i.outline'.primitive? name = i.outline.primitive? name) ∧
      ∀ name ∈ shadowed, name ∈ i.outline.globals := by
  cases h with
  | @intro inner n o o' shadowed shadowed' nested agree globals =>
    obtain rfl : inner = [] := List.length_eq_zero_iff.mp hi
    exact ⟨shadowed, shadowed', rfl, rfl, agree, globals⟩

theorem Outline.globals_of_scope {o p : Outline} {shadowed shadowed' : List String}
    (h : o.scope shadowed = p.scope shadowed') : o.globals = p.globals := by
  have hbindings : o.globals.map _ = p.globals.map _ := congrArg Scope.bindings h
  exact List.map_injective_iff.mpr (fun _ _ hname => congrArg Binding.name hname) hbindings

/-- Names mean the same behind the first part, whether that is a program of its own or not. -/
theorem Outline.primitive?_of_known {primitives : Primitives} {o o' : Outline} {name : String}
    {shadowed : List String} (ho : o.primitives = primitives)
    (ho' : o'.primitive? name = o.primitive? name)
    (hshadowed : name ∈ shadowed ↔ name ∈ o.globals ∧ (primitives.find? name).isSome) :
    o'.primitive? name =
      (Outline.start (shadowed.foldl Primitives.erase primitives)).primitive? name := by
  rw [ho', Outline.primitive?, Outline.primitive?, ho]
  change _ = if name ∈ [] then none else (shadowed.foldl Primitives.erase primitives).find? name
  rw [if_neg List.not_mem_nil, Primitives.find?_foldl_erase]
  by_cases hname : name ∈ o.globals
  · rw [if_pos hname]
    cases hp : primitives.find? name with
    | none => rw [ite_self]
    | some p => rw [if_pos (hshadowed.mpr ⟨hname, by rw [hp]; rfl⟩)]
  · rw [if_neg hname, if_neg fun h => hname (hshadowed.mp h).1]

/-- The whole program has the expressions of both parts, with other objects and slots. -/
theorem Function.ofProgram_units {primitives : Primitives} {first next first' next' : Nat}
    {fs fs' gs gs' : List Sexpr} {f g h : Function} {last : Nat}
    (hfs : List.Forall₂ Sexpr.Alike fs fs') (hgs : List.Forall₂ Sexpr.Alike gs gs')
    (hf : Function.ofProgram primitives first fs = .ok (f, next))
    (hg : Function.ofProgram (f.scope.shadowed.foldl Primitives.erase primitives) first' gs =
      .ok (g, next'))
    (hh : Function.ofProgram primitives first (fs' ++ gs') = .ok (h, last))
    (hknown : ∀ name ∈ Sexpr.namesOfItems gs, (primitives.find? name).isSome →
      name ∈ (Outline.ofProgram primitives fs).globals →
      name ∈ (Outline.ofProgram primitives fs).defined) :
    ∃ es es' ds ds' m n, f.Consists es ∧ g.Consists ds ∧ h.Consists (es' ++ ds') ∧
      es'.length = fs.length ∧ ds'.length = gs.length ∧
      next = first + m ∧ next' = first' + n ∧ last = next + n ∧
      Exprs.Alike (.between f.scope h.scope first first m) 0 es es' ∧
      Exprs.Alike (.between g.scope h.scope first' next n) 0 ds ds' := by
  obtain ⟨es, c, hes, hfrun⟩ := Function.mapM_of_ofProgram hf
  obtain ⟨ds, d, hds, hgrun⟩ := Function.mapM_of_ofProgram hg
  obtain ⟨all, e, hall, hhrun⟩ := Function.mapM_of_ofProgram hh
  obtain ⟨hheight, hheight'⟩ := Nat.max_le.mp
    (Nat.le_of_eq (Sexpr.heightOfItems_append fs' gs').symm)
  rw [List.mapM_append] at hall
  -- the first part, from the same scope
  let q : Surroundings := ⟨fun _ => True, first, first⟩
  have hstart : q.Holds ⟨0, 0, .start primitives, .start primitives⟩
      ⟨primitives, [.empty], first⟩ ⟨primitives, [.empty], first⟩ :=
    .intro 0 [] (show ScopesNested [] from trivial) (fun _ _ => rfl) (fun _ hn => nomatch hn)
  have hforms : List.Forall₂ (Sexpr.Within q.known _ _) fs fs' :=
    Sexpr.Within.items hfs (fun _ _ => trivial) (Nat.le_refl _) hheight
  obtain ⟨es', c', i, hes', hi, hholds, halike⟩ := hstart.mapM hforms hes
  obtain ⟨shadowed, shadowed', rfl, rfl, hagree, hglobals⟩ := hholds.toplevel hi.1
  obtain ⟨hconsists, hscope, rfl⟩ := hfrun i.outline shadowed rfl
  obtain ⟨defined, hsame, hdefined⟩ := Function.scope_of_ofProgram hf
  -- the second part, from an empty scope and from the scope that the first has left
  let q' : Surroundings :=
    ⟨fun name => name ∈ Sexpr.namesOfItems gs, first', first + i.objects⟩
  have hstart' : q'.Holds ⟨0, 0, .start (shadowed.foldl Primitives.erase primitives), i.outline'⟩
      ⟨shadowed.foldl Primitives.erase primitives, [.empty], first'⟩
      ⟨i.outline'.primitives, [i.outline'.scope shadowed'], first + i.objects⟩ := by
    refine .intro 0 shadowed' (show ScopesNested [] from trivial) (fun name hname => ?_)
      fun _ hn => nomatch hn
    refine Outline.primitive?_of_known hi.2.2.1.primitives (hagree name trivial) ?_
    rw [Outline.globals_of_scope (hscope.symm.trans hsame)]
    obtain rfl : shadowed = defined := congrArg Scope.shadowed (hscope.symm.trans hsame)
    refine ⟨fun h => ⟨?_, ((hdefined name).mp h).2⟩, fun h => ?_⟩
    · rw [← Outline.globals_of_scope (hscope.symm.trans hsame)]
      exact hglobals name h
    · exact (hdefined name).mpr ⟨hknown name hname h.2 h.1, h.2⟩
  have hforms' : List.Forall₂ (Sexpr.Within q'.known _ _) gs gs' :=
    Sexpr.Within.items hgs (fun _ hn => hn) (Nat.le_refl _) hheight'
  rw [hscope] at hds
  obtain ⟨ds', d', j, hds', hj, hholds', halike'⟩ := hstart'.mapM hforms' hds
  obtain ⟨shadowedD, shadowedD', rfl, rfl, -, -⟩ := hholds'.toplevel hj.1
  rw [bind_of_ok hes', bind_of_ok hds'] at hall
  cases hall
  obtain ⟨hconsistsG, hscopeG, rfl⟩ := hgrun j.outline shadowedD rfl
  obtain ⟨hconsistsH, hscopeH, rfl⟩ := hhrun j.outline' shadowedD' rfl
  refine ⟨es, es', ds, ds', i.objects, j.objects, hconsists, hconsistsG, hconsistsH, ?_, ?_,
    rfl, rfl, rfl, ?_, ?_⟩
  · rw [length_of_mapM hes', hfs.length_eq]
  · rw [length_of_mapM hds', hgs.length_eq]
  · rw [hscope, hscopeH]
    have hlast := halike.mono (Surroundings.renumbering_le (q := q) (i := i) hj.2.2.2 shadowed
      shadowedD')
    rwa [hi.1] at hlast
  · rw [hscopeG, hscopeH]
    have hlast := halike'.mono (Surroundings.renumbering_le (.refl _) shadowedD shadowedD')
    rwa [hj.1] at hlast

end RegisterScheme
