import RegisterScheme.Proofs.Alongside
import RegisterScheme.Proofs.Expr.Alike
import RegisterScheme.Proofs.Expr.Toplevel

/-! The same forms in two programs: other forms stand before them in the one than in the other, so
that other names are globals already and other primitives are left. If what is a primitive is the
same in both, for the names that the forms mention, names mean the same in both; inside procedures
even the scopes are the same. -/

namespace RegisterScheme

open ScopeChain Resolving

/-- Captures in a row of scopes of procedures, innermost first, end at one of them. -/
def ScopesNested : List Scope → Prop
  | [] => True
  | s :: outer => s.CapturesWithin (outer.length + 1) ∧ ScopesNested outer

namespace Scope

variable {s t : Scope} {name : String} {level : Nat}

theorem CapturesWithin.empty (level : Nat) : Scope.empty.CapturesWithin level :=
  fun _ _ _ h => nomatch h

theorem CapturesWithin.append (h : s.CapturesWithin level) {b : Binding}
    (ht : t.bindings = s.bindings ++ [b])
    (hb : ∀ distance q, b.kind = .variable (.captured distance q) →
      0 < distance ∧ distance < level) : t.CapturesWithin level := by
  intro name distance q hmem
  rw [ht] at hmem
  rcases List.mem_append.mp hmem with hmem | hmem
  · exact h name distance q hmem
  · rw [List.mem_singleton] at hmem
    exact hb distance q (hmem ▸ rfl)

theorem CapturesWithin.define (h : s.CapturesWithin level) {kind : BindingKind}
    {location : Option Location} {slot : Nat} (ht : s.define name kind location = .ok (slot, t))
    (hk : ∀ distance q, kind = .variable (.captured distance q) → 0 < distance ∧ distance < level) :
    t.CapturesWithin level := by
  obtain ⟨-, -, rfl⟩ := define_eq_ok ht
  exact h.append rfl hk

/-- The place only tells where a binding fails. -/
theorem defineRegister_agree (s : Scope) (name : String) (kind : Register → VariableKind)
    (place place' : Option Location) : Agree Eq
      (s.defineRegister name kind place) (s.defineRegister name kind place') := by
  unfold defineRegister
  by_cases hb : s.binds name
  · rw [if_pos hb, if_pos hb]
    exact .error
  · rw [if_neg hb, if_neg hb]
    refine Agree.bind (.refl (fun _ => Eq.refl _) s.allocate) ?_
    rintro ⟨register, t⟩ _ rfl
    refine Agree.bind (Q := Eq) ?_ ?_
    · unfold define
      split
      · exact .error
      · exact .ok rfl
    · rintro p _ rfl
      exact .ok rfl

end Scope

namespace ScopeChain

variable {name : String} {inner tail : List Scope}

theorem findIn_append (name : String) (inner tail : List Scope) : findIn name (inner ++ tail) =
    match findIn name inner with
    | some found => some found
    | none => (findIn name tail).map fun (distance, found) => (distance + inner.length, found) := by
  induction inner with
  | nil =>
    rw [List.nil_append, findIn]
    simp
  | cons s inner ih =>
    rw [List.cons_append, findIn, findIn, ih]
    cases s.find? name with
    | some found => rfl
    | none =>
      cases findIn name inner with
      | some found => rfl
      | none =>
        dsimp only [Option.map_none]
        rw [Option.map_map]
        rfl

/-- Captures do not touch scopes that are further out. -/
theorem capture_append {r : Register} {n : Nat} (owner : Nat) (h : n ≤ inner.length) :
    capture name r n owner (inner ++ tail) =
      ((capture name r n owner inner).1, (capture name r n owner inner).2 ++ tail) := by
  induction n generalizing owner inner with
  | zero => cases inner <;> cases tail <;> rfl
  | succ n ih =>
    cases inner with
    | nil => cases h
    | cons s inner =>
      rw [List.cons_append, capture, ih (owner - 1) (Nat.le_of_succ_le_succ h), capture]
      cases capture name r n (owner - 1) inner with
      | mk result scopes =>
        cases result with
        | error e => rfl
        | ok slot =>
          dsimp only
          split
          · rfl
          · cases s.define name (.variable (.captured owner r)) none <;> rfl

theorem length_capture (name : String) (r : Register) (n owner : Nat) (scopes : List Scope) :
    (capture name r n owner scopes).2.length = scopes.length :=
  (grows_capture name r n owner scopes).length_eq.symm

theorem nested_capture {r : Register} {n owner : Nat} (h : ScopesNested inner) (hn : n ≤ owner)
    (ho : owner < inner.length) : ScopesNested (capture name r n owner inner).2 := by
  induction n generalizing owner inner with
  | zero => cases inner <;> exact h
  | succ n ih =>
    cases inner with
    | nil => exact h
    | cons s inner =>
      have howner : owner - 1 < inner.length := by
        rw [List.length_cons] at ho
        omega
      have hinner := ih h.2 (by omega) howner
      have hlength := length_capture name r n (owner - 1) inner
      rw [capture]
      cases hc : capture name r n (owner - 1) inner with
      | mk result scopes =>
        rw [hc] at hinner hlength
        have hs : s.CapturesWithin (scopes.length + 1) := hlength.symm ▸ h.1
        cases result with
        | error e => exact ⟨hs, hinner⟩
        | ok slot =>
          dsimp only
          split
          · exact ⟨hs, hinner⟩
          · cases hd : s.define name (.variable (.captured owner r)) none with
            | error e => exact ⟨hs, hinner⟩
            | ok p =>
              refine ⟨hs.define hd fun distance q hk => ?_, hinner⟩
              cases hk
              rw [List.length_cons] at ho
              exact ⟨by omega, by rw [hlength]; omega⟩

end ScopeChain

/-- Two programs around the same forms. -/
structure Surroundings where
  /-- The names that the forms may mention. -/
  known : String → Prop
  /-- The first objects of their quotations. -/
  first : Nat
  first' : Nat

/-- How far the forms are resolved in both programs. -/
structure Stage where
  /-- How many procedures there are around. -/
  depth : Nat
  /-- How many objects have been quoted. -/
  objects : Nat
  outline : Outline
  outline' : Outline

/-- An outline with perhaps more globals. -/
structure Outline.Extends (o p : Outline) : Prop where
  primitives : p.primitives = o.primitives
  globals : o.globals <+: p.globals

theorem Outline.Extends.refl (o : Outline) : o.Extends o := ⟨rfl, List.prefix_rfl⟩

theorem Outline.Extends.trans {o p q : Outline} (h : o.Extends p) (h' : p.Extends q) :
    o.Extends q :=
  ⟨h'.primitives.trans h.primitives, h.globals.trans h'.globals⟩

theorem Outline.extends_mention (o : Outline) (name : String) : o.Extends (o.mention name) := by
  refine ⟨mention_primitives o name, ?_⟩
  by_cases h : name ∈ o.globals
  · exact (mention_of_mem h).symm ▸ List.prefix_rfl
  · rw [mention_globals h]
    exact List.prefix_append _ _

theorem Outline.Extends.getElem? {o p : Outline} (h : o.Extends p) {slot : Nat} {name : String}
    (hs : o.globals[slot]? = some name) : p.globals[slot]? = some name := by
  obtain ⟨more, hmore⟩ := h.globals
  rw [← hmore, List.getElem?_append_left (List.getElem?_eq_some_iff.mp hs).1, hs]

instance : Preorder Stage where
  le i j := j.depth = i.depth ∧ i.objects ≤ j.objects ∧ i.outline.Extends j.outline ∧
    i.outline'.Extends j.outline'
  le_refl _ := ⟨rfl, Nat.le_refl _, .refl _, .refl _⟩
  le_trans _ _ _ h h' := ⟨h'.1.trans h.1, Nat.le_trans h.2.1 h'.2.1, h.2.2.1.trans h'.2.2.1,
    h.2.2.2.trans h'.2.2.2⟩

namespace Surroundings

variable (q : Surroundings)

/-- What stands for what at a stage. -/
def renumbering (i : Stage) : Renumbering where
  objects a b := ∃ m < i.objects, a = q.first + m ∧ b = q.first' + m
  globals slot slot' := ∃ name, i.outline.globals[slot]? = some name ∧
    i.outline'.globals[slot']? = some name

/-- The scopes of the procedures are the same, and around them is a scope of globals. The names that
matter are the same primitives. -/
inductive Holds : Stage → ScopeChain → ScopeChain → Prop
  | intro {inner : List Scope} (n : Nat) {o o' : Outline} {shadowed : List String}
      (shadowed' : List String)
      (nested : ScopesNested inner)
      (agree : ∀ name, q.known name → o'.primitive? name = o.primitive? name)
      (globals : ∀ name ∈ shadowed, name ∈ o.globals) :
      Holds ⟨inner.length, n, o, o'⟩
        ⟨o.primitives, inner ++ [o.scope shadowed], q.first + n⟩
        ⟨o'.primitives, inner ++ [o'.scope shadowed'], q.first' + n⟩

def pairing : Pairing Stage ScopeChain ScopeChain :=
  ⟨q.Holds, fun _ _ => True, fun _ _ _ _ => trivial⟩

/-- Two resolutions of the same expression. -/
abbrev Resolves (i : Stage) (x y : Resolving Expr) : Prop :=
  Alongside q.pairing i x y fun j e e' => e.Alike (q.renumbering j) j.depth e'

variable {q} {i j : Stage}

theorem renumbering_mono (h : i ≤ j) : q.renumbering i ≤ q.renumbering j := by
  refine ⟨?_, ?_⟩
  · rintro a b ⟨m, hm, ha, hb⟩
    exact ⟨m, Nat.lt_of_lt_of_le hm h.2.1, ha, hb⟩
  · rintro slot slot' ⟨name, hs, hs'⟩
    exact ⟨name, h.2.2.1.getElem? hs, h.2.2.2.getElem? hs'⟩

end Surroundings

namespace Outline

variable {o : Outline} {inner : List Scope} {shadowed : List String} {name : String}

/-- What names no scope of a procedure binds are found as: globals of the outline. -/
theorem findIn_scope (name : String) (inner : List Scope) :
    (findIn name inner = none → findIn name (inner ++ [o.scope shadowed]) =
      ((o.scope shadowed).find? name).map fun found => (inner.length, found)) ∧
    ∀ found, findIn name inner = some found →
      findIn name (inner ++ [o.scope shadowed]) = some found := by
  constructor
  · intro h
    rw [findIn_append, h, findIn]
    cases (o.scope shadowed).find? name with
    | none => rfl
    | some found => simp
  · intro found h
    rw [findIn_append, h]

theorem primitive?_chain (o : Outline) (inner : List Scope) (shadowed : List String) (next : Nat)
    (name : String) :
    ScopeChain.primitive? ⟨o.primitives, inner ++ [o.scope shadowed], next⟩ name =
      match findIn name inner with
      | some (_, _, ⟨_, .primitive p⟩) => some p
      | some _ => none
      | none => o.primitive? name := by
  unfold ScopeChain.primitive?
  cases h : findIn name inner with
  | some found =>
    dsimp only
    rw [(findIn_scope name inner).2 found h]
    obtain ⟨distance, slot, n, kind⟩ := found
    cases kind <;> rfl
  | none =>
    dsimp only
    rw [(findIn_scope name inner).1 h, Outline.primitive?]
    cases hf : (o.scope shadowed).find? name with
    | none =>
      rw [if_neg (find?_scope_eq_none.mp hf)]
      rfl
    | some found =>
      obtain ⟨slot, n, kind⟩ := found
      obtain ⟨hkind, hmem⟩ := find?_scope hf
      obtain rfl : kind = .variable .global := hkind
      rw [if_pos hmem]
      rfl

/-- Outside of procedures a name that becomes a global is one of the outline. -/
theorem bindGlobal_scope (o : Outline) (shadowed : List String) (next : Nat) (name : String) :
    ∃ slot, bindGlobal name ⟨o.primitives, [o.scope shadowed], next⟩ =
      .ok slot ⟨(o.mention name).primitives, [(o.mention name).scope shadowed], next⟩ ∧
      (o.mention name).globals[slot]? = some name := by
  have hcurrent : current ⟨o.primitives, [o.scope shadowed], next⟩ =
    .ok (o.scope shadowed) ⟨o.primitives, [o.scope shadowed], next⟩ := rfl
  cases hf : (o.scope shadowed).find? name with
  | none =>
    have hn : name ∉ o.globals := find?_scope_eq_none.mp hf
    have hdefine := Scope.define_of_not_binds (.variable .global) none (Scope.find?_eq_none.mp hf)
    refine ⟨(o.scope shadowed).bindings.length, ?_, ?_⟩
    · rw [bindGlobal, bind_of_ok hcurrent, hf]
      dsimp only
      rw [update_eq rfl, hdefine, add_scope hn, mention_primitives]
    · rw [mention_globals hn]
      simp [scope]
  | some found =>
    obtain ⟨slot, n, kind⟩ := found
    obtain ⟨hkind, hmem⟩ := find?_scope hf
    obtain rfl : kind = .variable .global := hkind
    refine ⟨slot, ?_, ?_⟩
    · rw [bindGlobal, bind_of_ok hcurrent, hf, mention_of_mem hmem]
      rfl
    · obtain ⟨hb, rfl⟩ := Scope.find?_eq_some hf
      rw [mention_of_mem hmem]
      simpa [scope] using hb

end Outline

namespace Outline

variable {o : Outline} {inner : List Scope} {shadowed : List String} {name : String}

theorem primitive?_mention (o : Outline) (name n : String) :
    (o.mention name).primitive? n = if n = name then none else o.primitive? n := by
  unfold primitive?
  rw [mention_primitives]
  by_cases hname : name ∈ o.globals
  · rw [mention_of_mem hname]
    by_cases hn : n = name
    · rw [if_pos hn, hn, if_pos hname]
    · rw [if_neg hn]
  · rw [mention_globals hname]
    by_cases hn : n = name <;> simp [hn]

theorem mem_mention (o : Outline) (name : String) : name ∈ (o.mention name).globals := by
  by_cases h : name ∈ o.globals
  · rwa [mention_of_mem h]
  · rw [mention_globals h]
    exact List.mem_append_right _ (List.mem_singleton_self name)

/-- A name that no scope of a procedure binds is a primitive or a global. -/
theorem resolve_chain (next : Nat) (h : findIn name inner = none) :
    resolve name ⟨o.primitives, inner ++ [o.scope shadowed], next⟩ =
      (match o.primitive? name with
        | some p => return .primitive p
        | none => return .global (← bindGlobal name) : Resolving Resolution)
        ⟨o.primitives, inner ++ [o.scope shadowed], next⟩ := by
  rw [resolve, bind_of_ok (x := get) rfl, (findIn_scope name inner).1 h, Outline.primitive?]
  cases hf : (o.scope shadowed).find? name with
  | none =>
    rw [if_neg (find?_scope_eq_none.mp hf)]
    dsimp only [Option.map_none]
    refine (congrFun (if_neg (by simp)) _).trans ?_
    cases o.primitives.find? name <;> rfl
  | some found =>
    obtain ⟨slot, n, kind⟩ := found
    obtain ⟨hkind, hmem⟩ := find?_scope hf
    obtain rfl : kind = .variable .global := hkind
    rw [if_pos hmem]
    cases inner with
    | nil =>
      have hcurrent : current ⟨o.primitives, [] ++ [o.scope shadowed], next⟩ =
        .ok (o.scope shadowed) ⟨o.primitives, [] ++ [o.scope shadowed], next⟩ := rfl
      have hrun : bindGlobal name ⟨o.primitives, [] ++ [o.scope shadowed], next⟩ =
          .ok slot ⟨o.primitives, [] ++ [o.scope shadowed], next⟩ := by
        rw [bindGlobal, bind_of_ok hcurrent, hf]
        rfl
      have hglobal := bind_of_ok (f := fun slot => pure (Resolution.global slot)) hrun
      exact hglobal.symm
    | cons s inner => rfl

theorem shadow_chain (o : Outline) (shadowed : List String) (next : Nat) (name : String) :
    ∃ more, shadowPrimitive name ⟨o.primitives, [o.scope shadowed], next⟩ =
        .ok () ⟨o.primitives, [o.scope more], next⟩ ∧
      ∀ n, n ∈ more ↔ n ∈ shadowed ∨ n = name := by
  obtain ⟨more, hmore, hmem⟩ := o.shadow_scope shadowed name
  refine ⟨more, ?_, hmem⟩
  rw [shadowPrimitive, update_eq rfl, hmore]

end Outline

/-- What a name means in two programs. Inside procedures only primitives and bindings of the same
scope can be meant. -/
inductive Resolution.Alike (r : Renumbering) (level : Nat) : Resolution → Resolution → Prop
  | primitive (p : Primitive) : Alike r level (.primitive p) (.primitive p)
  | global {slot slot' : Nat} (h : (VariableRef.global slot).Alike r level (.global slot')) :
      Alike r level (.global slot) (.global slot')
  | localVariable (register : Register) (slot : Nat) (h : level ≠ 0) :
      Alike r level (.localVariable register slot) (.localVariable register slot)
  | captured (slot : Nat) (h : level ≠ 0) : Alike r level (.captured slot) (.captured slot)

theorem VariableRef.Alike.rfl {r : Renumbering} {level : Nat} (h : level ≠ 0) (v : VariableRef) :
    v.Alike r level v := by
  cases level with
  | zero => exact absurd (Eq.refl 0) h
  | succ level => exact Eq.refl v

namespace Surroundings

variable {q : Surroundings} {i j : Stage} {α β : Type} {name : String}

theorem primitive?_eq {c d : ScopeChain} (h : q.Holds i c d) (hn : q.known name) :
    d.primitive? name = c.primitive? name := by
  cases h with
  | intro _ _ _ agree => rw [Outline.primitive?_chain, Outline.primitive?_chain, agree name hn]

theorem primitive?_bind {f : Option Primitive → Resolving α} {g : Option Primitive → Resolving β}
    {Q : Stage → α → β → Prop} (hn : q.known name)
    (h : ∀ p, Alongside q.pairing i (f p) (g p) Q) :
    Alongside q.pairing i (primitive? name >>= f) (primitive? name >>= g) Q := by
  constructor
  intro c d hcd
  have hc : primitive? name c = .ok (c.primitive? name) c := rfl
  have hd : primitive? name d = .ok (c.primitive? name) d := by
    rw [← primitive?_eq hcd hn]
    rfl
  rw [bind_of_ok hc, bind_of_ok hd]
  exact (h _).outcome c d hcd

theorem located {x : Resolving α} {y : Resolving β} {Q : Stage → α → β → Prop}
    (h : Alongside q.pairing i x y Q) (place place' : Option Location) :
    Alongside q.pairing i (Resolving.located place x) (Resolving.located place' y) Q :=
  h.rethrow _ _

/-- A change of the innermost scope, if that is the scope of a procedure. -/
theorem update {f g : Scope → Except Error (α × Scope)} (hi : i.depth ≠ 0)
    (hfg : ∀ s, Agree Eq (f s) (g s))
    (hf : ∀ s a t level, f s = .ok (a, t) → s.CapturesWithin level → t.CapturesWithin level) :
    Alongside q.pairing i (Resolving.update f) (Resolving.update g) fun _ => Eq := by
  constructor
  intro c d h
  cases h with
  | @intro inner n o o' shadowed shadowed' nested agree globals =>
    cases inner with
    | nil => exact absurd rfl hi
    | cons s inner =>
      rw [List.cons_append, List.cons_append, update_eq rfl, update_eq rfl]
      have hs := hfg s
      generalize hr : f s = r at hs
      generalize g s = r' at hs
      cases hs with
      | error => exact .error trivial
      | @ok p p' hp =>
        subst hp
        have hnested : ScopesNested (p.2 :: inner) := ⟨hf s p.1 p.2 _ hr nested.1, nested.2⟩
        exact .ok (le_refl _) (.intro _ _ hnested agree globals) rfl

theorem defineRegister (hi : i.depth ≠ 0) (name : String) {kind : Register → VariableKind}
    (hk : ∀ r distance r', kind r ≠ .captured distance r') (place place' : Option Location) :
    Alongside q.pairing i (Resolving.update (·.defineRegister name kind place))
      (Resolving.update (·.defineRegister name kind place')) fun _ => Eq := by
  refine update hi (fun s => Scope.defineRegister_agree s name kind place place') ?_
  rintro s ⟨slot, r⟩ t level ht hs
  obtain ⟨-, -, -, -, rfl⟩ := Scope.defineRegister_eq_ok ht
  refine hs.append rfl fun distance r' hb => ?_
  exact absurd (BindingKind.variable.inj hb) (hk r distance r')

theorem defineArgument (hi : i.depth ≠ 0) (name : String) (kind : ParameterKind)
    (place place' : Option Location) : Alongside q.pairing i
      (Resolving.defineArgument name kind place) (Resolving.defineArgument name kind place')
      fun _ => Eq :=
  defineRegister hi name (by simp) place place'

theorem defineLocal (hi : i.depth ≠ 0) (name : String) (place place' : Option Location) :
    Alongside q.pairing i (Resolving.defineLocal name place) (Resolving.defineLocal name place')
      fun _ => Eq :=
  defineRegister hi name (by simp) place place'

/-- The innermost scope, if that is the scope of a procedure. -/
theorem current (hi : i.depth ≠ 0) :
    Alongside q.pairing i Resolving.current Resolving.current fun _ => Eq := by
  constructor
  intro c d h
  cases h with
  | @intro inner _ _ _ _ _ nested agree globals =>
    cases inner with
    | nil => exact absurd rfl hi
    | cons s inner =>
      rw [List.cons_append, List.cons_append]
      exact .ok (le_refl _) (.intro _ _ nested agree globals) rfl

/-- A global in the innermost scope. Outside of procedures it is one of the program from then on. -/
theorem bindGlobal (name : String) : Alongside q.pairing i (Resolving.bindGlobal name)
    (Resolving.bindGlobal name) fun j slot slot' =>
      (VariableRef.global slot).Alike (q.renumbering j) j.depth (.global slot') ∧
        (i.depth = 0 → name ∈ j.outline.globals) := by
  by_cases hi : i.depth = 0
  · constructor
    intro c d h
    cases h with
    | @intro inner n o o' shadowed shadowed' nested agree globals =>
      obtain rfl : inner = [] := List.length_eq_zero_iff.mp hi
      obtain ⟨slot, hrun, hslot⟩ := o.bindGlobal_scope shadowed (q.first + n) name
      obtain ⟨slot', hrun', hslot'⟩ := o'.bindGlobal_scope shadowed' (q.first' + n) name
      have hle : (⟨0, n, o, o'⟩ : Stage) ≤ ⟨0, n, o.mention name, o'.mention name⟩ :=
        ⟨rfl, Nat.le_refl n, o.extends_mention name, o'.extends_mention name⟩
      refine Alongside.answers hrun hrun' hle (.intro _ _ nested ?_ ?_)
        ⟨?_, fun _ => o.mem_mention name⟩
      · intro x hx
        rw [Outline.primitive?_mention, Outline.primitive?_mention, agree x hx]
      · exact fun x hx => (o.extends_mention name).globals.subset (globals x hx)
      · exact ⟨slot, slot', rfl, rfl, name, hslot, hslot'⟩
  · refine .bind (current hi) ?_
    rintro j s _ hij rfl
    have hj : j.depth ≠ 0 := hij.1 ▸ hi
    have hsame (k : Stage) (hk : k.depth ≠ 0) (slot : Nat) :
        (VariableRef.global slot).Alike (q.renumbering k) k.depth (.global slot) ∧
          (i.depth = 0 → name ∈ k.outline.globals) :=
      ⟨.rfl hk _, fun h => absurd h hi⟩
    split
    · exact .pure (hsame j hj _)
    · exact .throw _ _
    · refine (update hj (fun s => .refl (fun _ => rfl) _) ?_).mono ?_
      · intro s slot t level ht hs
        exact hs.define ht fun _ _ hk => nomatch hk
      · rintro k slot _ hjk rfl
        exact hsame k (hjk.1 ▸ hj) slot

theorem captureFrom {distance owner : Nat} {r : Register} (hle : distance ≤ owner)
    (ho : owner < i.depth) : Alongside q.pairing i
      (Resolving.captureFrom name distance owner r) (Resolving.captureFrom name distance owner r)
      fun j => Resolution.Alike (q.renumbering j) j.depth := by
  constructor
  intro c d h
  cases h with
  | @intro inner n o o' shadowed shadowed' nested agree globals =>
    have hdistance : distance ≤ inner.length := Nat.le_trans hle (Nat.le_of_lt ho)
    have hlength := length_capture name r distance owner inner
    have hnested : ScopesNested (capture name r distance owner inner).2 :=
      nested_capture nested hle ho
    have hi : inner.length ≠ 0 := Nat.ne_of_gt (Nat.lt_of_le_of_lt (Nat.zero_le _) ho)
    have hholds := Holds.intro (q := q) n shadowed' hnested agree globals
    have hrun (tail : List Scope) (primitives : Primitives) (next : Nat) :
        capture name r distance owner (⟨primitives, inner ++ tail, next⟩ : ScopeChain).scopes = _ :=
      capture_append owner hdistance
    rw [hlength] at hholds
    cases hc : (capture name r distance owner inner).1 with
    | error e =>
      have herror (tail : Scope) (primitives : Primitives) (next : Nat) :=
        captureFrom_of_error ((congrArg Prod.fst (hrun [tail] primitives next)).trans hc)
      rw [herror, herror]
      exact .error trivial
    | ok slot =>
      have hok (tail : Scope) (primitives : Primitives) (next : Nat) :=
        captureFrom_of_ok ((congrArg Prod.fst (hrun [tail] primitives next)).trans hc)
      rw [hok, hok, hrun, hrun]
      exact .ok (le_refl _) hholds (.captured slot hi)

/-- A name that is found in the scope of a procedure. -/
theorem findIn_some {inner : List Scope} (hn : ScopesNested inner) {distance slot : Nat}
    {b : Binding} (h : findIn name inner = some (distance, slot, b)) : distance < inner.length ∧
      ∀ further r, b.kind = .variable (.captured further r) →
        distance + further < inner.length := by
  obtain ⟨rfl, ⟨s, hs, hb⟩, -⟩ := findIn_eq_some h
  clear h
  induction inner generalizing distance with
  | nil => cases hs
  | cons t inner ih =>
    cases distance with
    | zero =>
      cases hs
      refine ⟨Nat.succ_pos _, fun further r hk => ?_⟩
      have hmem := List.mem_of_getElem? hb
      have hcaptures := hn.1 b.name further r (by rw [← hk]; exact hmem)
      rw [List.length_cons]
      omega
    | succ distance =>
      obtain ⟨hlt, hcaptured⟩ := ih hn.2 hs
      refine ⟨Nat.succ_lt_succ hlt, fun further r hk => ?_⟩
      have := hcaptured further r hk
      rw [List.length_cons]
      omega

theorem resolve (hn : q.known name) : Alongside q.pairing i (Resolving.resolve name)
    (Resolving.resolve name) fun j => Resolution.Alike (q.renumbering j) j.depth := by
  constructor
  intro c d h
  have hglobal (i : Stage) : Alongside q.pairing i
      (do return Resolution.global (← Resolving.bindGlobal name))
      (do return Resolution.global (← Resolving.bindGlobal name))
      fun j => Resolution.Alike (q.renumbering j) j.depth :=
    (bindGlobal name).bind fun j slot slot' _ h => .pure (.global h.1)
  generalize hi : i = k at h
  cases h with
  | @intro inner n o o' shadowed shadowed' nested agree globals =>
    subst hi
    have hholds := Holds.intro (q := q) n shadowed' nested agree globals
    cases hf : findIn name inner with
    | none =>
      rw [Outline.resolve_chain _ hf, Outline.resolve_chain _ hf, agree name hn]
      cases o.primitive? name with
      | some p => exact (Alongside.pure (.primitive p)).outcome _ _ hholds
      | none => exact (hglobal _).outcome _ _ hholds
    | some found =>
      obtain ⟨distance, slot, _, kind⟩ := found
      obtain ⟨hlt, hcaptured⟩ := findIn_some nested hf
      have hdepth : inner.length ≠ 0 := Nat.ne_of_gt (Nat.lt_of_le_of_lt (Nat.zero_le _) hlt)
      rw [Resolving.resolve, bind_of_ok (x := get) rfl, bind_of_ok (x := get) rfl,
        (Outline.findIn_scope name inner).2 _ hf, (Outline.findIn_scope name inner).2 _ hf]
      refine Alongside.outcome ?_ _ _ hholds
      rcases kind with p | kind
      · exact .pure (.primitive p)
      · cases kind with
        | global =>
          cases distance with
          | zero => exact .pure (.global (.rfl hdepth _))
          | succ distance => exact hglobal _
        | argument r k =>
          cases distance with
          | zero => exact .pure (.localVariable r slot hdepth)
          | succ distance => exact captureFrom (Nat.le_refl _) hlt
        | localVariable r =>
          cases distance with
          | zero => exact .pure (.localVariable r slot hdepth)
          | succ distance => exact captureFrom (Nat.le_refl _) hlt
        | captured further r =>
          cases distance with
          | zero => exact .pure (.captured slot hdepth)
          | succ distance =>
            have howner := hcaptured further r rfl
            have hdepth (tail : Scope) (primitives : Primitives) (next : Nat) :
                ¬ ScopeChain.depth ⟨primitives, inner ++ [tail], next⟩ ≤
                  distance + 1 + further := by
              simp only [ScopeChain.depth, List.length_append]
              omega
            change Alongside _ _ (if _ ≤ _ then _ else _) (if _ ≤ _ then _ else _) _
            rw [if_neg (hdepth _ _ _), if_neg (hdepth _ _ _)]
            exact captureFrom (Nat.le_add_right _ _) howner

end Surroundings

end RegisterScheme
