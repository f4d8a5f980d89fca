import RegisterScheme.Proofs.Scope.Surroundings
import RegisterScheme.Proofs.Sexpr.Alike

/-! The same forms in two programs are resolved to the same expressions, at other places, with other
objects in their quotations and other slots for the globals of the program. -/

namespace RegisterScheme

open ScopeChain Resolving

/-- Parameters of a procedure, so many deep, with the same variables and defaults that are alike. -/
structure Parameters.Alike (r : Renumbering) (n : Nat) (p p' : Parameters Function) : Prop where
  required : p'.required = p.required
  rest : p'.rest = p.rest
  optional : Defaults.Alike r (n + 1) p.optional p'.optional
  keys : Defaults.Alike r (n + 1) p.keys p'.keys

theorem Parameters.none_alike (r : Renumbering) (n : Nat) : Parameters.Alike r n .none .none :=
  ⟨rfl, rfl, .nil, .nil⟩

theorem Parameters.Alike.mono {r s : Renumbering} (hrs : r ≤ s) {n : Nat}
    {p p' : Parameters Function}
    (h : p.Alike r n p') : p.Alike s n p' :=
  ⟨h.required, h.rest, h.optional.mono hrs, h.keys.mono hrs⟩

/-- In one more procedure. -/
def Stage.inside (i : Stage) : Stage := { i with depth := i.depth + 1 }

theorem Stage.le_inside {i j : Stage} (h : i.inside ≤ j) :
    ∃ k, i ≤ k ∧ j = k.inside :=
  ⟨{ j with depth := i.depth }, ⟨rfl, h.2⟩, by
    obtain ⟨depth, objects, outline, outline'⟩ := j
    obtain rfl : depth = i.depth + 1 := h.1
    rfl⟩

theorem Stage.inside_ne_zero (i : Stage) : i.inside.depth ≠ 0 := Nat.succ_ne_zero _

/-- A computation that fails in a new scope fails. -/
theorem Resolving.inScope_fails {α : Type} {act : Resolving α} {c d : ScopeChain} {e : Failure}
    (h : act { c with scopes := .empty :: c.scopes } = .error e d) :
    ∃ e' d', inScope act c = .error e' d' := by
  cases hs : d.scopes with
  | cons s outer => exact ⟨_, _, inScope_of_error h hs⟩
  | nil =>
    have hcaught := tryCatch_of_error (f := fun f => do let _ ← pop; throw f) h
    have hpop := hcaught.trans (bind_of_error (pop_of_nil hs))
    have hpush : push c = .ok () { c with scopes := .empty :: c.scopes } := rfl
    exact ⟨_, _, by rw [inScope, bind_of_ok hpush, bind_of_error hpop]⟩

namespace Surroundings

variable {q : Surroundings} {i j k : Stage} {α β γ δ : Type} {name : String} {s s' : Sexpr}

theorem lasts (h : j ≤ k) {e e' : Expr} (he : e.Alike (q.renumbering j) j.depth e') :
    e.Alike (q.renumbering k) k.depth e' := by
  rw [h.1]
  exact he.mono (renumbering_mono h)

theorem all_last (h : j ≤ k) {es es' : List Expr}
    (hes : Exprs.Alike (q.renumbering j) j.depth es es') :
    Exprs.Alike (q.renumbering k) k.depth es es' := by
  rw [h.1]
  exact hes.mono (renumbering_mono h)

theorem target_lasts (h : j ≤ k) {v v' : VariableRef} (hv : v.Alike (q.renumbering j) j.depth v') :
    v.Alike (q.renumbering k) k.depth v' := by
  rw [h.1]
  exact hv.mono (renumbering_mono h)

/-! ### Variables and scopes -/

theorem checkArity_bind {arity : Arity} {operands operands' : List Sexpr}
    {f : Unit → Resolving α} {g : Unit → Resolving β} {Q : Stage → α → β → Prop}
    (hlength : operands.length = operands'.length)
    (h : arity.accepts operands.length → Alongside q.pairing i (f ()) (g ()) Q) :
    Alongside q.pairing i (checkArity name arity operands s >>= f)
      (checkArity name arity operands' s' >>= g) Q := by
  unfold checkArity
  rw [← hlength]
  split
  · rename_i haccepts
    exact h haccepts
  · exact .throw_bind _ _

theorem literal (d : Datum) (s s' : Sexpr) :
    q.Resolves i (Resolving.literal d s) (Resolving.literal d s') := by
  constructor
  intro c c' h
  cases h with
  | @intro inner n o o' shadowed shadowed' nested agree globals =>
    have hle : (⟨inner.length, n, o, o'⟩ : Stage) ≤ ⟨inner.length, n + d.objects, o, o'⟩ :=
      ⟨rfl, Nat.le_add_right _ _, .refl o, .refl o'⟩
    have hholds := Holds.intro (q := q) (n + d.objects) shadowed' nested agree globals
    have halike : Quotation.Alike (q.renumbering ⟨inner.length, n + d.objects, o, o'⟩)
        ⟨q.first + n, d⟩ ⟨q.first' + n, d⟩ :=
      ⟨rfl, fun m hm => ⟨n + m, Nat.add_lt_add_left hm n, Nat.add_assoc _ _ _, Nat.add_assoc _ _ _⟩⟩
    rw [← Nat.add_assoc, ← Nat.add_assoc] at hholds
    exact Alongside.answers rfl rfl hle hholds (.literal halike)

theorem global (name : String) (s s' : Sexpr) : Alongside q.pairing i (Resolving.global name s)
    (Resolving.global name s') fun j v v' =>
      v.Alike (q.renumbering j) j.depth v' ∧ (i.depth = 0 → name ∈ j.outline.globals) :=
  (located (bindGlobal name) _ _).bind fun _ _ _ _ h => .pure h

theorem variableRef (hn : q.known name) (s s' : Sexpr) :
    Alongside q.pairing i (Resolving.variableRef name s) (Resolving.variableRef name s')
      fun j v v' => v.Alike (q.renumbering j) j.depth v' := by
  refine (located (resolve hn) _ _).bind fun j x y _ h => ?_
  cases h with
  | primitive p =>
    cases p with
    | form form => exact .throw _ _
    | operator op =>
      dsimp only
      split
      · exact (global name s s').mono fun _ _ _ _ h => h.1
      · exact .throw _ _
  | global h => exact .pure h
  | localVariable r slot hj => exact .pure (.rfl hj _)
  | captured slot hj => exact .pure (.rfl hj _)

/-- Outside of procedures, what is recorded of a global makes no difference to resolution. -/
theorem shadow (hi : i.depth = 0) (hn : name ∈ i.outline.globals) (shadows shadows' : Bool) :
    Alongside q.pairing i (if shadows then shadowPrimitive name else return)
      (if shadows' then shadowPrimitive name else return) fun _ _ _ => True := by
  constructor
  intro c d h
  cases h with
  | @intro inner n o o' shadowed shadowed' nested agree globals =>
    obtain rfl : inner = [] := List.length_eq_zero_iff.mp hi
    have hrun (o : Outline) (shadowed : List String) (next : Nat) (shadows : Bool) :
        ∃ more, (if shadows then shadowPrimitive name else return : Resolving Unit)
            ⟨o.primitives, [o.scope shadowed], next⟩ = .ok () ⟨o.primitives, [o.scope more], next⟩ ∧
          ∀ x ∈ more, x ∈ shadowed ∨ x = name := by
      cases shadows with
      | false => exact ⟨shadowed, rfl, fun x hx => .inl hx⟩
      | true =>
        obtain ⟨more, hrun, hmem⟩ := o.shadow_chain shadowed next name
        exact ⟨more, hrun, fun x hx => (hmem x).mp hx⟩
    obtain ⟨more, hmore, hmem⟩ := hrun o shadowed (q.first + n) shadows
    obtain ⟨more', hmore', -⟩ := hrun o' shadowed' (q.first' + n) shadows'
    refine Alongside.answers hmore hmore' (le_refl _)
      (.intro _ _ nested agree fun x hx => ?_) trivial
    rcases hmem x hx with hx | rfl
    · exact globals x hx
    · exact hn

theorem definitionTarget (name : String) (s s' : Sexpr) :
    Alongside q.pairing i (Resolving.definitionTarget name s) (Resolving.definitionTarget name s')
      fun j v v' => v.Alike (q.renumbering j) j.depth v' := by
  refine .get_bind fun c d h => ?_
  have htop (c : ScopeChain) (tail : Scope) {inner : List Scope}
      (hc : c.scopes = inner ++ [tail]) : c.isTopLevel = (inner.length == 0) := by
    simp [isTopLevel, depth, hc]
  generalize hi : i = k at h
  cases h with
  | @intro inner n o o' shadowed shadowed' nested agree globals =>
    have hdepth : i.depth = inner.length := congrArg Stage.depth hi
    rw [htop _ _ rfl, htop _ _ rfl, ← hi, ← hdepth]
    by_cases hzero : i.depth = 0
    · have hdefine (shadows : Bool) (v : VariableRef) : (if shadows then do
            shadowPrimitive name
            return v
          else return v) = (do
            (if shadows then shadowPrimitive name else return : Resolving Unit)
            return v) := by
        cases shadows <;> rfl
      rw [hzero, if_pos (beq_self_eq_true 0), if_pos (beq_self_eq_true 0)]
      refine (global name s s').bind fun j v v' hij hv => ?_
      have hj : j.depth = 0 := hij.1.trans hzero
      rw [hdefine, hdefine]
      refine (shadow hj (hv.2 hzero) _ _).bind fun k _ _ hjk _ => ?_
      exact .pure (target_lasts hjk hv.1)
    · rw [if_neg (by simpa using hzero), if_neg (by simpa using hzero)]
      refine (current hzero).bind ?_
      rintro j scope _ hij rfl
      have hj : j.depth ≠ 0 := hij.1 ▸ hzero
      split
      · exact .pure (.rfl hj _)
      · exact .throw _ _
      · exact .throw _ _
      · refine (defineLocal hj name _ _).bind ?_
        rintro k ⟨slot, r⟩ _ hjk rfl
        exact .pure (.rfl (hjk.1 ▸ hj) _)

/-- A computation in a new scope, and the scope as it has left it. -/
theorem inScope {act : Resolving α} {act' : Resolving β} {Q : Stage → α → β → Prop}
    (h : Alongside q.pairing i.inside act act' Q) :
    Alongside q.pairing i (Resolving.inScope act) (Resolving.inScope act') fun j p p' =>
      Q j.inside p.1 p'.1 ∧ p'.2 = p.2 ∧ p.2.CapturesWithin j.inside.depth := by
  constructor
  intro c d hcd
  have hpush : q.Holds i.inside { c with scopes := .empty :: c.scopes }
      { d with scopes := .empty :: d.scopes } := by
    cases hcd with
    | @intro inner n o o' shadowed shadowed' nested agree globals =>
      have hnested : ScopesNested (.empty :: inner) := ⟨.empty _, nested⟩
      exact .intro _ _ hnested agree globals
  have hact := h.outcome _ _ hpush
  generalize hr : act { c with scopes := .empty :: c.scopes } = r at hact
  generalize hr' : act' { d with scopes := .empty :: d.scopes } = r' at hact
  cases hact with
  | error =>
    obtain ⟨e, c', he⟩ := inScope_fails hr
    obtain ⟨e', d', he'⟩ := inScope_fails hr'
    rw [he, he']
    exact .error trivial
  | @ok j a b c' d' hij hholds hq =>
    obtain ⟨k, hik, rfl⟩ := Stage.le_inside hij
    generalize hk : k.inside = j at hholds
    cases hholds with
    | @intro inner _ _ _ _ shadowed' nested agree globals =>
      obtain ⟨depth, objects, outline, outline'⟩ := k
      cases inner with
      | nil => cases hk
      | cons scope inner =>
        cases hk
        have hholds := Holds.intro (q := q) objects shadowed' nested.2 agree globals
        exact Alongside.answers (inScope_of_ok hr rfl) (inScope_of_ok hr' rfl) hik hholds
          ⟨hq, rfl, nested.1⟩

/-- A procedure in a scope of its own. -/
theorem procedure {declare declare' : Resolving (Parameters Function)}
    {build build' : Resolving Expr}
    (hd : Alongside q.pairing i.inside declare declare'
      fun j p p' => p.Alike (q.renumbering j) j.depth p')
    (hb : ∀ j, i.inside ≤ j → q.Resolves j build build') (name : Option String)
    (place place' : Option Location) :
    Alongside q.pairing i (Resolving.procedure name place declare build)
      (Resolving.procedure name place' declare' build')
      fun j f f' => f.Alike (q.renumbering j) (j.depth + 1) f' := by
  refine (inScope (Q := fun j p p' => p.1.Alike (q.renumbering j) j.depth p'.1 ∧
    p.2.Alike (q.renumbering j) j.depth p'.2) ?_).bind ?_
  · refine hd.bind fun j p p' hij hp => (hb j hij).bind fun k e e' hjk he => .pure ⟨?_, he⟩
    dsimp only
    rw [hjk.1]
    exact hp.mono (renumbering_mono hjk)
  · rintro j ⟨⟨p, e⟩, scope⟩ ⟨⟨p', e'⟩, scope'⟩ hij ⟨⟨hp, he⟩, hscope, hcaptures⟩
    exact .pure (.intro rfl hscope hcaptures hp.required hp.rest hp.optional hp.keys he)

end Surroundings

end RegisterScheme
