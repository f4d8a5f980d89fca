import RegisterScheme.Proofs.Evaluation.World
import RegisterScheme.Proofs.Generation.Alike
import RegisterScheme.Proofs.Value.Alike

/-! Two worlds that are the same but for the identities of what they hold. Neither the variables of
closures nor natives get to see the activations of the whole programs, so those may differ. -/

namespace RegisterScheme

/-- So many activations in a row, from the innermost on, that stand for each other. -/
inductive Correspondence.Encloses (κ : Correspondence) : Nat → Option Nat → Option Nat → Prop
  | outermost (p p' : Option Nat) : Encloses κ 0 p p'
  | inside {n e e' : Nat} {p p' : Option Nat} (here : κ.environments e p e' p')
      (around : Encloses κ n p p') : Encloses κ (n + 1) (some e) (some e')

/-- Scopes of expressions that are alike. Outside of procedures only the names of globals count. -/
def Scope.Alike (r : Renumbering) : Nat → Scope → Scope → Prop
  | 0, s, s' => ∀ i j, r.globals i j → ∃ b b', s.bindings[i]? = some b ∧
      s'.bindings[j]? = some b' ∧ b'.name = b.name
  | n + 1, s, s' => s' = s ∧ s.CapturesWithin (n + 1)

/-- Worlds with globals, closures and activations that stand for each other. Some objects of the
second are reserved for quotations. -/
structure World.Alike (reserved : Nat → Prop) (κ : Correspondence) (w w' : World) : Prop where
  oneToOne : κ.OneToOne
  globals : ∀ name, Option.Rel (Value.Alike κ) (w.globals name) (w'.globals name)
  objects : ∀ i j, κ.objects i j → i < w.nextObject ∧ j < w'.nextObject ∧ ¬ reserved j
  below : ∀ j, reserved j → j < w'.nextObject
  closures : ∀ c c', κ.closures c c' → ∃ (r : Renumbering) (n : Nat) (f f' : Function),
    w.procedures[c.address]? = some (f, c.parent) ∧
    w'.procedures[c'.address]? = some (f', c'.parent) ∧ f.Alike r (n + 1) f' ∧
    (∀ i j, r.objects i j → κ.objects i j) ∧ κ.Encloses n c.parent c'.parent
  environments : ∀ e p e' p', κ.environments e p e' p' → ∃ a a' : Environment,
    w.environments[e]? = some a ∧ w'.environments[e']? = some a' ∧ a.closure.parent = p ∧
    a'.closure.parent = p' ∧ ∀ q, (a.values q).Alike κ (a'.values q)

theorem getElem?_push_of_some {α : Type} {xs : Array α} {x y : α} {i : Nat}
    (h : xs[i]? = some y) : (xs.push x)[i]? = some y := by
  have hi : i < xs.size := (Array.getElem?_eq_some_iff.mp h).1
  rw [Array.getElem?_push, if_neg (Nat.ne_of_lt hi), h]

namespace Correspondence

variable {κ μ : Correspondence}

theorem Encloses.mono (h : κ ≤ μ) {n : Nat} {p p' : Option Nat} (he : κ.Encloses n p p') :
    μ.Encloses n p p' := by
  induction he with
  | outermost p p' => exact .outermost p p'
  | inside here _ ih => exact .inside (h.2.2 _ _ _ _ here) ih

/-- One more pair of closures. -/
def withClosure (κ : Correspondence) (c c' : Closure) : Correspondence :=
  { κ with closures := fun d d' => κ.closures d d' ∨ d = c ∧ d' = c' }

/-- One more pair of activations. -/
def withEnvironment (κ : Correspondence) (e : Nat) (p : Option Nat) (e' : Nat) (p' : Option Nat) :
    Correspondence :=
  { κ with environments := fun f q f' q' =>
      κ.environments f q f' q' ∨ f = e ∧ q = p ∧ f' = e' ∧ q' = p' }

theorem le_withClosure (κ : Correspondence) (c c' : Closure) : κ ≤ κ.withClosure c c' :=
  ⟨fun _ _ h => h, fun _ _ h => .inl h, fun _ _ _ _ h => h⟩

theorem le_withEnvironment (κ : Correspondence) (e : Nat) (p : Option Nat) (e' : Nat)
    (p' : Option Nat) : κ ≤ κ.withEnvironment e p e' p' :=
  ⟨fun _ _ h => h, fun _ _ h => h, fun _ _ _ _ h => .inl h⟩

end Correspondence

namespace World

variable {reserved : Nat → Prop} {κ μ : Correspondence} {w w' : World}

theorem globals_mono (h : κ ≤ μ)
    (hg : ∀ name, Option.Rel (Value.Alike κ) (w.globals name) (w'.globals name)) (name : String) :
    Option.Rel (Value.Alike μ) (w.globals name) (w'.globals name) := by
  have hname := hg name
  generalize w.globals name = x, w'.globals name = y at hname
  cases hname with
  | none => exact .none
  | some hv => exact .some (hv.mono h)

/-- What closures stand for each other is not changed by what else there is. -/
theorem Alike.closures_mono (hw : w.Alike reserved κ w') (h : κ ≤ μ) {v v' : World}
    (hv : ∀ (i : Nat) x, w.procedures[i]? = some x → v.procedures[i]? = some x)
    (hv' : ∀ (i : Nat) x, w'.procedures[i]? = some x → v'.procedures[i]? = some x) {c c' : Closure}
    (hc : κ.closures c c') : ∃ (r : Renumbering) (n : Nat) (f f' : Function),
      v.procedures[c.address]? = some (f, c.parent) ∧
      v'.procedures[c'.address]? = some (f', c'.parent) ∧ f.Alike r (n + 1) f' ∧
      (∀ i j, r.objects i j → μ.objects i j) ∧ μ.Encloses n c.parent c'.parent := by
  obtain ⟨r, n, f, f', hf, hf', halike, hobjects, hencloses⟩ := hw.closures c c' hc
  exact ⟨r, n, f, f', hv _ _ hf, hv' _ _ hf', halike, fun i j hij => h.1 i j (hobjects i j hij),
    hencloses.mono h⟩

theorem Alike.environments_mono (hw : w.Alike reserved κ w') (h : κ ≤ μ) {v v' : World}
    (hv : ∀ (i : Nat) x, w.environments[i]? = some x → v.environments[i]? = some x)
    (hv' : ∀ (i : Nat) x, w'.environments[i]? = some x → v'.environments[i]? = some x)
    {e e' : Nat} {p p' : Option Nat} (he : κ.environments e p e' p') : ∃ a a' : Environment,
      v.environments[e]? = some a ∧ v'.environments[e']? = some a' ∧ a.closure.parent = p ∧
      a'.closure.parent = p' ∧ ∀ q, (a.values q).Alike μ (a'.values q) := by
  obtain ⟨a, a', ha, ha', hp, hp', hvalues⟩ := hw.environments e p e' p' he
  exact ⟨a, a', hv _ _ ha, hv' _ _ ha', hp, hp', fun q => (hvalues q).mono h⟩

/-- Objects that are made on both sides stand for each other. -/
theorem Alike.withObjects (hw : w.Alike reserved κ w') (count : Nat) :
    Alike reserved (κ.withObjects w.nextObject w'.nextObject count)
      { w with nextObject := w.nextObject + count }
      { w' with nextObject := w'.nextObject + count } := by
  have hle := κ.le_withObjects w.nextObject w'.nextObject count
  refine ⟨⟨?_, hw.oneToOne.closures, hw.oneToOne.environments⟩, globals_mono hle hw.globals, ?_,
    fun j hj => Nat.lt_of_lt_of_le (hw.below j hj) (Nat.le_add_right _ _),
    fun c c' hc => hw.closures_mono hle (fun _ _ h => h) (fun _ _ h => h) hc,
    fun e p e' p' he => hw.environments_mono hle (fun _ _ h => h) (fun _ _ h => h) he⟩
  · rintro i j i' j' (hi | ⟨m, hm, rfl, rfl⟩) (hj | ⟨l, hl, rfl, rfl⟩)
    · exact hw.oneToOne.objects i j i' j' hi hj
    · have := hw.objects i i' hi
      omega
    · have := hw.objects j j' hj
      omega
    · omega
  · rintro i j (hij | ⟨m, hm, rfl, rfl⟩)
    · obtain ⟨hi, hj, hreserved⟩ := hw.objects i j hij
      exact ⟨Nat.lt_of_lt_of_le hi (Nat.le_add_right _ _),
        Nat.lt_of_lt_of_le hj (Nat.le_add_right _ _), hreserved⟩
    · refine ⟨Nat.add_lt_add_left hm _, Nat.add_lt_add_left hm _, fun hreserved => ?_⟩
      have := hw.below _ hreserved
      omega

end World

/-- Two worlds side by side. When both computations have failed, the worlds are still alike. -/
def World.pairing (reserved : Nat → Prop) : Pairing Correspondence World World where
  holds := World.Alike reserved
  fails w w' := ∃ κ, w.Alike reserved κ w'
  fails_of_holds κ _ _ h := ⟨κ, h⟩

namespace Evaluating

variable {reserved : Nat → Prop} {κ : Correspondence} {α β : Type}

/-- Two computations that do alike in worlds that are. -/
abbrev Alike (reserved : Nat → Prop) (κ : Correspondence) (x : Evaluating α) (y : Evaluating β)
    (Q : Correspondence → α → β → Prop) : Prop :=
  Alongside (World.pairing reserved) κ x y Q

theorem alike_located {x y : Evaluating α} {Q : Correspondence → α → α → Prop}
    (h : Alike reserved κ x y Q) (place place' : Option Location) :
    Alike reserved κ (located place x) (located place' y) Q :=
  h.rethrow _ _

theorem alike_inProcedure {x y : Evaluating α} {Q : Correspondence → α → α → Prop}
    (h : Alike reserved κ x y Q) (name name' : String) :
    Alike reserved κ (inProcedure name x) (inProcedure name' y) Q :=
  h.rethrow _ _

theorem alike_ofExcept {Q : α → β → Prop} {x : Except Failure α} {y : Except Failure β}
    (h : Agree Q x y) : Alike reserved κ (ofExcept x) (ofExcept y) fun _ => Q := by
  refine .ofAgree h (fun w => ?_) fun w => ?_
  · cases x <;> rfl
  · cases y <;> rfl

theorem alike_allocating {x y : Allocating Value} (h : Allocating.Alike κ x y) :
    Alike reserved κ (allocating x) (allocating y) Value.Alike := by
  constructor
  intro w w' hw
  have hrun := h w.nextObject w'.nextObject
  unfold allocating
  generalize x.run w.nextObject = r, y.run w'.nextObject = r' at hrun
  cases hrun with
  | error => exact .error ⟨κ, hw⟩
  | @ok p p' hp =>
    obtain ⟨v, next⟩ := p
    obtain ⟨v', next'⟩ := p'
    obtain ⟨count, rfl, rfl, hv⟩ := hp
    exact .ok (κ.le_withObjects _ _ _) (hw.withObjects count) hv

/-! ### Closures and activations -/

/-- New closures stand for each other from then on. -/
theorem alike_newClosure {r : Renumbering} {n : Nat} {f f' : Function} {p p' : Option Nat}
    (hf : f.Alike r (n + 1) f') (hr : ∀ i j, r.objects i j → κ.objects i j)
    (hp : κ.Encloses n p p') : Alike reserved κ (newClosure f p) (newClosure f' p')
      fun μ c c' => μ.closures c c' ∧ c.template.Alike c'.template := by
  constructor
  intro w w' hw
  have htemplate := hf.template
  unfold newClosure
  generalize f.template = x, f'.template = y at htemplate
  cases htemplate with
  | error => exact .error ⟨κ, hw⟩
  | @ok t t' ht =>
    let c : Closure := ⟨w.procedures.size, t, p⟩
    let c' : Closure := ⟨w'.procedures.size, t', p'⟩
    have hle := κ.le_withClosure c c'
    have hbelow {d d' : Closure} (hd : κ.closures d d') :
        d.address < w.procedures.size ∧ d'.address < w'.procedures.size := by
      obtain ⟨_, _, _, _, hg, hg', -⟩ := hw.closures d d' hd
      exact ⟨(Array.getElem?_eq_some_iff.mp hg).1, (Array.getElem?_eq_some_iff.mp hg').1⟩
    refine .ok (j := κ.withClosure c c') hle ?_ ⟨.inr ⟨rfl, rfl⟩, ht⟩
    refine ⟨⟨hw.oneToOne.objects, ?_, hw.oneToOne.environments⟩,
      World.globals_mono hle hw.globals, hw.objects, hw.below, ?_,
      fun e q e' q' he => hw.environments_mono hle (fun _ _ h => h) (fun _ _ h => h) he⟩
    · rintro d e d' e' (hd | ⟨rfl, rfl⟩) (he | ⟨rfl, rfl⟩)
      · exact hw.oneToOne.closures d e d' e' hd he
      · have := hbelow hd
        change d.address = w.procedures.size ↔ d'.address = w'.procedures.size
        omega
      · have := hbelow he
        change w.procedures.size = e.address ↔ w'.procedures.size = e'.address
        omega
      · exact ⟨fun _ => rfl, fun _ => rfl⟩
    · rintro d d' (hd | ⟨rfl, rfl⟩)
      · exact hw.closures_mono hle (fun _ _ h => getElem?_push_of_some h)
          (fun _ _ h => getElem?_push_of_some h) hd
      · exact ⟨r, n, f, f', Array.getElem?_push_size, Array.getElem?_push_size, hf, hr, hp.mono hle⟩

theorem alike_procedure {c c' : Closure} (h : κ.closures c c') :
    Alike reserved κ (procedure c) (procedure c') fun μ f f' => ∃ (r : Renumbering) (n : Nat),
      f.Alike r (n + 1) f' ∧ (∀ i j, r.objects i j → μ.objects i j) ∧
        μ.Encloses n c.parent c'.parent := by
  refine .get_bind fun w w' hw => ?_
  obtain ⟨r, n, f, f', hf, hf', halike⟩ := hw.closures c c' h
  rw [hf, hf']
  exact .pure ⟨r, n, halike⟩

/-- New activations stand for each other from then on. -/
theorem alike_enter (c c' : Closure) : Alike reserved κ (enter c) (enter c')
    fun μ e e' => μ.environments e c.parent e' c'.parent := by
  constructor
  intro w w' hw
  have hle := κ.le_withEnvironment w.environments.size c.parent w'.environments.size c'.parent
  have hbelow {e p e' p'} (he : κ.environments e p e' p') :
      e < w.environments.size ∧ e' < w'.environments.size := by
    obtain ⟨_, _, ha, ha', -⟩ := hw.environments e p e' p' he
    exact ⟨(Array.getElem?_eq_some_iff.mp ha).1, (Array.getElem?_eq_some_iff.mp ha').1⟩
  refine .ok hle ?_ (.inr ⟨rfl, rfl, rfl, rfl⟩)
  refine ⟨⟨hw.oneToOne.objects, hw.oneToOne.closures, ?_⟩, World.globals_mono hle hw.globals,
    hw.objects, hw.below,
    fun c c' hc => hw.closures_mono hle (fun _ _ h => h) (fun _ _ h => h) hc, ?_⟩
  · rintro e p f q e' p' f' q' (he | ⟨rfl, rfl, rfl, rfl⟩) (hf | ⟨rfl, rfl, rfl, rfl⟩)
    · exact hw.oneToOne.environments e p f q e' p' f' q' he hf
    · have := hbelow he
      omega
    · have := hbelow hf
      omega
    · exact ⟨fun _ => rfl, fun _ => rfl⟩
  · rintro e p e' p' (he | ⟨rfl, rfl, rfl, rfl⟩)
    · exact hw.environments_mono hle (fun _ _ h => getElem?_push_of_some h)
          (fun _ _ h => getElem?_push_of_some h) he
    · exact ⟨_, _, Array.getElem?_push_size, Array.getElem?_push_size, rfl, rfl,
        fun _ => .atom _⟩

/-! ### Variables -/

/-- Places that stand for each other. -/
inductive AlikePlaces (κ : Correspondence) : Place → Place → Prop
  | register {e e' : Nat} {p p' : Option Nat} (environment : κ.environments e p e' p')
      (q : Register) : AlikePlaces κ (.register e q) (.register e' q)
  | global (name : String) : AlikePlaces κ (.global name) (.global name)

theorem alike_environment {e e' : Nat} {p p' : Option Nat} (h : κ.environments e p e' p') :
    Alike reserved κ (environment e) (environment e') fun μ a a' => a.closure.parent = p ∧
      a'.closure.parent = p' ∧ ∀ q, (a.values q).Alike μ (a'.values q) := by
  refine .get_bind fun w w' hw => ?_
  obtain ⟨a, a', ha, ha', hvalues⟩ := hw.environments e p e' p' h
  rw [ha, ha']
  exact .pure hvalues

theorem alike_outward {n d : Nat} {p p' : Option Nat} (h : κ.Encloses n p p') (hd : d < n) :
    Alike reserved κ (outward d p) (outward d p') fun μ x x' => ∃ e e' q q',
      x = some e ∧ x' = some e' ∧ μ.environments e q e' q' := by
  induction d generalizing κ n p p' with
  | zero =>
    cases h with
    | outermost => cases hd
    | inside here around => exact .pure ⟨_, _, _, _, rfl, rfl, here⟩
  | succ d ih =>
    cases h with
    | outermost => cases hd
    | inside here around =>
      refine (alike_environment here).bind ?_
      rintro μ a a' hκ ⟨rfl, rfl, -⟩
      exact ih (around.mono hκ) (Nat.lt_of_succ_lt_succ hd)

theorem alike_place {r : Renumbering} {n here here' : Nat} {s s' : Scope} {v v' : VariableRef}
    (hv : v.Alike r n v') (hs : s.Alike r n s') (hp : κ.Encloses n (some here) (some here')) :
    Alike reserved κ (place here s v) (place here' s' v') fun μ => AlikePlaces μ := by
  cases n with
  | zero =>
    obtain ⟨i, j, rfl, rfl, hij⟩ := hv
    obtain ⟨b, b', hb, hb', hname⟩ := hs i j hij
    unfold place
    dsimp only
    rw [hb, hb']
    change Alike reserved κ (pure (Place.global b.name)) (pure (Place.global b'.name)) _
    rw [hname]
    exact .pure (.global _)
  | succ n =>
    obtain rfl : v = v' := hv
    obtain ⟨rfl, hcaptures⟩ := hs
    cases hp with
    | inside hhere haround =>
      cases v with
      | localVariable q => exact .pure (.register hhere q)
      | global slot =>
        unfold place
        dsimp only
        split
        · exact .pure (.global _)
        · exact .throw _ _
      | captured slot =>
        unfold place
        dsimp only
        split
        · rename_i name distance q hb
          obtain ⟨hpos, hlt⟩ := hcaptures name distance q (List.mem_of_getElem? hb)
          refine (alike_environment hhere).bind ?_
          rintro μ a a' hκ ⟨rfl, rfl, -⟩
          refine (alike_outward (haround.mono hκ) (by omega)).bind ?_
          rintro ν _ _ hμ ⟨e, e', p, p', rfl, rfl, he⟩
          exact .pure (.register he q)
        · exact .throw _ _

theorem alike_read {x x' : Place} (h : AlikePlaces κ x x') :
    Alike reserved κ (read x) (read x') Value.Alike := by
  cases h with
  | register he q => exact (alike_environment he).bind fun _ _ _ _ h => .pure (h.2.2 q)
  | global name =>
    refine .get_bind fun w w' hw => ?_
    have hname := hw.globals name
    generalize w.globals name = x, w'.globals name = y at hname
    cases hname with
    | none => exact .pure (.atom _)
    | some hv => exact .pure hv

theorem alike_write {x x' : Place} (h : AlikePlaces κ x x') {v v' : Value} (hv : v.Alike κ v') :
    Alike reserved κ (write x v) (write x' v') fun _ _ _ => True := by
  cases h with
  | @register e e' p p' he q =>
    refine (alike_environment he).bind fun μ _ _ hκ _ => ?_
    constructor
    intro w w' hw
    refine .ok (le_refl μ) ?_ trivial
    refine ⟨hw.oneToOne, hw.globals, hw.objects, hw.below, hw.closures, ?_⟩
    intro f p f' p' hf
    obtain ⟨a, a', ha, ha', hp, hp', hvalues⟩ := hw.environments f p f' p' hf
    have hsame := hw.oneToOne.environments _ _ _ _ _ _ _ _ (hκ.2.2 _ _ _ _ he) hf
    simp only [Array.getElem?_modify]
    by_cases hef : e = f
    · rw [if_pos hef, if_pos (hsame.mp hef), ha, ha']
      refine ⟨_, _, rfl, rfl, hp, hp', fun r => ?_⟩
      dsimp only
      split
      · exact hv.mono hκ
      · exact hvalues r
    · rw [if_neg hef, if_neg fun h => hef (hsame.mpr h)]
      exact ⟨a, a', ha, ha', hp, hp', hvalues⟩
  | global name =>
    constructor
    intro w w' hw
    refine .ok (le_refl κ) ?_ trivial
    refine ⟨hw.oneToOne, fun n => ?_, hw.objects, hw.below, hw.closures, hw.environments⟩
    by_cases hn : n = name
    · subst hn
      simpa using Option.Rel.some hv
    · simpa [hn] using hw.globals n

end Evaluating

end RegisterScheme
