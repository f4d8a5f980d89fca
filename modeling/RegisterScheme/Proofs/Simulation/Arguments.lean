import RegisterScheme.Machine.Arguments
import RegisterScheme.Proofs.Outcome

/-! Arguments are dealt out in one way however the defaults of parameters are known, and only to
the registers of the parameters. -/

namespace RegisterScheme

variable {δ δ' : Type} {D : δ → δ' → Prop}

/-- The same parameter, with defaults that correspond. -/
structure Formal.Matches (D : δ → δ' → Prop) (p : Formal δ) (q : Formal δ') : Prop where
  name : p.name = q.name
  register : p.register = q.register
  default : Option.Rel D p.default q.default

/-- The same parameters in the same order. -/
structure Formals.Matches (D : δ → δ' → Prop) (F : Formals δ) (G : Formals δ') : Prop where
  required : F.required = G.required
  positional : List.Forall₂ (Formal.Matches D) F.positional G.positional
  takesKeys : F.takesKeys = G.takesKeys
  keys : List.Forall₂ (Formal.Matches D) F.keys G.keys
  rest : F.rest = G.rest

/-- The same values in the same registers, and defaults that correspond. -/
structure Dealing.Matches (D : δ → δ' → Prop) (x : Dealing δ) (y : Dealing δ') : Prop where
  values : x.values = y.values
  rest : x.rest = y.rest
  defaults : List.Forall₂ (fun a b => a.1 = b.1 ∧ D a.2 b.2) x.defaults y.defaults

/-- All registers of parameters lie below a bound. -/
structure Formals.Within (F : Formals δ) (bound : Nat) : Prop where
  positional : ∀ p ∈ F.positional, p.register.val < bound
  keys : ∀ p ∈ F.keys, p.register.val < bound
  rest : ∀ r ∈ F.rest, r.val < bound

theorem Formals.Within.mono {F : Formals δ} {bound bound' : Nat} (h : F.Within bound)
    (hb : bound ≤ bound') : F.Within bound' :=
  ⟨fun p hp => Nat.lt_of_lt_of_le (h.positional p hp) hb,
    fun p hp => Nat.lt_of_lt_of_le (h.keys p hp) hb,
    fun r hr => Nat.lt_of_lt_of_le (h.rest r hr) hb⟩

/-- Only arguments are dealt out, to registers below a bound. -/
structure Dealing.Within (x : Dealing δ) (bound : Nat) (args : List Value) : Prop where
  values : ∀ p ∈ x.values, p.1.val < bound ∧ p.2 ∈ args
  rest : ∀ p ∈ x.rest, p.1.val < bound ∧ ∀ v ∈ p.2, v ∈ args
  defaults : ∀ p ∈ x.defaults, p.1.val < bound

namespace Dealing

variable {ps : List (Formal δ)} {qs : List (Formal δ')}

theorem default_matches {p : Formal δ} {q : Formal δ'} (h : p.Matches D q) :
    Option.Rel (fun a b => a.1 = b.1 ∧ D a.2 b.2) (p.default.map fun d => (p.register, d))
      (q.default.map fun d => (q.register, d)) := by
  obtain ⟨-, hr, hd⟩ := h
  generalize p.default = x at hd
  generalize q.default = y at hd
  cases hd with
  | none => exact .none
  | some hd => exact .some ⟨hr, hd⟩

theorem forall₂_toList {α β : Type} {R : α → β → Prop} {x : Option α} {y : Option β}
    (h : Option.Rel R x y) : List.Forall₂ R x.toList y.toList := by
  cases h with
  | none => exact .nil
  | some h => exact .cons h .nil

theorem positional_matches (h : List.Forall₂ (Formal.Matches D) ps qs) (vs : List Value) :
    (positional ps vs).1 = (positional qs vs).1 ∧
      List.Forall₂ (fun a b => a.1 = b.1 ∧ D a.2 b.2) (positional ps vs).2.1
        (positional qs vs).2.1 ∧
      (positional ps vs).2.2 = (positional qs vs).2.2 := by
  induction h generalizing vs with
  | nil => exact ⟨rfl, .nil, rfl⟩
  | cons hp _ ih =>
    cases vs with
    | nil =>
      obtain ⟨hv, hd, he⟩ := ih []
      exact ⟨hv, List.rel_append (forall₂_toList (default_matches hp)) hd, he⟩
    | cons v vs =>
      obtain ⟨hv, hd, he⟩ := ih vs
      exact ⟨congrArg₂ List.cons (congrArg (·, v) hp.register) hv, hd, he⟩

theorem find?_matches (h : List.Forall₂ (Formal.Matches D) ps qs) (name : String) :
    Option.Rel (Formal.Matches D) (ps.find? fun p => p.name == name)
      (qs.find? fun q => q.name == name) := by
  induction h with
  | nil => exact .none
  | cons hp _ ih =>
    rw [List.find?_cons, List.find?_cons, hp.name]
    split
    · exact .some hp
    · exact ih

theorem keyed_matches (h : List.Forall₂ (Formal.Matches D) ps qs) :
    (vs : List Value) → keyed ps vs = keyed qs vs
  | [] => rfl
  | [_] => rfl
  | k :: v :: vs => by
    rw [keyed, keyed]
    cases keyword? k with
    | none => rfl
    | some name =>
      dsimp only
      have hfind := find?_matches h name
      generalize ps.find? (fun p => p.name == name) = x at hfind
      generalize qs.find? (fun p => p.name == name) = y at hfind
      cases hfind with
      | none => rfl
      | some hp => simp only [hp.register, keyed_matches h vs]

theorem missing_matches (h : List.Forall₂ (Formal.Matches D) ps qs)
    (given : List (Register × Value)) :
    List.Forall₂ (fun a b => a.1 = b.1 ∧ D a.2 b.2) (missing ps given) (missing qs given) := by
  refine List.rel_filterMap (R := Formal.Matches D) (fun p q hp => ?_) h
  rw [hp.register]
  split
  · exact .none
  · exact hp.register ▸ default_matches hp

theorem ofArguments_eq (F : Formals δ) (args : List Value) :
    ofArguments F args =
      if args.length < F.required then .error .count
      else if F.takesKeys then
        if (positional F.positional args).2.2.length % 2 ≠ 0 then .error .unpaired
        else (keyed F.keys (positional F.positional args).2.2).map fun given =>
          ⟨(positional F.positional args).1 ++ firstValues given,
            F.rest.map fun r => (r, (positional F.positional args).2.2),
            (positional F.positional args).2.1 ++ missing F.keys (firstValues given)⟩
      else if F.rest.isNone && !(positional F.positional args).2.2.isEmpty then .error .count
      else .ok ⟨(positional F.positional args).1,
        F.rest.map fun r => (r, (positional F.positional args).2.2),
        (positional F.positional args).2.1⟩ := by
  unfold ofArguments
  generalize positional F.positional args = p
  obtain ⟨values, defaults, extra⟩ := p
  dsimp only
  by_cases hcount : args.length < F.required
  · rw [if_pos hcount, if_pos hcount]
    rfl
  · rw [if_neg hcount, if_neg hcount]
    cases F.takesKeys with
    | true =>
      by_cases hodd : extra.length % 2 ≠ 0
      · simp only [if_true, if_pos hodd]
        rfl
      · simp only [if_true, if_neg hodd]
        cases keyed F.keys extra <;> rfl
    | false => rfl

theorem ofArguments_matches {F : Formals δ} {G : Formals δ'} (h : F.Matches D G)
    (args : List Value) :
    (∃ e, ofArguments F args = .error e ∧ ofArguments G args = .error e) ∨
      ∃ x y, ofArguments F args = .ok x ∧ ofArguments G args = .ok y ∧ x.Matches D y := by
  obtain ⟨hv, hd, he⟩ := positional_matches h.positional args
  rw [ofArguments_eq, ofArguments_eq, h.required, h.takesKeys, h.rest, keyed_matches h.keys, hv, he]
  split
  · exact .inl ⟨.count, rfl, rfl⟩
  · split
    · split
      · exact .inl ⟨.unpaired, rfl, rfl⟩
      · cases keyed G.keys (positional G.positional args).2.2 with
        | error e => exact .inl ⟨e, rfl, rfl⟩
        | ok given =>
          exact .inr ⟨_, _, rfl, rfl, rfl, rfl, List.rel_append hd (missing_matches h.keys _)⟩
    · split
      · exact .inl ⟨.count, rfl, rfl⟩
      · exact .inr ⟨_, _, rfl, rfl, rfl, rfl, hd⟩

variable {bound : Nat}

theorem default_within {p : Formal δ} (h : p.register.val < bound) :
    ∀ d ∈ p.default.map fun d => (p.register, d), d.1.val < bound := by
  intro d hd
  obtain ⟨x, -, rfl⟩ := Option.map_eq_some_iff.mp hd
  exact h

theorem positional_within (h : ∀ p ∈ ps, p.register.val < bound) (vs : List Value) :
    (∀ p ∈ (positional ps vs).1, p.1.val < bound ∧ p.2 ∈ vs) ∧
      (∀ p ∈ (positional ps vs).2.1, p.1.val < bound) ∧ (positional ps vs).2.2 ⊆ vs := by
  induction ps generalizing vs with
  | nil => exact ⟨by simp [positional], by simp [positional], List.Subset.refl vs⟩
  | cons p ps ih =>
    obtain ⟨hp, hps⟩ := List.forall_mem_cons.mp h
    cases vs with
    | nil =>
      obtain ⟨hv, hd, he⟩ := ih hps []
      refine ⟨hv, fun d hd' => ?_, he⟩
      obtain hd' | hd' := List.mem_append.mp hd'
      · exact default_within hp d (Option.mem_toList.mp hd')
      · exact hd d hd'
    | cons v vs =>
      obtain ⟨hv, hd, he⟩ := ih hps vs
      refine ⟨List.forall_mem_cons.mpr ⟨⟨hp, List.mem_cons_self⟩, fun q hq => ?_⟩, hd,
        fun u hu => List.mem_cons_of_mem _ (he hu)⟩
      exact ⟨(hv q hq).1, List.mem_cons_of_mem _ (hv q hq).2⟩

theorem keyed_within (h : ∀ p ∈ ps, p.register.val < bound) :
    (vs : List Value) → ∀ given, keyed ps vs = .ok given →
      ∀ p ∈ given, p.1.val < bound ∧ p.2 ∈ vs
  | [], _, rfl => by simp
  | [_], _, hg => nomatch hg
  | k :: v :: vs, given, hg => by
    rw [keyed] at hg
    split at hg
    · cases hg
    · split at hg
      · cases hg
      · rename_i p hp
        obtain ⟨rest, hrest, hg⟩ := ok_of_bind hg
        cases hg
        have ih := keyed_within h vs rest hrest
        refine List.forall_mem_cons.mpr ⟨⟨h p (List.mem_of_find?_eq_some hp), by simp⟩, ?_⟩
        exact fun q hq => ⟨(ih q hq).1, by simp [(ih q hq).2]⟩

theorem firstValues_subset : (given : List (Register × Value)) → firstValues given ⊆ given
  | [] => List.Subset.refl []
  | (r, v) :: rest => by
    refine List.cons_subset_cons _ fun p hp => ?_
    exact firstValues_subset rest (List.mem_of_mem_filter hp)

theorem missing_within (h : ∀ p ∈ ps, p.register.val < bound) (given : List (Register × Value)) :
    ∀ d ∈ missing ps given, d.1.val < bound := by
  intro d hd
  obtain ⟨p, hp, hd⟩ := List.mem_filterMap.mp hd
  split at hd
  · cases hd
  · exact default_within (h p hp) d hd

theorem ofArguments_within {F : Formals δ} (h : F.Within bound) {args : List Value}
    {x : Dealing δ} (hx : ofArguments F args = .ok x) : x.Within bound args := by
  obtain ⟨hv, hd, he⟩ := positional_within h.positional args
  have hrest : ∀ p ∈ F.rest.map fun r => (r, (positional F.positional args).2.2),
      p.1.val < bound ∧ ∀ v ∈ p.2, v ∈ args := by
    intro p hp
    obtain ⟨r, hr, rfl⟩ := Option.map_eq_some_iff.mp hp
    exact ⟨h.rest r hr, he⟩
  rw [ofArguments_eq] at hx
  split at hx
  · cases hx
  split at hx
  · split at hx
    · cases hx
    · cases hg : keyed F.keys (positional F.positional args).2.2 with
      | error e =>
        rw [hg] at hx
        cases hx
      | ok given =>
        rw [hg] at hx
        cases hx
        refine ⟨List.forall_mem_append.mpr ⟨hv, fun p hp => ?_⟩, hrest,
          List.forall_mem_append.mpr ⟨hd, missing_within h.keys _⟩⟩
        obtain ⟨hlt, hmem⟩ := keyed_within h.keys _ given hg p (firstValues_subset given hp)
        exact ⟨hlt, he hmem⟩
  · split at hx
    · cases hx
    · cases hx
      exact ⟨hv, hrest, hd⟩

end Dealing

end RegisterScheme
