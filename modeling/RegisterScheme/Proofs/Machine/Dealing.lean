import Mathlib.Data.List.Nodup
import RegisterScheme.Proofs.Outcome
import RegisterScheme.Proofs.Simulation.Arguments

/-! What the arguments of a call are for the parameters: which parameters are given a value, which
are left to their defaults, and when no parameter takes an argument. Arguments are dealt out so. -/

namespace RegisterScheme

variable {δ : Type}

namespace Dealing

/-- Arguments in pairs, with the names of the keywords among the first of each. -/
def pairs : List Value → List (Option String × Value)
  | k :: v :: rest => (keyword? k, v) :: pairs rest
  | _ => []

/-- The register of a parameter with the value that it is given, if it is. -/
def given : Formal δ × Option Value → Option (Register × Value)
  | (p, v) => v.map (p.register, ·)

/-- The register of a parameter with its default, if no value is given and there is one. -/
def omitted : Formal δ × Option Value → Option (Register × δ)
  | (p, v) => if v.isSome then none else p.default.map (p.register, ·)

@[simp] theorem given_mk (p : Formal δ) (v : Option Value) :
    given (p, v) = v.map (p.register, ·) := rfl

@[simp] theorem omitted_none (p : Formal δ) :
    omitted (p, none) = p.default.map (p.register, ·) := rfl

@[simp] theorem omitted_some (p : Formal δ) (v : Value) : omitted (p, some v) = none := rfl

end Dealing

namespace Formals

variable (F : Formals δ) (args : List Value)

/-- The arguments after those that are taken by position. -/
def extra : List Value := args.drop F.positional.length

/-- The parameters with the values that arguments give them: one by position, or the first one
behind the keyword. -/
def assign : List (Formal δ × Option Value) :=
  F.positional.mapIdx (fun i p => (p, args[i]?)) ++
    F.keys.map fun p => (p, (Dealing.pairs (F.extra args)).lookup (some p.name))

/-- The defaults of the parameters without a value, in order. -/
def due : List (Register × δ) := (F.assign args).filterMap Dealing.omitted

/-- The required parameters have arguments, and some parameter takes each argument. -/
structure Fits : Prop where
  enough : F.required ≤ args.length
  paired : F.keys ≠ [] → (F.extra args).length % 2 = 0
  keywords : F.keys ≠ [] → ∀ q ∈ Dealing.pairs (F.extra args), ∃ p ∈ F.keys, q.1 = some p.name
  taken : F.keys = [] → F.rest = none → F.extra args = []

/-- Each parameter has a register of its own, and each keyword belongs to one parameter. -/
structure Distinct : Prop where
  takesKeys : F.takesKeys = !F.keys.isEmpty
  registers : ((F.positional ++ F.keys).map Formal.register ++ F.rest.toList).Nodup
  names : (F.keys.map Formal.name).Nodup

/-- Arguments are dealt out as they are assigned. -/
structure Deals (x : Dealing δ) : Prop where
  values : ∀ q, q ∈ x.values ↔ q ∈ (F.assign args).filterMap Dealing.given
  rest : x.rest = F.rest.map (·, F.extra args)
  defaults : x.defaults = F.due args

end Formals

namespace Dealing

theorem positional_eq (ps : List (Formal δ)) (vs : List Value) :
    positional ps vs = ((ps.mapIdx fun i p => (p, vs[i]?)).filterMap given,
      (ps.mapIdx fun i p => (p, vs[i]?)).filterMap omitted, vs.drop ps.length) := by
  induction ps generalizing vs with
  | nil => rw [positional]; rfl
  | cons p ps ih =>
    cases vs with
    | nil =>
      rw [positional, ih]
      have hnone : (p :: ps).mapIdx (fun i p => (p, ([] : List Value)[i]?)) =
          (p, none) :: ps.mapIdx fun i p => (p, ([] : List Value)[i]?) := by
        rw [List.mapIdx_cons]
        rfl
      rw [hnone, List.filterMap_cons, List.filterMap_cons, given_mk, omitted_none, List.drop_nil,
        List.drop_nil]
      cases p.default <;> rfl
    | cons v vs =>
      rw [positional, ih]
      have hsome : (p :: ps).mapIdx (fun i p => (p, (v :: vs)[i]?)) =
          (p, some v) :: ps.mapIdx fun i p => (p, vs[i]?) := by
        rw [List.mapIdx_cons]
        rfl
      rw [hsome, List.filterMap_cons, List.filterMap_cons, given_mk, omitted_some]
      rfl

/-- A pair with a keyword gives its value to the parameter of that name. -/
def Gives (keys : List (Formal δ)) (q : Option String × Value) (g : Register × Value) : Prop :=
  g.2 = q.2 ∧ ∃ p ∈ keys, q.1 = some p.name ∧ g.1 = p.register

variable {keys : List (Formal δ)}

theorem keyed_gives : (vs : List Value) → ∀ {given : List (Register × Value)},
    keyed keys vs = .ok given → vs.length % 2 = 0 ∧ List.Forall₂ (Gives keys) (pairs vs) given
  | [], _, rfl => ⟨rfl, .nil⟩
  | [_], _, h => nomatch h
  | k :: v :: vs, given, h => by
    rw [keyed] at h
    split at h
    · cases h
    · rename_i name hname
      split at h
      · cases h
      · rename_i p hp
        obtain ⟨rest, hrest, h⟩ := ok_of_bind h
        cases h
        obtain ⟨heven, hall⟩ := keyed_gives vs hrest
        refine ⟨(Nat.add_mod_right vs.length 2).trans heven, ?_⟩
        rw [pairs, hname]
        have hpname : p.name = name := by simpa using List.find?_some hp
        exact .cons ⟨rfl, p, List.mem_of_find?_eq_some hp, by rw [hpname], rfl⟩ hall

theorem name_of_gives {qs : List (Option String × Value)} {gs : List (Register × Value)}
    (h : List.Forall₂ (Gives keys) qs gs) {q : Option String × Value} (hq : q ∈ qs) :
    ∃ p ∈ keys, q.1 = some p.name := by
  have hall : List.Forall₂ (fun q g => (∃ p ∈ keys, q.1 = some p.name) ∧ Gives keys q g) qs gs :=
    h.imp fun q g hg => ⟨hg.2.imp fun p hp => ⟨hp.1, hp.2.1⟩, hg⟩
  exact ((List.forall₂_and_left qs gs).mp hall).1 q hq

theorem register_of_gives {qs : List (Option String × Value)} {gs : List (Register × Value)}
    (h : List.Forall₂ (Gives keys) qs gs) {g : Register × Value} (hg : g ∈ gs) :
    ∃ p ∈ keys, g.1 = p.register := by
  have hall : List.Forall₂ (fun g q => (∃ p ∈ keys, g.1 = p.register) ∧ Gives keys q g) gs qs :=
    h.flip.imp fun g q hg => ⟨hg.2.imp fun p hp => ⟨hp.1, hp.2.2⟩, hg⟩
  exact ((List.forall₂_and_left gs qs).mp hall).1 g hg

theorem keyed_ok : (vs : List Value) → vs.length % 2 = 0 →
    (∀ q ∈ pairs vs, ∃ p ∈ keys, q.1 = some p.name) → ∃ given, keyed keys vs = .ok given
  | [], _, _ => ⟨[], rfl⟩
  | [_], h, _ => nomatch h
  | k :: v :: vs, heven, hnames => by
    rw [pairs] at hnames
    obtain ⟨⟨p, hp, hname⟩, hrest⟩ := List.forall_mem_cons.mp hnames
    obtain ⟨rest, hrest⟩ := keyed_ok vs ((Nat.add_mod_right vs.length 2).symm.trans heven) hrest
    dsimp only at hname
    have hfound : (keys.find? fun q => q.name == p.name).isSome :=
      List.find?_isSome.mpr ⟨p, hp, beq_self_eq_true _⟩
    obtain ⟨q, hq⟩ := Option.isSome_iff_exists.mp hfound
    exact ⟨(q.register, v) :: rest, by rw [keyed, hname]; dsimp only; rw [hq, hrest]; rfl⟩

theorem mem_firstValues {r : Register} {v : Value} (given : List (Register × Value)) :
    (r, v) ∈ firstValues given ↔ given.lookup r = some v := by
  induction given with
  | nil => simp [firstValues]
  | cons g given ih =>
    obtain ⟨r', v'⟩ := g
    rw [firstValues, List.mem_cons, List.mem_filter, ih, List.lookup_cons]
    by_cases hr : r = r'
    · subst hr
      simp [eq_comm]
    · rw [beq_false_of_ne hr]
      simp [hr]

/-- The first value for a register is the first one behind the keyword. -/
theorem lookup_gives (hr : (keys.map Formal.register).Nodup) (hn : (keys.map Formal.name).Nodup)
    {qs : List (Option String × Value)} {gs : List (Register × Value)}
    (h : List.Forall₂ (Gives keys) qs gs) {p : Formal δ} (hp : p ∈ keys) :
    gs.lookup p.register = qs.lookup (some p.name) := by
  induction h with
  | nil => rfl
  | @cons q g qs gs hq _ ih =>
    obtain ⟨k, v⟩ := q
    obtain ⟨r, u⟩ := g
    obtain ⟨rfl, p', hp', rfl, rfl⟩ := hq
    rw [List.lookup_cons, List.lookup_cons, ih]
    by_cases hpp : p = p'
    · rw [hpp]
      simp
    · have hregister : p.register ≠ p'.register :=
        fun heq => hpp (List.inj_on_of_nodup_map hr hp hp' heq)
      have hname : p.name ≠ p'.name := fun heq => hpp (List.inj_on_of_nodup_map hn hp hp' heq)
      rw [beq_false_of_ne hregister, beq_false_of_ne (mt Option.some.inj hname)]

theorem missing_eq {given : List (Register × Value)} {lookup : Formal δ → Option Value}
    (h : ∀ p ∈ keys, given.lookup p.register = lookup p) :
    missing keys (firstValues given) = (keys.map fun p => (p, lookup p)).filterMap omitted := by
  rw [missing, List.filterMap_map]
  refine List.filterMap_congr fun p hp => ?_
  have hany : ((firstValues given).any fun g => g.1 == p.register) = (lookup p).isSome := by
    rw [← h p hp, Bool.eq_iff_iff, List.any_eq_true, Option.isSome_iff_exists]
    constructor
    · rintro ⟨⟨r, v⟩, hmem, hr⟩
      obtain rfl : r = p.register := by simpa using hr
      exact ⟨v, (mem_firstValues given).mp hmem⟩
    · rintro ⟨v, hv⟩
      exact ⟨(p.register, v), (mem_firstValues given).mpr hv, beq_self_eq_true _⟩
  rw [hany]
  rfl

end Dealing

namespace Formals

open Dealing

variable {F : Formals δ} {args : List Value}

theorem mem_given {q : Register × Value} {as : List (Formal δ × Option Value)} :
    q ∈ as.filterMap given ↔ ∃ p, (p, some q.2) ∈ as ∧ p.register = q.1 := by
  obtain ⟨r, v⟩ := q
  rw [List.mem_filterMap]
  constructor
  · rintro ⟨⟨p, u⟩, hmem, hp⟩
    obtain ⟨w, rfl, hw⟩ := Option.map_eq_some_iff.mp hp
    cases hw
    exact ⟨p, hmem, rfl⟩
  · rintro ⟨p, hmem, rfl⟩
    exact ⟨_, hmem, rfl⟩

theorem assign_fst (F : Formals δ) (args : List Value) :
    (F.assign args).map Prod.fst = F.positional ++ F.keys := by
  rw [assign, List.map_append, List.map_map]
  refine congrArg₂ (· ++ ·) ?_ (List.map_id' F.keys)
  refine List.ext_getElem (by simp) fun i hi hi' => ?_
  rw [List.getElem_map, List.getElem_mapIdx]

/-- What is assigned to a register is assigned once. -/
theorem Distinct.assign_pairwise (hd : F.Distinct) (args : List Value) :
    (F.assign args).Pairwise fun q q' => q.1.register ≠ q'.1.register := by
  have hall := (List.nodup_append.mp hd.registers).1
  rw [← assign_fst F args, List.map_map] at hall
  exact List.pairwise_map.mp hall

theorem Distinct.assign_unique (hd : F.Distinct) {q q' : Formal δ × Option Value}
    (hq : q ∈ F.assign args) (hq' : q' ∈ F.assign args)
    (h : q.1.register = q'.1.register) : q = q' :=
  List.inj_on_of_nodup_map (List.pairwise_map.mpr (hd.assign_pairwise args)) hq hq' h

theorem Distinct.rest_ne (hd : F.Distinct) {q : Formal δ × Option Value}
    (hq : q ∈ F.assign args) {r : Register} (hr : r ∈ F.rest) : q.1.register ≠ r := by
  have hmem : q.1.register ∈ (F.positional ++ F.keys).map Formal.register := by
    rw [← assign_fst F args, List.map_map]
    exact List.mem_map_of_mem hq
  rintro rfl
  exact (List.nodup_append.mp hd.registers).2.2 _ hmem _ (Option.mem_toList.mpr hr) rfl

theorem mem_due {p : Register × δ} : p ∈ F.due args ↔
    ∃ q ∈ F.assign args, q.2 = none ∧ q.1.default = some p.2 ∧ q.1.register = p.1 := by
  rw [due, List.mem_filterMap]
  refine exists_congr fun q => and_congr_right fun _ => ?_
  obtain ⟨formal, v⟩ := q
  cases v with
  | none =>
    rw [omitted_none, Option.map_eq_some_iff]
    constructor
    · rintro ⟨d, hd, rfl⟩
      exact ⟨rfl, hd, rfl⟩
    · rintro ⟨-, hd, hr⟩
      exact ⟨p.2, hd, Prod.ext hr rfl⟩
  | some v => simp

theorem Distinct.due_pairwise (hd : F.Distinct) (args : List Value) :
    (F.due args).Pairwise fun p p' => p.1 ≠ p'.1 := by
  refine (hd.assign_pairwise args).filterMap _ fun q q' hne p hp p' hp' => ?_
  have hregister {q : Formal δ × Option Value} {p : Register × δ} (hp : p ∈ omitted q) :
      q.1.register = p.1 := by
    obtain ⟨formal, v⟩ := q
    cases v with
    | none =>
      obtain ⟨d, -, rfl⟩ := Option.map_eq_some_iff.mp hp
      rfl
    | some v => cases hp
  rw [← hregister hp, ← hregister hp']
  exact hne

theorem positional_dealt (F : Formals δ) (args : List Value) :
    Dealing.positional F.positional args =
      ((F.positional.mapIdx fun i p => (p, args[i]?)).filterMap given,
        (F.positional.mapIdx fun i p => (p, args[i]?)).filterMap omitted, F.extra args) :=
  positional_eq _ _

/-- What the arguments for keys are dealt out to. -/
theorem keys_dealt (hd : F.Distinct) {given : List (Register × Value)}
    (h : keyed F.keys (F.extra args) = .ok given) :
    (∀ q, q ∈ firstValues given ↔ q ∈ (F.keys.map fun p =>
      (p, (pairs (F.extra args)).lookup (some p.name))).filterMap Dealing.given) ∧
    missing F.keys (firstValues given) = (F.keys.map fun p =>
      (p, (pairs (F.extra args)).lookup (some p.name))).filterMap omitted := by
  have hregisters : (F.keys.map Formal.register).Nodup := by
    have hall := (List.nodup_append.mp hd.registers).1
    rw [List.map_append] at hall
    exact (List.nodup_append.mp hall).2.1
  have hgives := (keyed_gives _ h).2
  have hlookup (p : Formal δ) (hp : p ∈ F.keys) := lookup_gives hregisters hd.names hgives hp
  refine ⟨fun ⟨r, v⟩ => ?_, missing_eq hlookup⟩
  rw [mem_given]
  constructor
  · intro hr
    obtain ⟨p, hp, rfl⟩ := register_of_gives hgives (firstValues_subset given hr)
    have hv := hlookup p hp
    rw [(mem_firstValues given).mp hr] at hv
    exact ⟨p, List.mem_map.mpr ⟨p, hp, by rw [← hv]⟩, rfl⟩
  · rintro ⟨p, hmem, rfl⟩
    obtain ⟨p', hp', heq⟩ := List.mem_map.mp hmem
    obtain ⟨rfl, hv⟩ := Prod.mk.inj heq
    rw [mem_firstValues, hlookup p' hp', hv]

theorem ofArguments_of_fits (hd : F.Distinct) (h : F.Fits args) :
    ∃ x, ofArguments F args = .ok x ∧ F.Deals args x := by
  rw [ofArguments_eq, if_neg (Nat.not_lt.mpr h.enough), positional_dealt, hd.takesKeys]
  by_cases hkeys : F.keys = []
  · rw [hkeys, if_neg (by simp), if_neg]
    · refine ⟨_, rfl, fun q => ?_, rfl, ?_⟩
      · simp [assign, hkeys]
      · simp [due, assign, hkeys]
    · rw [Bool.and_eq_true, Option.isNone_iff_eq_none]
      rintro ⟨hrest, hextra⟩
      rw [h.taken hkeys hrest] at hextra
      cases hextra
  · obtain ⟨given, hgiven⟩ := keyed_ok (F.extra args) (h.paired hkeys) (h.keywords hkeys)
    obtain ⟨hvalues, hmissing⟩ := keys_dealt hd hgiven
    rw [if_pos (by simp [hkeys]), if_neg (not_not.mpr (h.paired hkeys)), hgiven]
    refine ⟨_, rfl, fun q => ?_, rfl, ?_⟩
    · rw [assign, List.filterMap_append, List.mem_append, List.mem_append, hvalues]
    · rw [due, assign, List.filterMap_append, ← hmissing]

theorem fits_of_ofArguments (hd : F.Distinct) {x : Dealing δ} (h : ofArguments F args = .ok x) :
    F.Fits args := by
  rw [ofArguments_eq, positional_dealt, hd.takesKeys] at h
  split at h
  · cases h
  rename_i henough
  rw [Nat.not_lt] at henough
  by_cases hkeys : F.keys = []
  · rw [hkeys, if_neg (by simp)] at h
    split at h
    · cases h
    rename_i htaken
    refine ⟨henough, fun hne => (hne hkeys).elim, fun hne => (hne hkeys).elim, fun _ hrest => ?_⟩
    simpa [hrest] using htaken
  · rw [if_pos (by simp [hkeys])] at h
    split at h
    · cases h
    rename_i heven
    obtain ⟨given, hgiven, -⟩ := ok_of_bind h
    exact ⟨henough, fun _ => not_not.mp heven,
      fun _ q hq => name_of_gives (keyed_gives _ hgiven).2 hq, fun hnil => (hkeys hnil).elim⟩

end Formals

end RegisterScheme
