import RegisterScheme.Value.Basic

/-! Equality and identity. A pair counts as equal to itself before its parts are looked at, and
nothing else depends on identities. So equality is that of structure, unless a pair that belongs to
both values holds something that differs from itself. -/

namespace RegisterScheme

namespace Value

mutual

/-- Equality of structure, whatever the identities of pairs and vectors. -/
def alike : Value → Value → Bool
  | atom a, atom b => a.equal b
  | pair _ a b, pair _ c d => a.alike c && b.alike d
  | vector _ as, vector _ bs => alikeItems as bs
  | closure c, closure d => c.address == d.address
  | template i _, template j _ => i == j
  | native m, native n => m.same n
  | _, _ => false

def alikeItems : List Value → List Value → Bool
  | [], [] => true
  | a :: as, b :: bs => a.alike b && alikeItems as bs
  | _, _ => false

end

mutual

/-- The pairs in a value, with their identities and their parts. -/
def pairs : Value → List (Nat × Value × Value)
  | pair i car cdr => (i, car, cdr) :: (car.pairs ++ cdr.pairs)
  | vector _ items => pairsOfItems items
  | _ => []

def pairsOfItems : List Value → List (Nat × Value × Value)
  | [] => []
  | v :: vs => v.pairs ++ pairsOfItems vs

end

mutual

/-- The value without the identities of its pairs and vectors. -/
def shape : Value → Value
  | pair _ car cdr => pair 0 car.shape cdr.shape
  | vector _ items => vector 0 (shapes items)
  | v => v

def shapes : List Value → List Value
  | [] => []
  | v :: vs => v.shape :: shapes vs

end

/-- The same atoms and procedures in the same structure of pairs and vectors. -/
def Copies (u v : Value) : Prop := u.shape = v.shape

mutual

/-- Neither equal to itself nor a pair, which is: a NaN, the unspecified value, or a vector that
holds one of these. -/
def UnlikeItself : Value → Prop
  | atom a => a.equal a = false
  | vector _ items => AnyUnlikeItself items
  | unspecified => True
  | _ => False

def AnyUnlikeItself : List Value → Prop
  | [] => False
  | v :: vs => v.UnlikeItself ∨ AnyUnlikeItself vs

end

/-- A pair that belongs to both values has the same parts in both. -/
def Coherent (u v : Value) : Prop :=
  ∀ i a b c d, (i, a, b) ∈ u.pairs → (i, c, d) ∈ v.pairs → a = c ∧ b = d

/-- No pair that belongs to both values holds anything unlike itself. -/
def Plain (u v : Value) : Prop :=
  ∀ i a b, (i, a, b) ∈ u.pairs → (i, a, b) ∈ v.pairs → ¬ a.UnlikeItself ∧ ¬ b.UnlikeItself

variable {u u' v v' : Value}

mutual

/-- The same structure is enough for equality. -/
theorem equal_of_alike : (u v : Value) → u.alike v → u.equal v
  | pair _ a b, pair _ c d, h => by
    rw [alike, Bool.and_eq_true] at h
    simp [equal, equal_of_alike a c h.1, equal_of_alike b d h.2]
  | vector _ as, vector _ bs, h => equalItems_of_alikeItems as bs h
  | atom _, v, h | closure _, v, h | template _ _, v, h | native _, v, h | unspecified, v, h => by
    cases v <;> simp_all [equal, alike]
  | pair .., .atom _, h | pair .., .vector .., h | pair .., .closure _, h | pair .., .template .., h
  | pair .., .native _, h | pair .., .unspecified, h => by simp [alike] at h
  | vector .., .atom _, h | vector .., .pair .., h | vector .., .closure _, h
  | vector .., .template .., h | vector .., .native _, h | vector .., .unspecified, h => by
    simp [alike] at h

theorem equalItems_of_alikeItems : (as bs : List Value) → alikeItems as bs → equalItems as bs
  | [], [], _ => rfl
  | [], _ :: _, h | _ :: _, [], h => by simp [alikeItems] at h
  | a :: as, b :: bs, h => by
    rw [alikeItems, Bool.and_eq_true] at h
    simp [equalItems, equal_of_alike a b h.1, equalItems_of_alikeItems as bs h.2]

end

mutual

/-- It is all that equality sees if the pairs that belong to both values have the same structure. -/
theorem equal_eq_alike : (u v : Value) →
    (∀ i a b c d, (i, a, b) ∈ u.pairs → (i, c, d) ∈ v.pairs → a.alike c && b.alike d) →
    u.equal v = u.alike v
  | pair i a b, pair j c d, h => by
    have hcar := equal_eq_alike a c fun k x y z w hx hz =>
      h k x y z w (by simp [pairs, hx]) (by simp [pairs, hz])
    have hcdr := equal_eq_alike b d fun k x y z w hx hz =>
      h k x y z w (by simp [pairs, hx]) (by simp [pairs, hz])
    by_cases hij : i = j
    · subst j
      have hparts := h i a b c d (by simp [pairs]) (by simp [pairs])
      simp [equal, alike, hparts]
    · simp [equal, alike, hij, hcar, hcdr]
  | vector _ as, vector _ bs, h => equalItems_eq_alikeItems as bs h
  | atom _, v, _ | closure _, v, _ | template _ _, v, _ | native _, v, _ | unspecified, v, _ => by
    cases v <;> simp [equal, alike]
  | pair .., .atom _, _ | pair .., .vector .., _ | pair .., .closure _, _ | pair .., .template .., _
  | pair .., .native _, _ | pair .., .unspecified, _ => rfl
  | vector .., .atom _, _ | vector .., .pair .., _ | vector .., .closure _, _
  | vector .., .template .., _ | vector .., .native _, _ | vector .., .unspecified, _ => rfl

theorem equalItems_eq_alikeItems : (as bs : List Value) →
    (∀ i a b c d, (i, a, b) ∈ pairsOfItems as → (i, c, d) ∈ pairsOfItems bs →
      a.alike c && b.alike d) → equalItems as bs = alikeItems as bs
  | [], [], _ | [], _ :: _, _ | _ :: _, [], _ => rfl
  | a :: as, b :: bs, h => by
    have hfirst := equal_eq_alike a b fun k x y z w hx hz =>
      h k x y z w (by simp [pairsOfItems, hx]) (by simp [pairsOfItems, hz])
    have hmore := equalItems_eq_alikeItems as bs fun k x y z w hx hz =>
      h k x y z w (by simp [pairsOfItems, hx]) (by simp [pairsOfItems, hz])
    simp [equalItems, alikeItems, hfirst, hmore]

end

/-! ### Pairs that belong to a value -/

mutual

/-- The pairs in the parts of a pair belong to the value as well. -/
theorem pairs_parts {i : Nat} {a b : Value} : (v : Value) → (i, a, b) ∈ v.pairs →
    a.pairs ⊆ v.pairs ∧ b.pairs ⊆ v.pairs
  | pair j c d, h => by
    simp only [pairs, List.mem_cons, List.mem_append, Prod.mk.injEq] at h
    have hc : c.pairs ⊆ (pair j c d).pairs := by
      rw [pairs]
      exact List.Subset.trans (List.subset_append_left ..) (List.subset_cons_self ..)
    have hd : d.pairs ⊆ (pair j c d).pairs := by
      rw [pairs]
      exact List.Subset.trans (List.subset_append_right ..) (List.subset_cons_self ..)
    rcases h with ⟨-, rfl, rfl⟩ | h | h
    · exact ⟨hc, hd⟩
    · have hparts := pairs_parts c h
      exact ⟨List.Subset.trans hparts.1 hc, List.Subset.trans hparts.2 hc⟩
    · have hparts := pairs_parts d h
      exact ⟨List.Subset.trans hparts.1 hd, List.Subset.trans hparts.2 hd⟩
  | vector _ items, h => pairsOfItems_parts items h
  | atom _, h | closure _, h | template _ _, h | native _, h | unspecified, h => by
    simp [pairs] at h

theorem pairsOfItems_parts {i : Nat} {a b : Value} : (vs : List Value) →
    (i, a, b) ∈ pairsOfItems vs → a.pairs ⊆ pairsOfItems vs ∧ b.pairs ⊆ pairsOfItems vs
  | [], h => by simp [pairsOfItems] at h
  | v :: vs, h => by
    simp only [pairsOfItems, List.mem_append] at h
    have hfirst : v.pairs ⊆ pairsOfItems (v :: vs) := List.subset_append_left ..
    have hmore : pairsOfItems vs ⊆ pairsOfItems (v :: vs) := List.subset_append_right ..
    rcases h with h | h
    · have hparts := pairs_parts v h
      exact ⟨List.Subset.trans hparts.1 hfirst, List.Subset.trans hparts.2 hfirst⟩
    · have hparts := pairsOfItems_parts vs h
      exact ⟨List.Subset.trans hparts.1 hmore, List.Subset.trans hparts.2 hmore⟩

end

/-! ### Values and themselves -/

mutual

theorem equal_self_iff : (v : Value) → (v.equal v = true ↔ ¬ v.UnlikeItself)
  | atom a => by simp [equal, UnlikeItself]
  | pair .. | closure _ | template _ _ => by simp [equal, UnlikeItself]
  | vector _ items => by simpa [equal, UnlikeItself] using equalItems_self_iff items
  | native n => by cases n <;> simp [equal, UnlikeItself, Native.same]
  | unspecified => by simp [equal, UnlikeItself]

theorem equalItems_self_iff : (vs : List Value) → (equalItems vs vs = true ↔ ¬ AnyUnlikeItself vs)
  | [] => by simp [equalItems, AnyUnlikeItself]
  | v :: vs => by simp [equalItems, AnyUnlikeItself, equal_self_iff v, equalItems_self_iff vs]

end

mutual

/-- If no pair in a value holds anything unlike itself, the value has the structure of its own. -/
theorem alike_self : (v : Value) →
    (∀ i a b, (i, a, b) ∈ v.pairs → ¬ a.UnlikeItself ∧ ¬ b.UnlikeItself) → ¬ v.UnlikeItself →
    v.alike v
  | pair i a b, h, _ => by
    have hlike := h i a b (by simp [pairs])
    have hcar := alike_self a (fun j c d hc => h j c d (by simp [pairs, hc])) hlike.1
    have hcdr := alike_self b (fun j c d hc => h j c d (by simp [pairs, hc])) hlike.2
    simp [alike, hcar, hcdr]
  | vector _ items, h, hlike => alikeItems_self items h hlike
  | atom a, _, hlike => by simpa [alike, UnlikeItself] using hlike
  | closure _, _, _ | template _ _, _, _ => by simp [alike]
  | native n, _, _ => by cases n <;> simp [alike, Native.same]
  | unspecified, _, hlike => absurd trivial hlike

theorem alikeItems_self : (vs : List Value) →
    (∀ i a b, (i, a, b) ∈ pairsOfItems vs → ¬ a.UnlikeItself ∧ ¬ b.UnlikeItself) →
    ¬ AnyUnlikeItself vs → alikeItems vs vs
  | [], _, _ => rfl
  | v :: vs, h, hlike => by
    simp only [AnyUnlikeItself, not_or] at hlike
    have hfirst := alike_self v (fun j c d hc => h j c d (by simp [pairsOfItems, hc])) hlike.1
    have hmore := alikeItems_self vs (fun j c d hc => h j c d (by simp [pairsOfItems, hc])) hlike.2
    simp [alikeItems, hfirst, hmore]

end

/-! ### Copies -/

mutual

theorem alike_shape : (u v : Value) → u.shape.alike v.shape = u.alike v
  | pair _ a b, pair _ c d => by
    simp [shape, alike, alike_shape a c, alike_shape b d]
  | vector _ as, vector _ bs => by
    simp [shape, alike, alikeItems_shapes as bs]
  | atom _, v | closure _, v | template _ _, v | native _, v | unspecified, v => by
    cases v <;> simp [shape, alike]
  | pair .., .atom _ | pair .., .vector .. | pair .., .closure _ | pair .., .template ..
  | pair .., .native _ | pair .., .unspecified => by simp [shape, alike]
  | vector .., .atom _ | vector .., .pair .. | vector .., .closure _ | vector .., .template ..
  | vector .., .native _ | vector .., .unspecified => by simp [shape, alike]

theorem alikeItems_shapes : (us vs : List Value) →
    alikeItems (shapes us) (shapes vs) = alikeItems us vs
  | [], [] | [], _ :: _ | _ :: _, [] => rfl
  | u :: us, v :: vs => by
    simp [shapes, alikeItems, alike_shape u v, alikeItems_shapes us vs]

end

/-- Copies have the same structure in common with copies. -/
theorem Copies.alike_eq (hu : u.Copies u') (hv : v.Copies v') : u.alike v = u'.alike v' := by
  rw [← alike_shape u v, ← alike_shape u' v', hu, hv]

end Value

end RegisterScheme
