import Mathlib.Data.List.Forall2
import RegisterScheme.Proofs.Value.Equality

/-! What equality sees: structure, and which pairs are one. The latter matters where one pair holds
something that differs from itself. -/

namespace RegisterScheme

namespace Value

variable {u u' v v' : Value} {us vs : List Value}

theorem equalItems_iff : equalItems us vs ↔ List.Forall₂ (fun u v => u.equal v) us vs := by
  induction us generalizing vs with
  | nil => cases vs <;> simp [equalItems]
  | cons u us ih => cases vs <;> simp [equalItems, ih]

/-- Where no pair with something unlike itself belongs to both values, equality is that of
structure. -/
theorem Coherent.equal_eq_alike (h : u.Coherent v) (hplain : u.Plain v) :
    u.equal v = u.alike v := by
  refine Value.equal_eq_alike u v fun i a b c d hu hv => ?_
  obtain ⟨rfl, rfl⟩ := h i a b c d hu hv
  have hlike := hplain i a b hu hv
  have hu' := pairs_parts u hu
  have hv' := pairs_parts v hv
  -- The pairs of the parts belong to both values as well.
  have hcar := alike_self a ?_ hlike.1
  have hcdr := alike_self b ?_ hlike.2
  · rw [hcar, hcdr]
    rfl
  · exact fun j x y h => hplain j x y (hu'.2 h) (hv'.2 h)
  · exact fun j x y h => hplain j x y (hu'.1 h) (hv'.1 h)

/-- Equality of pairs is that of their parts, but a pair that holds something unlike itself is equal
to itself all the same; equality of vectors is that of their items; and copies are as equal as the
values are, unless a pair with something unlike itself belongs to both values. -/
theorem equal_structure (u v : Value) :
    (∀ i j a b c d, u = pair i a b → v = pair j c d → (i = j → a = c ∧ b = d) →
      (u.equal v ↔ a.equal c ∧ b.equal d ∨ i = j ∧ (a.UnlikeItself ∨ b.UnlikeItself))) ∧
    (∀ i j us vs, u = vector i us → v = vector j vs →
      (u.equal v ↔ List.Forall₂ (fun a b : Value => a.equal b) us vs)) ∧
    (v.equal v = false ↔ v.UnlikeItself) ∧
    ∀ u' v' : Value, u.Copies u' → v.Copies v' → u'.Coherent v' → u'.Plain v' →
      (u'.equal v' → u.equal v) ∧ (u.Coherent v → u.Plain v → u.equal v = u'.equal v') := by
  refine ⟨?_, ?_, ?_, ?_⟩
  · rintro i j a b c d rfl rfl hparts
    by_cases hij : i = j
    · obtain ⟨rfl, rfl⟩ := hparts hij
      simp only [equal, hij, equal_self_iff]
      by_cases ha : a.UnlikeItself <;> by_cases hb : b.UnlikeItself <;> simp [ha, hb]
    · simp [equal, hij]
  · rintro i j us vs rfl rfl
    exact equalItems_iff
  · have hself := equal_self_iff v
    by_cases hv : v.UnlikeItself <;> simpa [hv] using hself
  · intro u' v' hu hv h' hplain'
    have halike := hu.alike_eq hv
    rw [h'.equal_eq_alike hplain', ← halike]
    exact ⟨equal_of_alike u v, fun h hplain => h.equal_eq_alike hplain⟩

/-- A list of lists that is compared to itself, and a copy of it to the list. -/
theorem equal_structure_copy :
    let shared := pair 1 (pair 0 (integer 1) .nil) (vector 2 [.nil])
    let copy := pair 4 (pair 3 (integer 1) .nil) (vector 5 [.nil])
    shared.Copies copy ∧ shared.Copies shared ∧ copy.Coherent shared ∧ copy.Plain shared ∧
      shared.Coherent shared ∧ shared.Plain shared ∧ shared.equal shared = copy.equal shared ∧
      ¬ (pair 0 unspecified .nil).equal (pair 1 unspecified .nil) := by
  intro shared copy
  have hcopy : shared.Copies copy := rfl
  have hshared : shared.Copies shared := rfl
  have hapart : ∀ i a b c d, (i, a, b) ∈ copy.pairs → (i, c, d) ∉ shared.pairs := by
    simp [shared, copy, pairs, pairsOfItems]
    omega
  have hcoherent : copy.Coherent shared := fun i a b c d hu hv => absurd hv (hapart i a b c d hu)
  have hplain : copy.Plain shared := fun i a b hu hv => absurd hv (hapart i a b a b hu)
  have hone : shared.Coherent shared := by
    intro i a b c d hu hv
    simp only [shared, pairs, pairsOfItems, List.mem_append, List.mem_cons, Prod.mk.injEq,
      List.not_mem_nil, or_false] at hu hv
    grind
  have hown : shared.Plain shared := by
    intro i a b hu _
    simp only [shared, pairs, pairsOfItems, List.mem_append, List.mem_cons, Prod.mk.injEq,
      List.not_mem_nil, or_false] at hu
    rcases hu with ⟨-, rfl, rfl⟩ | ⟨-, rfl, rfl⟩ <;>
      simp [UnlikeItself, AnyUnlikeItself, Atom.equal]
  obtain ⟨-, -, -, hcopies⟩ := equal_structure shared shared
  have hequal := (hcopies copy shared hcopy hshared hcoherent hplain).2 hone hown
  obtain ⟨hpairs, -⟩ := equal_structure (pair 0 unspecified .nil) (pair 1 unspecified .nil)
  refine ⟨hcopy, hshared, hcoherent, hplain, hone, hown, hequal, ?_⟩
  rw [hpairs 0 1 _ _ _ _ rfl rfl (by simp)]
  simp [equal]

/-- A pair that holds the unspecified value is equal to itself and to no copy, but the value in it
is not equal to itself, nor is a vector with it. -/
theorem equal_onePair :
    (pair 0 unspecified .nil).equal (pair 0 unspecified .nil) = true ∧
      unspecified.equal unspecified = false ∧
      (pair 0 unspecified .nil).Copies (pair 1 unspecified .nil) ∧
      (pair 0 unspecified .nil).equal (pair 1 unspecified .nil) = false ∧
      (vector 0 [unspecified]).equal (vector 0 [unspecified]) = false := by
  exact ⟨rfl, rfl, rfl, rfl, rfl⟩

end Value

end RegisterScheme
