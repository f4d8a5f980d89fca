import RegisterScheme.Proofs.Value.Equality

/-! Data as values with objects of their own. Their equality is that of data. -/

namespace RegisterScheme

namespace Datum

mutual

/-- Equality of data, atom by atom. -/
def equal : Datum → Datum → Bool
  | atom a, atom b => a.equal b
  | pair a b, pair c d => a.equal c && b.equal d
  | vector as, vector bs => equalItems as bs
  | _, _ => false

def equalItems : List Datum → List Datum → Bool
  | [], [] => true
  | a :: as, b :: bs => a.equal b && equalItems as bs
  | _, _ => false

end

/-- What stands behind the last item of a list. -/
def IsTail : Datum → Prop
  | pair _ _ => False
  | _ => True

variable {d e : Datum}

/-- Lists are equal if their items and tails are, as long as no tail goes on with more items. -/
theorem equal_listWithTail (hd : d.IsTail) (he : e.IsTail) (ds es : List Datum) :
    (listWithTail ds d).equal (listWithTail es e) = (equalItems ds es && d.equal e) := by
  simp only [listWithTail]
  induction ds generalizing es with
  | nil =>
    cases es with
    | nil => simp [equalItems]
    | cons e' es => cases d <;> simp_all [IsTail, equal, equalItems]
  | cons d' ds ih =>
    cases es with
    | nil => cases e <;> simp_all [IsTail, equal, equalItems]
    | cons e' es => simp [equal, equalItems, ih, Bool.and_assoc]

end Datum

namespace Value

mutual

theorem alike_ofDatum (i j : Nat) : (d e : Datum) → (ofDatum i d).alike (ofDatum j e) = d.equal e
  | .atom _, .atom _ => rfl
  | .pair a b, .pair c d => by
    rw [ofDatum, ofDatum, alike, Datum.equal, alike_ofDatum _ _ a c, alike_ofDatum _ _ b d]
  | .vector ds, .vector es => alikeItems_ofData _ _ ds es
  | .atom _, .pair _ _ | .atom _, .vector _ | .pair _ _, .atom _ | .pair _ _, .vector _
  | .vector _, .atom _ | .vector _, .pair _ _ => rfl

theorem alikeItems_ofData (i j : Nat) : (ds es : List Datum) →
    alikeItems (ofData i ds) (ofData j es) = Datum.equalItems ds es
  | [], [] | [], _ :: _ | _ :: _, [] => rfl
  | d :: ds, e :: es => by
    rw [ofData, ofData, alikeItems, Datum.equalItems, alike_ofDatum _ _ d e,
      alikeItems_ofData _ _ ds es]

end

mutual

/-- The pairs of a datum are numbered from the first identity on. -/
theorem pairs_ofDatum (first : Nat) : (d : Datum) →
    ∀ p ∈ (ofDatum first d).pairs, first ≤ p.1 ∧ p.1 < first + d.objects
  | .atom _ => by simp [ofDatum, pairs]
  | .pair car cdr => by
    have hcar := pairs_ofDatum (first + 1) car
    have hcdr := pairs_ofDatum (first + 1 + car.objects) cdr
    simp only [ofDatum, pairs, List.mem_cons, List.mem_append, Datum.objects]
    rintro p (rfl | hp | hp)
    · omega
    · have hrange := hcar p hp
      omega
    · have hrange := hcdr p hp
      omega
  | .vector items => by
    have hitems := pairsOfItems_ofData (first + 1) items
    simp only [ofDatum, pairs, Datum.objects]
    intro p hp
    have hrange := hitems p hp
    omega

theorem pairsOfItems_ofData (first : Nat) : (ds : List Datum) →
    ∀ p ∈ pairsOfItems (ofData first ds), first ≤ p.1 ∧ p.1 < first + Datum.objectsOfItems ds
  | [] => by simp [ofData, pairsOfItems]
  | d :: ds => by
    have hfirst := pairs_ofDatum first d
    have hmore := pairsOfItems_ofData (first + d.objects) ds
    simp only [ofData, pairsOfItems, List.mem_append, Datum.objectsOfItems]
    rintro p (hp | hp)
    · have hrange := hfirst p hp
      omega
    · have hrange := hmore p hp
      omega

end

/-- Data with objects of their own are equal as data. -/
theorem equal_ofDatum {i j : Nat} {d e : Datum} (h : i + d.objects ≤ j ∨ j + e.objects ≤ i) :
    (ofDatum i d).equal (ofDatum j e) = d.equal e := by
  rw [← alike_ofDatum i j d e]
  refine equal_eq_alike _ _ fun k a b x y hu hv => ?_
  have hk := pairs_ofDatum i d _ hu
  have hk' := pairs_ofDatum j e _ hv
  dsimp only at hk hk'
  omega

end Value

end RegisterScheme
