import RegisterScheme.Proofs.Token.Spelling
import RegisterScheme.Value.Basic

/-! Values that are data. Their text and their equality do not depend on the identities of their
pairs and vectors. -/

namespace RegisterScheme

/-- An atom that can be read back equals itself. -/
theorem Atom.equal_self {a : Atom} (h : a.Readable) : a.equal a := by
  cases a with
  | float x => exact h.elim
  | nil => rfl
  | _ => exact beq_self_eq_true _

namespace Value

mutual

/-- A value is a datum, whatever the identities of its objects. -/
def Shows : Value → Datum → Prop
  | atom a, .atom b => a = b
  | pair _ car cdr, .pair a b => car.Shows a ∧ cdr.Shows b
  | vector _ items, .vector ds => AllShow items ds
  | _, _ => False

def AllShow : List Value → List Datum → Prop
  | [], [] => True
  | v :: vs, d :: ds => v.Shows d ∧ AllShow vs ds
  | _, _ => False

end

mutual

theorem shows_ofDatum (first : Nat) : (d : Datum) → (ofDatum first d).Shows d
  | .atom _ => rfl
  | .pair car cdr => ⟨shows_ofDatum _ car, shows_ofDatum _ cdr⟩
  | .vector items => allShow_ofData _ items

theorem allShow_ofData (first : Nat) : (ds : List Datum) → AllShow (ofData first ds) ds
  | [] => trivial
  | d :: ds => ⟨shows_ofDatum _ d, allShow_ofData _ ds⟩

end

variable {v : Value} {vs : List Value} {a : Atom} {d d' : Datum} {ds : List Datum}

theorem shows_atom : v.Shows (.atom a) ↔ v = atom a := by
  cases v with
  | atom b => simp [Shows]
  | _ => simp [Shows]

theorem shows_pair :
    v.Shows (.pair d d') ↔ ∃ id car cdr, v = pair id car cdr ∧ car.Shows d ∧ cdr.Shows d' := by
  cases v with
  | pair id car cdr => simp [Shows, and_assoc]
  | _ => simp [Shows]

theorem shows_vector :
    v.Shows (.vector ds) ↔ ∃ id items, v = vector id items ∧ AllShow items ds := by
  cases v with
  | vector id items => simp [Shows, and_assoc]
  | _ => simp [Shows]

theorem allShow_nil : AllShow vs [] ↔ vs = [] := by
  cases vs <;> simp [AllShow]

theorem allShow_cons :
    AllShow vs (d :: ds) ↔ ∃ u us, vs = u :: us ∧ u.Shows d ∧ AllShow us ds := by
  cases vs <;> simp [AllShow, and_assoc]

theorem tailChars_atom (h : a ≠ .nil) :
    (atom a).tailChars = ' ' :: '.' :: ' ' :: a.text.toList ++ [')'] := by
  cases a with
  | nil => exact absurd rfl h
  | _ => rw [tailChars] <;> simp [wholeText]

mutual

/-- A value is written as the datum that it is. -/
theorem Shows.chars_eq {v : Value} {d : Datum} (h : v.Shows d) : v.chars = d.chars := by
  cases d with
  | atom a =>
    obtain rfl := shows_atom.mp h
    rw [chars, Datum.chars] <;> simp [wholeText]
  | pair a b =>
    obtain ⟨id, car, cdr, rfl, hcar, hcdr⟩ := shows_pair.mp h
    rw [chars, Datum.chars, hcar.chars_eq, hcdr.tailChars_eq]
  | vector ds =>
    obtain ⟨id, items, rfl, hitems⟩ := shows_vector.mp h
    rw [chars, Datum.chars, hitems.itemChars_eq]

theorem Shows.tailChars_eq {v : Value} {d : Datum} (h : v.Shows d) :
    v.tailChars = d.tailChars := by
  cases d with
  | atom a =>
    obtain rfl := shows_atom.mp h
    by_cases ha : a = .nil
    · rw [ha, tailChars, Datum.tailChars]
    · rw [tailChars_atom ha, Datum.tailChars_atom ha]
  | pair a b =>
    obtain ⟨id, car, cdr, rfl, hcar, hcdr⟩ := shows_pair.mp h
    rw [tailChars, Datum.tailChars, hcar.chars_eq, hcdr.tailChars_eq]
  | vector ds =>
    obtain ⟨id, items, rfl, hitems⟩ := shows_vector.mp h
    rw [tailChars, Datum.tailChars, hitems.itemChars_eq]

theorem AllShow.itemChars_eq {vs : List Value} {ds : List Datum} (h : AllShow vs ds) :
    itemChars vs = Datum.itemChars ds := by
  cases ds with
  | nil =>
    obtain rfl := allShow_nil.mp h
    rfl
  | cons d ds =>
    obtain ⟨v, vs, rfl, hv, hvs⟩ := allShow_cons.mp h
    have hmore := hvs.itemChars_eq
    cases ds with
    | nil =>
      obtain rfl := allShow_nil.mp hvs
      rw [itemChars, Datum.itemChars, hv.chars_eq]
    | cons d' ds =>
      obtain ⟨v', vs, rfl, -⟩ := allShow_cons.mp hvs
      rw [itemChars, Datum.itemChars_cons_cons, hv.chars_eq, hmore]
      simp

end

mutual

/-- Values that are the same datum are equal. -/
theorem Shows.equal {u v : Value} {d : Datum} (hu : u.Shows d) (hv : v.Shows d)
    (hd : d.Readable) : u.equal v := by
  cases d with
  | atom a =>
    obtain rfl := shows_atom.mp hu
    obtain rfl := shows_atom.mp hv
    rw [Datum.Readable] at hd
    exact Atom.equal_self hd
  | pair a b =>
    obtain ⟨i, _, _, rfl, hucar, hucdr⟩ := shows_pair.mp hu
    obtain ⟨j, _, _, rfl, hvcar, hvcdr⟩ := shows_pair.mp hv
    rw [Datum.Readable] at hd
    rw [Value.equal, hucar.equal hvcar hd.1, hucdr.equal hvcdr hd.2]
    exact Bool.or_true _
  | vector ds =>
    obtain ⟨_, _, rfl, hus⟩ := shows_vector.mp hu
    obtain ⟨_, _, rfl, hvs⟩ := shows_vector.mp hv
    rw [Datum.Readable] at hd
    exact hus.equalItems hvs hd

theorem AllShow.equalItems {us vs : List Value} {ds : List Datum} (hus : AllShow us ds)
    (hvs : AllShow vs ds) (hds : Datum.ReadableItems ds) : equalItems us vs := by
  cases ds with
  | nil =>
    obtain rfl := allShow_nil.mp hus
    obtain rfl := allShow_nil.mp hvs
    rfl
  | cons d ds =>
    obtain ⟨u, us, rfl, hu, hus⟩ := allShow_cons.mp hus
    obtain ⟨v, vs, rfl, hv, hvs⟩ := allShow_cons.mp hvs
    rw [Datum.ReadableItems] at hds
    rw [Value.equalItems, hu.equal hv hds.1, hus.equalItems hvs hds.2]
    rfl

end

/-- The text of a value is the text of the datum. -/
theorem Shows.text_eq (h : v.Shows d) : v.text = d.text :=
  congrArg String.ofList h.chars_eq

end Value

end RegisterScheme
