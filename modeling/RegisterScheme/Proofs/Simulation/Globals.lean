import RegisterScheme.Machine.Store

/-! The cells of globals: a name keeps its address, and reading by name sees what was written at the
address of that name. -/

namespace RegisterScheme

namespace Globals

variable {g : Globals} {name : String} {a : Nat}

theorem address?_eq_some : g.address? name = some a ↔
    ∃ v, g.cells[a]? = some (name, v) ∧ ∀ i < a, ∀ c, g.cells[i]? = some c → c.1 ≠ name := by
  unfold address?
  rw [Array.findIdx?_eq_some_iff_getElem]
  constructor
  · rintro ⟨h, hn, hlt⟩
    refine ⟨g.cells[a].2, ?_, fun i hi c hc => ?_⟩
    · rw [Array.getElem?_eq_getElem h, ← beq_iff_eq.mp hn]
    · obtain ⟨_, rfl⟩ := Array.getElem?_eq_some_iff.mp hc
      simpa using hlt i hi
  · rintro ⟨v, hv, hlt⟩
    obtain ⟨h, hc⟩ := Array.getElem?_eq_some_iff.mp hv
    refine ⟨h, by simp [hc], fun i hi => ?_⟩
    simpa using hlt i hi _ (Array.getElem?_eq_getElem (Nat.lt_trans hi h))

theorem address?_eq_none : g.address? name = none ↔
    ∀ (i : Nat) c, g.cells[i]? = some c → c.1 ≠ name := by
  unfold address?
  rw [Array.findIdx?_eq_none_iff]
  constructor
  · intro h i c hc
    simpa using h c (Array.mem_of_getElem? hc)
  · intro h c hc
    obtain ⟨i, hi⟩ := Array.getElem?_of_mem hc
    simpa using h i c hi

/-- The cell of a name holds what the name means. -/
theorem read?_of_address? (h : g.address? name = some a) : g.read? a = g.find? name := by
  rw [find?, h, Option.bind_some]

theorem address?_touch_of_some {n : String} (h : g.address? n = some a) (name : String) :
    (g.touch name).2.address? n = some a := by
  unfold touch
  split
  · exact h
  · obtain ⟨v, hv, hlt⟩ := address?_eq_some.mp h
    have ha := (Array.getElem?_eq_some_iff.mp hv).1
    refine address?_eq_some.mpr ⟨v, ?_, fun i hi c hc => ?_⟩
    · rw [Array.getElem?_push, if_neg (Nat.ne_of_lt ha), hv]
    · rw [Array.getElem?_push, if_neg (Nat.ne_of_lt (Nat.lt_trans hi ha))] at hc
      exact hlt i hi c hc

theorem address?_touch (g : Globals) (name : String) :
    (g.touch name).2.address? name = some (g.touch name).1 := by
  cases h : g.address? name with
  | some a =>
    have ht : g.touch name = (a, g) := by rw [touch, h]
    rw [ht]
    exact h
  | none =>
    have ht : g.touch name = (g.cells.size, ⟨g.cells.push (name, none)⟩) := by rw [touch, h]
    rw [ht]
    refine address?_eq_some.mpr ⟨none, by simp, fun i hi c hc => ?_⟩
    rw [Array.getElem?_push, if_neg (Nat.ne_of_lt hi)] at hc
    exact address?_eq_none.mp h i c hc

theorem find?_touch (g : Globals) (name n : String) :
    (g.touch name).2.find? n = g.find? n := by
  cases h : g.address? name with
  | some a =>
    have ht : g.touch name = (a, g) := by rw [touch, h]
    rw [ht]
  | none =>
    have ht : (g.touch name).2.cells = g.cells.push (name, none) := by rw [touch, h]
    cases hn : g.address? n with
    | some a =>
      obtain ⟨v, hv, -⟩ := address?_eq_some.mp hn
      have ha := (Array.getElem?_eq_some_iff.mp hv).1
      rw [find?, address?_touch_of_some hn name, find?, hn, Option.bind_some, Option.bind_some,
        read?, ht, Array.getElem?_push, if_neg (Nat.ne_of_lt ha), read?]
    | none =>
      have hnone : g.find? n = none := by rw [find?, hn, Option.bind_none]
      rw [hnone, find?, Option.bind_eq_none_iff]
      intro a ha
      obtain ⟨v, hv, -⟩ := address?_eq_some.mp ha
      rw [ht, Array.getElem?_push] at hv
      split at hv
      · rename_i hsize
        rw [read?, ht, hsize, Array.getElem?_push_size, Option.bind_some]
      · exact absurd rfl (address?_eq_none.mp hn a _ hv)

theorem address?_write (g : Globals) (a : Nat) (v : Value) (n : String) :
    (g.write a v).address? n = g.address? n := by
  have hcells (i : Nat) (name : String) :
      (∃ u, (g.write a v).cells[i]? = some (name, u)) ↔ ∃ u, g.cells[i]? = some (name, u) := by
    rw [write, Array.getElem?_modify]
    split
    · cases hc : g.cells[i]? with
      | none => simp
      | some c => simp [Prod.ext_iff]
    · rfl
  have hne (i : Nat) (name : String) : (∀ c, (g.write a v).cells[i]? = some c → c.1 ≠ name) ↔
      ∀ c, g.cells[i]? = some c → c.1 ≠ name := by
    constructor <;> intro h c hc hn <;> subst hn
    · obtain ⟨u, hu⟩ := (hcells i c.1).mpr ⟨c.2, hc⟩
      exact h _ hu rfl
    · obtain ⟨u, hu⟩ := (hcells i c.1).mp ⟨c.2, hc⟩
      exact h _ hu rfl
  cases hn : g.address? n with
  | some i =>
    obtain ⟨u, hu, hlt⟩ := address?_eq_some.mp hn
    obtain ⟨u', hu'⟩ := (hcells i n).mpr ⟨u, hu⟩
    exact address?_eq_some.mpr ⟨u', hu', fun j hj => (hne j n).mpr (hlt j hj)⟩
  | none => exact address?_eq_none.mpr fun i => (hne i n).mpr (address?_eq_none.mp hn i)

theorem find?_write (h : g.address? name = some a) (v : Value) (n : String) :
    (g.write a v).find? n = if n = name then some v else g.find? n := by
  rw [find?, address?_write]
  split
  case isTrue hn =>
    subst hn
    obtain ⟨u, hu, -⟩ := address?_eq_some.mp h
    rw [h, Option.bind_some, read?, write, Array.getElem?_modify, if_pos rfl, hu]
    rfl
  case isFalse hn =>
    cases hi : g.address? n with
    | none => rw [Option.bind_none, find?, hi, Option.bind_none]
    | some i =>
      have hne : a ≠ i := by
        rintro rfl
        obtain ⟨u, hu, -⟩ := address?_eq_some.mp h
        obtain ⟨u', hu', -⟩ := address?_eq_some.mp hi
        rw [hu] at hu'
        exact hn (congrArg Prod.fst (Option.some.inj hu')).symm
      rw [Option.bind_some, read?, write, Array.getElem?_modify, if_neg hne, find?, hi,
        Option.bind_some, read?]

theorem find?_set (g : Globals) (name : String) (v : Value) (n : String) :
    (g.set name v).find? n = if n = name then some v else g.find? n := by
  rw [set, find?_write (address?_touch g name), find?_touch]

end Globals

end RegisterScheme
