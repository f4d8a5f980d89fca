import RegisterScheme.Proofs.Simulation.Updates

/-! How the machine reaches variables: registers of frames, the cells of globals and the frames of
captured variables. What it finds agrees with the world, whether it was remembered or not. -/

namespace RegisterScheme

variable {s : Store} {w : World} {N : Nat → Prop} {a i : Nat} {v : Value}

theorem Cache.True.rememberCell {k : Cache} {t : Template} {parent : Option Nat} {g : Globals}
    (h : k.True t parent g w) {index first : Nat} {name : String}
    (hl : t.literals[index]? = some (.quotation ⟨first, .atom (.symbol name)⟩))
    (ha : g.address? name = some a) : (k.rememberCell index a).True t parent g w where
  cells i b hb := by
    rw [Cache.rememberCell, List.lookup_cons] at hb
    split at hb
    · rename_i hi
      rw [beq_iff_eq] at hi
      cases hb
      exact ⟨first, name, hi ▸ hl, ha⟩
    · exact h.cells i b hb
  owners := h.owners

theorem Cache.True.rememberOwner {k : Cache} {t : Template} {parent : Option Nat} {g : Globals}
    (h : k.True t parent g w) {slot distance : Nat} {u : Variable} {r : Register}
    (hs : t.slots[slot]? = some u) (hu : u.kind = .captured distance r)
    (ha : w.ancestor (distance - 1) parent = some a) :
    (k.rememberOwner slot a).True t parent g w where
  cells := h.cells
  owners i b hb := by
    rw [Cache.rememberOwner, List.lookup_cons] at hb
    split at hb
    · rename_i hi
      rw [beq_iff_eq] at hi
      cases hb
      exact ⟨u, distance, r, hi ▸ hs, hu, ha⟩
    · exact h.owners i b hb

namespace Running

theorem frame_eq {fr : Frame} (h : s.frames[a]? = some fr) : frame a s = .ok fr s := by
  rw [frame, bind_of_ok (x := get) (s := s) rfl, h]
  rfl

theorem getRegister_eq (h : s.register? a i = some v) : getRegister a i s = .ok v s := by
  obtain ⟨fr, hf, hi⟩ := Store.register?_eq_some.mp h
  rw [getRegister, bind_of_ok (frame_eq hf), hi]
  rfl

/-- Registers up to one that the frame has can be taken together. -/
theorem checkSlice_eq {first : Nat} (h : (s.register? a i).isSome) (hle : first ≤ i + 1) :
    checkSlice a first (i + 1) s = .ok () s := by
  obtain ⟨v, hv⟩ := Option.isSome_iff_exists.mp h
  obtain ⟨fr, hf, hi⟩ := Store.register?_eq_some.mp hv
  have hsize : i + 1 ≤ fr.registers.size := (Array.getElem?_eq_some_iff.mp hi).1
  rw [checkSlice, bind_of_ok (frame_eq hf), if_pos ⟨hle, hsize⟩]
  rfl

theorem setRegister_eq (h : (s.register? a i).isSome) (v : Value) :
    setRegister a i v s = .ok () (s.set a i v) := by
  obtain ⟨u, hu⟩ := Option.isSome_iff_exists.mp h
  obtain ⟨fr, hf, hi⟩ := Store.register?_eq_some.mp hu
  rw [setRegister, bind_of_ok (frame_eq hf), if_pos (Array.getElem?_eq_some_iff.mp hi).1]
  rfl

/-- The frames around a frame are those of the activations around its activation. -/
theorem outward_eq (h : s.Agrees N w) {d : Nat} {address : Option Nat}
    (ha : w.ancestor d address = some a) : outward d address s = .ok (some a) s := by
  induction d generalizing address with
  | zero =>
    rw [World.ancestor] at ha
    rw [outward, ha]
    rfl
  | succ d ih =>
    cases address with
    | none => cases ha
    | some j =>
      rw [World.ancestor, Option.bind_eq_some_iff] at ha
      obtain ⟨e, he, ha⟩ := ha
      obtain ⟨fr, hf, hfr⟩ := h.frame he
      rw [outward, bind_of_ok (frame_eq hf), hfr.closure]
      exact ih ha

section

variable {c : Closure} {f : Function} {parent : Option Nat} {caching : Bool}

theorem cache_eq (h : s.Agrees N w) (hp : w.procedures[c.address]? = some (f, parent))
    (ht : f.template = .ok c.template) :
    ∃ k, cache c s = .ok k s ∧ k.True c.template parent s.globals w := by
  have hlt : c.address < s.caches.size :=
    h.caches_size ▸ (Array.getElem?_eq_some_iff.mp hp).1
  have hk : s.caches[c.address]? = some s.caches[c.address] := Array.getElem?_eq_getElem hlt
  refine ⟨s.caches[c.address], ?_, h.caches _ _ f parent _ hk hp ht⟩
  rw [cache, bind_of_ok (x := get) (s := s) rfl, hk]
  rfl

/-- The cell of a global that a literal names. -/
theorem globalCell_eq (h : s.Agrees N w) (hp : w.procedures[c.address]? = some (f, parent))
    (ht : f.template = .ok c.template) {index first : Nat} {name : String}
    (hl : c.template.literals[index]? = some (.quotation ⟨first, .atom (.symbol name)⟩)) :
    ∃ b s', globalCell caching c index s = .ok b s' ∧ s'.Agrees N w ∧ s'.frames = s.frames ∧
      s'.globals.address? name = some b := by
  have hname : globalName c.template index s = .ok name s := by
    rw [globalName, hl]
    rfl
  have hcell : cell name s =
      .ok (s.globals.touch name).1 { s with globals := (s.globals.touch name).2 } := rfl
  have hagrees := h.touch name
  have haddress := Globals.address?_touch s.globals name
  cases caching with
  | false =>
    refine ⟨(s.globals.touch name).1, _, ?_, hagrees, rfl, haddress⟩
    simp only [globalCell, Bool.false_eq_true, if_false, pure_bind]
    rw [bind_of_ok hname, bind_of_ok hcell]
    rfl
  | true =>
    obtain ⟨k, hk, htrue⟩ := cache_eq h hp ht
    simp only [globalCell, if_true, pure_bind]
    rw [bind_of_ok hk]
    cases hfound : k.cells.lookup index with
    | some b =>
      obtain ⟨first', name', hl', ha⟩ := htrue.cells index b hfound
      rw [hl] at hl'
      cases hl'
      exact ⟨b, s, rfl, h, rfl, ha⟩
    | none =>
      refine ⟨(s.globals.touch name).1, _, ?_, hagrees.remember hp ht
        (m := (·.rememberCell index (s.globals.touch name).1))
        fun k hk => hk.rememberCell hl haddress, rfl, haddress⟩
      dsimp only
      rw [bind_of_ok hname, bind_of_ok hcell]
      rfl

/-- The frame and the register of a captured variable. -/
theorem capturedPlace_eq (h : s.Agrees N w) (hp : w.procedures[c.address]? = some (f, c.parent))
    (ht : f.template = .ok c.template) {slot distance : Nat} {u : Variable} {r : Register}
    (hs : c.template.slots[slot]? = some u) (hu : u.kind = .captured distance r)
    (ha : w.ancestor (distance - 1) c.parent = some a) :
    ∃ s', capturedPlace caching c slot s = .ok (a, r) s' ∧ s'.Agrees N w ∧
      s'.frames = s.frames := by
  have howner : ∃ s', owner caching c slot distance s = .ok a s' ∧ s'.Agrees N w ∧
      s'.frames = s.frames := by
    have hout := outward_eq h ha
    cases caching with
    | false =>
      refine ⟨s, ?_, h, rfl⟩
      simp only [owner, Bool.false_eq_true, if_false, pure_bind]
      rw [bind_of_ok hout]
      rfl
    | true =>
      obtain ⟨k, hk, htrue⟩ := cache_eq h hp ht
      simp only [owner, if_true, pure_bind]
      rw [bind_of_ok hk]
      cases hfound : k.owners.lookup slot with
      | some b =>
        obtain ⟨u', distance', r', hs', hu', hb⟩ := htrue.owners slot b hfound
        obtain rfl : u = u' := Option.some.inj (hs.symm.trans hs')
        rw [hu] at hu'
        cases hu'
        obtain rfl : a = b := Option.some.inj (ha.symm.trans hb)
        exact ⟨s, rfl, h, rfl⟩
      | none =>
        refine ⟨_, ?_, h.remember hp ht (m := (·.rememberOwner slot a))
          fun k hk => hk.rememberOwner hs hu ha, rfl⟩
        dsimp only
        rw [bind_of_ok hout]
        rfl
  obtain ⟨s', hs', hagrees, hf⟩ := howner
  refine ⟨s', ?_, hagrees, hf⟩
  obtain ⟨name, kind, init⟩ := u
  subst hu
  rw [capturedPlace, hs]
  dsimp only
  rw [bind_of_ok hs']
  rfl

end

end Running

namespace Evaluating

variable {e : Environment}

theorem environment_eq (he : w.environments[a]? = some e) : environment a w = .ok e w := by
  rw [environment, bind_of_ok (x := get) (s := w) rfl, he]
  rfl

theorem outward_eq {d : Nat} {address : Option Nat} (ha : w.ancestor d address = some a) :
    outward d address w = .ok (some a) w := by
  induction d generalizing address with
  | zero =>
    rw [World.ancestor] at ha
    rw [outward, ha]
    rfl
  | succ d ih =>
    cases address with
    | none => cases ha
    | some j =>
      rw [World.ancestor, Option.bind_eq_some_iff] at ha
      obtain ⟨e, he, ha⟩ := ha
      rw [outward, bind_of_ok (environment_eq he)]
      exact ih ha

theorem place_global_eq {here slot : Nat} {scope : Scope} {b : Binding}
    (hb : scope.bindings[slot]? = some b) :
    place here scope (.global slot) w = .ok (.global b.name) w := by
  simp only [place, hb]
  rfl

theorem read_register_eq (he : w.environments[a]? = some e) (r : Register) :
    read (.register a r) w = .ok (e.values r) w := by
  rw [read, bind_of_ok (environment_eq he)]
  rfl

theorem read_global_eq (name : String) :
    read (.global name) w = .ok ((w.globals name).getD .nil) w := rfl

theorem write_register_eq (he : w.environments[a]? = some e) (r : Register) (v : Value) :
    write (.register a r) v w = .ok () (w.set a r v) := by
  rw [write, bind_of_ok (environment_eq he)]
  rfl

end Evaluating

end RegisterScheme
