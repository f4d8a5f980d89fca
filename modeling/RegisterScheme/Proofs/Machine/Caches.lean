import RegisterScheme.Proofs.Machine.Binding

/-! What closures remember. As the store changes, frames stay frames of the same closures and names
keep their cells, so that what was found out once is what a new search would find. -/

namespace RegisterScheme

/-- The literal of an index names a global. -/
def Template.NamesGlobal (t : Template) (index : Nat) (name : String) : Prop :=
  ∃ first, t.literals[index]? = some (.quotation ⟨first, .atom (.symbol name)⟩)

namespace Store

variable {s t u : Store}

/-- The same store where no closure remembers anything. -/
def forget (s : Store) : Store := { s with caches := s.caches.map fun _ => .empty }

theorem forget_ofGlobals (g : Globals) : (ofGlobals g).forget = ofGlobals g := by
  simp [forget, ofGlobals]

theorem forget_addClosure (s : Store) : s.addClosure.forget = s.forget.addClosure := by
  simp [forget, addClosure]

theorem forget_remember (s : Store) (address : Nat) (f : Cache → Cache) :
    (s.remember address f).forget = s.forget := by
  have hcaches : (s.caches.modify address f).map (fun _ => Cache.empty) =
      s.caches.map fun _ => Cache.empty := by
    apply Array.ext <;> simp
  rw [forget, remember, hcaches, forget]

/-- What closures may have found out about a store still holds in another one. -/
structure Extends (s t : Store) : Prop where
  frames : ∀ (a : Nat) (f : Frame), s.frames[a]? = some f →
    ∃ f' : Frame, t.frames[a]? = some f' ∧ f'.closure = f.closure
  cells : ∀ name a, s.globals.address? name = some a → t.globals.address? name = some a

theorem extends_of_eq (hf : t.frames = s.frames) (hg : t.globals = s.globals) : s.Extends t where
  frames a f ha := ⟨f, by rwa [hf], rfl⟩
  cells name a ha := by rwa [hg]

theorem extends_set (s : Store) (a i : Nat) (v : Value) : s.Extends (s.set a i v) where
  frames b f hf := by
    rw [set_frames, hf]
    by_cases hab : a = b
    · rw [if_pos hab]
      exact ⟨_, rfl, rfl⟩
    · rw [if_neg hab]
      exact ⟨f, rfl, rfl⟩
  cells _ _ ha := ha

theorem extends_enter (s : Store) (c : Closure) : s.Extends (s.enter c) where
  frames a f hf := by
    have ha : a ≠ s.frames.size := Nat.ne_of_lt (Array.getElem?_eq_some_iff.mp hf).1
    rw [enter_frames, if_neg ha]
    exact ⟨f, hf, rfl⟩
  cells _ _ ha := ha

theorem extends_touch (s : Store) (name : String) :
    s.Extends { s with globals := (s.globals.touch name).2 } where
  frames _ f hf := ⟨f, hf, rfl⟩
  cells _ _ ha := Globals.address?_touch_of_some ha name

theorem extends_write (s : Store) (a : Nat) (v : Value) :
    s.Extends { s with globals := s.globals.write a v } where
  frames _ f hf := ⟨f, hf, rfl⟩
  cells name _ ha := (Globals.address?_write s.globals a v name).trans ha

end Store

namespace Running

variable {s t : Store}

theorem frame_of_none {a : Nat} (h : s.frames[a]? = none) :
    frame a s = .error (.fault (.noSuchFrame a)) s := by
  rw [frame, bind_of_ok (x := get) (s := s) rfl, h]
  rfl

/-- A walk along the parent links changes nothing, and in a larger store it goes the same way. -/
theorem outward_extends (h : s.Extends t) {n : Nat} {p r : Option Nat} {s' : Store}
    (hr : outward n p s = .ok r s') : outward n p t = .ok r t := by
  induction n generalizing p with
  | zero =>
    cases hr
    rfl
  | succ n ih =>
    cases p with
    | none =>
      cases hr
      rfl
    | some a =>
      rw [outward] at hr ⊢
      cases hf : s.frames[a]? with
      | none =>
        rw [bind_of_error (frame_of_none hf)] at hr
        cases hr
      | some f =>
        obtain ⟨f', hf', hc⟩ := h.frames a f hf
        rw [bind_of_ok (frame_eq hf)] at hr
        rw [bind_of_ok (frame_eq hf'), hc]
        exact ih hr

theorem outward_store {n : Nat} {p r : Option Nat} {s' : Store}
    (hr : outward n p s = .ok r s') : s' = s := by
  rw [outward_extends (Store.extends_of_eq rfl rfl) hr] at hr
  cases hr
  rfl

end Running

/-- What a closure remembers is what it would find out now: of a literal, the cell of the name, and
of a slot, the frame at the end of the parent links. -/
structure Cache.Faithful (k : Cache) (c : Closure) (s : Store) : Prop where
  cells : ∀ index a, k.cells.lookup index = some a →
    ∃ name, c.template.NamesGlobal index name ∧ s.globals.address? name = some a
  owners : ∀ slot a, k.owners.lookup slot = some a → ∃ v distance r,
    c.template.slots[slot]? = some v ∧ v.kind = .captured distance r ∧
      Running.outward (distance - 1) c.parent s = .ok (some a) s

namespace Cache

variable {k : Cache} {c : Closure} {s t : Store} {a : Nat}

theorem faithful_empty (c : Closure) (s : Store) : empty.Faithful c s :=
  ⟨fun _ _ h => (nomatch h), fun _ _ h => (nomatch h)⟩

theorem Faithful.extend (h : k.Faithful c s) (he : s.Extends t) : k.Faithful c t where
  cells index a ha := by
    obtain ⟨name, hname, hcell⟩ := h.cells index a ha
    exact ⟨name, hname, he.cells name a hcell⟩
  owners slot a ha := by
    obtain ⟨v, distance, r, hv, hk, hwalk⟩ := h.owners slot a ha
    exact ⟨v, distance, r, hv, hk, Running.outward_extends he hwalk⟩

theorem Faithful.rememberCell (h : k.Faithful c s) {index : Nat} {name : String}
    (hname : c.template.NamesGlobal index name) (ha : s.globals.address? name = some a) :
    (k.rememberCell index a).Faithful c s where
  cells i b hb := by
    rw [Cache.rememberCell, List.lookup_cons] at hb
    by_cases hi : i = index
    · subst hi
      rw [beq_self_eq_true] at hb
      cases hb
      exact ⟨name, hname, ha⟩
    · rw [beq_false_of_ne hi] at hb
      exact h.cells i b hb
  owners := h.owners

theorem Faithful.rememberOwner (h : k.Faithful c s) {slot distance : Nat} {v : Variable}
    {r : Register} (hv : c.template.slots[slot]? = some v) (hk : v.kind = .captured distance r)
    (ha : Running.outward (distance - 1) c.parent s = .ok (some a) s) :
    (k.rememberOwner slot a).Faithful c s where
  cells := h.cells
  owners i b hb := by
    rw [Cache.rememberOwner, List.lookup_cons] at hb
    by_cases hi : i = slot
    · subst hi
      rw [beq_self_eq_true] at hb
      cases hb
      exact ⟨v, distance, r, hv, hk, ha⟩
    · rw [beq_false_of_ne hi] at hb
      exact h.owners i b hb

end Cache

/-- A store in the middle of a run that has made some closures, in this order. Nothing else is in
it, and what they remember is what they would find out now. -/
structure Store.Coherent (N : Nat → Prop) (made : List Closure) (s : Store) : Prop where
  addresses : ∀ (i : Nat) c, made[i]? = some c → c.address = i
  caches_size : s.caches.size = made.length
  caches : ∀ c ∈ made, ∀ k, s.caches[c.address]? = some k → k.Faithful c s
  frames : ∀ (a : Nat) f, s.frames[a]? = some f →
    f.closure ∈ made ∧ ∀ v ∈ f.registers, v.BuiltFrom (· ∈ made) N
  globals : ∀ a v, s.globals.read? a = some v → v.BuiltFrom (· ∈ made) N

/-- All values in cells are built from some closures and natives. -/
def Globals.BuiltFrom (P : Closure → Prop) (N : Nat → Prop) (g : Globals) : Prop :=
  ∀ a v, g.read? a = some v → v.BuiltFrom P N

namespace Store

variable {N : Nat → Prop} {made : List Closure} {s t : Store} {c : Closure} {v : Value} {a i : Nat}

theorem coherent_ofGlobals {g : Globals} (h : g.BuiltFrom (fun _ => False) N) :
    (ofGlobals g).Coherent N [] where
  addresses _ _ hc := nomatch hc
  caches_size := rfl
  caches _ hc := nomatch hc
  frames _ _ hf := nomatch hf
  globals a v hv := (h a v hv).mono fun _ hc => hc.elim

namespace Coherent

variable (h : s.Coherent N made)

include h

theorem address_lt (hc : c ∈ made) : c.address < made.length := by
  obtain ⟨i, hi⟩ := List.mem_iff_getElem?.mp hc
  rw [h.addresses i c hi]
  exact (List.getElem?_eq_some_iff.mp hi).1

/-- Closures with the same address are the same. -/
theorem eq_of_address {d : Closure} (hc : c ∈ made) (hd : d ∈ made)
    (ha : c.address = d.address) : c = d := by
  obtain ⟨i, hi⟩ := List.mem_iff_getElem?.mp hc
  obtain ⟨j, hj⟩ := List.mem_iff_getElem?.mp hd
  obtain rfl : i = j := by rw [← h.addresses i c hi, ← h.addresses j d hj, ha]
  exact Option.some.inj (hi.symm.trans hj)

theorem cache_of_made (hc : c ∈ made) : ∃ k, s.caches[c.address]? = some k ∧ k.Faithful c s := by
  have hlt : c.address < s.caches.size := by
    rw [h.caches_size]
    exact h.address_lt hc
  exact ⟨_, Array.getElem?_eq_getElem hlt, h.caches c hc _ (Array.getElem?_eq_getElem hlt)⟩

theorem caches_extend (he : s.Extends t) (ht : t.caches = s.caches) :
    ∀ c ∈ made, ∀ k, t.caches[c.address]? = some k → k.Faithful c t := by
  intro c hc k hk
  rw [ht] at hk
  exact (h.caches c hc k hk).extend he

theorem set (a i : Nat) (hv : v.BuiltFrom (· ∈ made) N) : (s.set a i v).Coherent N made where
  addresses := h.addresses
  caches_size := h.caches_size
  caches := h.caches_extend (s.extends_set a i v) rfl
  frames b f hf := by
    rw [set_frames] at hf
    by_cases hab : a = b
    · rw [if_pos hab, Option.map_eq_some_iff] at hf
      obtain ⟨f, hf, rfl⟩ := hf
      obtain ⟨hc, hregisters⟩ := h.frames b f hf
      refine ⟨hc, fun w hw => ?_⟩
      rcases Array.mem_or_eq_of_mem_setIfInBounds hw with hw | rfl
      · exact hregisters w hw
      · exact hv
    · rw [if_neg hab] at hf
      exact h.frames b f hf
  globals := h.globals

theorem enter (hc : c ∈ made) : (s.enter c).Coherent N made where
  addresses := h.addresses
  caches_size := h.caches_size
  caches := h.caches_extend (s.extends_enter c) rfl
  frames a f hf := by
    rw [enter_frames] at hf
    by_cases ha : a = s.frames.size
    · rw [if_pos ha] at hf
      cases hf
      refine ⟨hc, fun v hv => ?_⟩
      rw [(Array.mem_replicate.mp hv).2]
      trivial
    · rw [if_neg ha] at hf
      exact h.frames a f hf
  globals := h.globals

/-- A new closure remembers nothing. -/
theorem addClosure (t : Template) (parent : Option Nat) :
    s.addClosure.Coherent N (made ++ [⟨s.caches.size, t, parent⟩]) where
  addresses i c hc := by
    rw [List.getElem?_append] at hc
    split at hc
    · exact h.addresses i c hc
    · rename_i hi
      obtain ⟨hzero, rfl⟩ : i - made.length = 0 ∧ ⟨s.caches.size, t, parent⟩ = c := by
        simpa [List.getElem?_singleton] using hc
      dsimp only
      rw [h.caches_size]
      omega
  caches_size := by simp [Store.addClosure, h.caches_size]
  caches c hc k hk := by
    rw [Store.addClosure, Array.getElem?_push] at hk
    split at hk
    · cases hk
      exact Cache.faithful_empty _ _
    · rename_i hne
      have hmade : c ∈ made := by
        rcases List.mem_append.mp hc with hc | hc
        · exact hc
        · rw [List.mem_singleton] at hc
          exact absurd (congrArg Closure.address hc) hne
      exact (h.caches c hmade k hk).extend (extends_of_eq rfl rfl)
  frames a f hf := by
    obtain ⟨hc, hregisters⟩ := h.frames a f hf
    exact ⟨List.mem_append_left _ hc, fun v hv =>
      (hregisters v hv).mono fun _ hd => List.mem_append_left _ hd⟩
  globals a v hv := (h.globals a v hv).mono fun _ hd => List.mem_append_left _ hd

theorem withNextObject (n : Nat) : Store.Coherent N made { s with nextObject := n } where
  addresses := h.addresses
  caches_size := h.caches_size
  caches := h.caches_extend (extends_of_eq rfl rfl) rfl
  frames := h.frames
  globals := h.globals

theorem touch (name : String) :
    Store.Coherent N made { s with globals := (s.globals.touch name).2 } where
  addresses := h.addresses
  caches_size := h.caches_size
  caches := h.caches_extend (s.extends_touch name) rfl
  frames := h.frames
  globals a v hv := by
    refine h.globals a v ?_
    unfold Globals.touch at hv
    split at hv
    · exact hv
    · obtain ⟨cell, hcell, hvalue⟩ := Option.bind_eq_some_iff.mp hv
      rw [Array.getElem?_push] at hcell
      split at hcell
      · cases hcell
        cases hvalue
      · exact Option.bind_eq_some_iff.mpr ⟨cell, hcell, hvalue⟩

theorem write (a : Nat) (hv : v.BuiltFrom (· ∈ made) N) :
    Store.Coherent N made { s with globals := s.globals.write a v } where
  addresses := h.addresses
  caches_size := h.caches_size
  caches := h.caches_extend (s.extends_write a v) rfl
  frames := h.frames
  globals b w hw := by
    obtain ⟨cell, hcell, hvalue⟩ := Option.bind_eq_some_iff.mp hw
    rw [Globals.write, Array.getElem?_modify] at hcell
    split at hcell
    · obtain ⟨before, -, rfl⟩ := Option.map_eq_some_iff.mp hcell
      cases hvalue
      exact hv
    · exact h.globals b w (Option.bind_eq_some_iff.mpr ⟨cell, hcell, hvalue⟩)

/-- A closure may remember what is the case. -/
theorem remember (hc : c ∈ made) {f : Cache → Cache}
    (hf : ∀ k : Cache, k.Faithful c s → (f k).Faithful c s) :
    (s.remember c.address f).Coherent N made where
  addresses := h.addresses
  caches_size := by
    rw [← h.caches_size]
    exact Array.size_modify
  caches d hd k hk := by
    have hextends : s.Extends (s.remember c.address f) := extends_of_eq rfl rfl
    refine Cache.Faithful.extend ?_ hextends
    rw [Store.remember, Array.getElem?_modify] at hk
    split at hk
    · rename_i ha
      obtain rfl := h.eq_of_address hc hd ha
      obtain ⟨before, hbefore, rfl⟩ := Option.map_eq_some_iff.mp hk
      exact hf before (h.caches c hc before hbefore)
    · exact h.caches d hd k hk
  frames := h.frames
  globals := h.globals

end Coherent

end Store

end RegisterScheme
