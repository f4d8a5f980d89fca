import RegisterScheme.Proofs.Simulation.Agreement
import RegisterScheme.Proofs.Simulation.Globals

/-! A store and a world that agree still do after the same change of both, and after changes of the
store that a world does not know of: of temporaries, of empty cells and of caches. -/

namespace RegisterScheme

theorem Cache.True.mono {k : Cache} {t : Template} {parent : Option Nat} {g g' : Globals}
    {w w' : World} (h : k.True t parent g w) (hw : w.Grows w')
    (hg : ∀ name a, g.address? name = some a → g'.address? name = some a) :
    k.True t parent g' w' where
  cells index a hl := by
    obtain ⟨first, name, hi, ha⟩ := h.cells index a hl
    exact ⟨first, name, hi, hg name a ha⟩
  owners slot a hl := by
    obtain ⟨v, distance, r, hv, hk, ha⟩ := h.owners slot a hl
    exact ⟨v, distance, r, hv, hk, World.ancestor_grows hw ha⟩

namespace Store

/-- The same store with another value in a register. -/
def set (s : Store) (address register : Nat) (v : Value) : Store :=
  { s with
    frames := s.frames.modify address fun f =>
      { f with registers := f.registers.setIfInBounds register v } }

/-- The same store with one more frame. -/
def enter (s : Store) (c : Closure) : Store :=
  { s with frames := s.frames.push ⟨c, Array.replicate c.template.frameSize .nil⟩ }

/-- The same store with one more closure. -/
def addClosure (s : Store) : Store := { s with caches := s.caches.push .empty }

/-- The same store with something more remembered. -/
def remember (s : Store) (address : Nat) (f : Cache → Cache) : Store :=
  { s with caches := s.caches.modify address f }

variable {s : Store} {w : World} {N : Nat → Prop} {a i : Nat} {e : Environment} {v : Value}

theorem set_frames (s : Store) (a i : Nat) (v : Value) (j : Nat) :
    (s.set a i v).frames[j]? = if a = j then s.frames[j]?.map fun f =>
      { f with registers := f.registers.setIfInBounds i v } else s.frames[j]? :=
  Array.getElem?_modify

theorem enter_frames (s : Store) (c : Closure) (j : Nat) :
    (s.enter c).frames[j]? = if j = s.frames.size then
      some ⟨c, Array.replicate c.template.frameSize .nil⟩ else s.frames[j]? :=
  Array.getElem?_push

theorem register?_eq_some {u : Value} : s.register? a i = some u ↔
    ∃ fr, s.frames[a]? = some fr ∧ fr.registers[i]? = some u := by
  rw [register?, Option.bind_eq_some_iff]

theorem register?_set (h : (s.register? a i).isSome) (v : Value) :
    (s.set a i v).register? a i = some v := by
  obtain ⟨u, hu⟩ := Option.isSome_iff_exists.mp h
  obtain ⟨fr, hf, hi⟩ := register?_eq_some.mp hu
  refine register?_eq_some.mpr ⟨_, by rw [set_frames, if_pos rfl, hf, Option.map_some], ?_⟩
  exact Array.getElem?_setIfInBounds_self_of_lt (Array.getElem?_eq_some_iff.mp hi).1

theorem register?_set_of_ne {b j : Nat} (h : b ≠ a ∨ j ≠ i) (v : Value) :
    (s.set a i v).register? b j = s.register? b j := by
  rw [register?, set_frames, register?]
  split
  · rename_i hab
    have hij : i ≠ j := fun hij => h.elim (fun h => h hab.symm) fun h => h hij.symm
    cases s.frames[b]? with
    | none => rfl
    | some fr => exact Array.getElem?_setIfInBounds_ne hij
  · rfl

theorem register?_enter {c : Closure} {b j : Nat} (h : b < s.frames.size) :
    (s.enter c).register? b j = s.register? b j := by
  rw [register?, enter_frames, if_neg (Nat.ne_of_lt h), register?]

namespace Agrees

theorem frame (h : s.Agrees N w) (he : w.environments[a]? = some e) :
    ∃ fr, s.frames[a]? = some fr ∧ fr.Agrees e := h.frames a e he

/-- A register of the frame holds something. -/
theorem register_isSome (h : s.Agrees N w) (he : w.environments[a]? = some e)
    (hi : i < e.closure.template.frameSize) : (s.register? a i).isSome := by
  obtain ⟨fr, hf, ha⟩ := h.frame he
  rw [register?, hf, Option.bind_some, Array.getElem?_eq_getElem (ha.size ▸ hi)]
  rfl

/-- The register of a variable holds its value. -/
theorem variable_eq (h : s.Agrees N w) (he : w.environments[a]? = some e) {r : Register}
    (hr : r.val < e.closure.template.tempBase) : s.register? a r = some (e.values r) := by
  obtain ⟨fr, hf, ha⟩ := h.frame he
  rw [register?, hf, Option.bind_some, ha.values r hr]

theorem caches_true (h : s.Agrees N w) {w' : World} {g : Globals} (hw : w.Grows w')
    (hg : ∀ name a, s.globals.address? name = some a → g.address? name = some a) {k : Cache}
    {f : Function} {parent : Option Nat} {t : Template} (hk : s.caches[i]? = some k)
    (hp : w.procedures[i]? = some (f, parent)) (ht : f.template = .ok t) :
    k.True t parent g w' :=
  (h.caches i k f parent t hk hp ht).mono hw hg

theorem setTemporary (h : s.Agrees N w) (he : w.environments[a]? = some e)
    (hi : e.closure.template.tempBase ≤ i) (v : Value) : (s.set a i v).Agrees N w where
  valid := h.valid
  frames_size := by rw [← h.frames_size]; exact Array.size_modify
  frames j d hd := by
    obtain ⟨fr, hf, ha⟩ := h.frame hd
    rw [set_frames]
    split
    · rename_i haj
      subst haj
      obtain rfl : e = d := Option.some.inj (he.symm.trans hd)
      refine ⟨_, congrArg _ hf, ha.closure, ?_, fun r hr => ?_⟩
      · exact Array.size_setIfInBounds.trans ha.size
      · exact (Array.getElem?_setIfInBounds_ne (Nat.ne_of_gt (Nat.lt_of_lt_of_le hr hi))).trans
          (ha.values r hr)
    · exact ⟨fr, hf, ha⟩
  globals := h.globals
  caches_size := h.caches_size
  caches := h.caches
  nextObject := h.nextObject

theorem setVariable (h : s.Agrees N w) (r : Register) (hv : v.BuiltFrom w.Known N) :
    (s.set a r v).Agrees N (w.set a r v) where
  valid := h.valid.set hv
  frames_size := by
    rw [World.set, Array.size_modify, ← h.frames_size]
    exact Array.size_modify
  frames j d hd := by
    rw [World.set_environments] at hd
    rw [set_frames]
    split at hd
    case isTrue haj =>
      rw [Option.map_eq_some_iff] at hd
      obtain ⟨e, he, rfl⟩ := hd
      obtain ⟨fr, hf, ha⟩ := h.frame he
      rw [if_pos haj]
      refine ⟨_, congrArg _ hf, ha.closure, ?_, fun q hq => ?_⟩
      · exact Array.size_setIfInBounds.trans ha.size
      · dsimp only at hq ⊢
        have hq' := ha.values q hq
        by_cases hqr : q = r
        · subst hqr
          rw [if_pos rfl]
          exact Array.getElem?_setIfInBounds_self_of_lt (Array.getElem?_eq_some_iff.mp hq').1
        · rw [if_neg hqr, ← hq']
          exact Array.getElem?_setIfInBounds_ne fun hrq => hqr (Fin.ext hrq.symm)
    case isFalse haj =>
      rw [if_neg haj]
      exact h.frame hd
  globals := h.globals
  caches_size := h.caches_size
  caches _ _ _ _ _ hk hp ht := h.caches_true (World.grows_set ..) (fun _ _ h => h) hk hp ht
  nextObject := h.nextObject

theorem enter (h : s.Agrees N w) {c : Closure} (hc : w.Known c)
    (hsize : c.template.tempBase ≤ c.template.frameSize) : (s.enter c).Agrees N (w.enter c) where
  valid := h.valid.enter hc
  frames_size := by simp only [Store.enter, World.enter, Array.size_push, h.frames_size]
  frames j d hd := by
    rw [World.enter_environments] at hd
    rw [enter_frames, h.frames_size]
    split at hd
    case isTrue hj =>
      obtain rfl := Option.some.inj hd
      rw [if_pos hj]
      refine ⟨_, rfl, rfl, Array.size_replicate, fun r hr => ?_⟩
      rw [Array.getElem?_replicate, if_pos (Nat.lt_of_lt_of_le hr hsize)]
    case isFalse hj =>
      rw [if_neg hj]
      exact h.frame hd
  globals := h.globals
  caches_size := h.caches_size
  caches _ _ _ _ _ hk hp ht := h.caches_true (World.grows_enter ..) (fun _ _ h => h) hk hp ht
  nextObject := h.nextObject

theorem addClosure (h : s.Agrees N w) (f : Function) (parent : Option Nat) :
    s.addClosure.Agrees N (w.addClosure f parent) where
  valid := h.valid.addClosure f parent
  frames_size := h.frames_size
  frames := h.frames
  globals := h.globals
  caches_size := by simp only [Store.addClosure, World.addClosure, Array.size_push, h.caches_size]
  caches j k g p t hk hp ht := by
    rw [World.addClosure_procedures, ← h.caches_size] at hp
    rw [Store.addClosure, Array.getElem?_push] at hk
    by_cases hj : j = s.caches.size
    · rw [if_pos hj, Option.some.injEq] at hk
      subst hk
      exact ⟨fun _ _ hl => (nomatch hl), fun _ _ hl => (nomatch hl)⟩
    · rw [if_neg hj] at hk hp
      exact h.caches_true (World.grows_addClosure ..) (fun _ _ h => h) hk hp ht
  nextObject := h.nextObject

theorem withNextObject (h : s.Agrees N w) (n : Nat) :
    Store.Agrees N { s with nextObject := n } { w with nextObject := n } where
  valid := h.valid.nextObject n
  frames_size := h.frames_size
  frames := h.frames
  globals := h.globals
  caches_size := h.caches_size
  caches _ _ _ _ _ hk hp ht := h.caches_true (World.grows_nextObject ..) (fun _ _ h => h) hk hp ht
  nextObject := rfl

theorem touch (h : s.Agrees N w) (name : String) :
    Store.Agrees N { s with globals := (s.globals.touch name).2 } w where
  valid := h.valid
  frames_size := h.frames_size
  frames := h.frames
  globals n := (Globals.find?_touch _ _ n).trans (h.globals n)
  caches_size := h.caches_size
  caches _ _ _ _ _ hk hp ht :=
    h.caches_true (.refl w) (fun _ _ ha => Globals.address?_touch_of_some ha name) hk hp ht
  nextObject := h.nextObject

theorem setGlobal (h : s.Agrees N w) {name : String} (ha : s.globals.address? name = some a)
    (hv : v.BuiltFrom w.Known N) :
    Store.Agrees N { s with globals := s.globals.write a v } (w.setGlobal name v) where
  valid := h.valid.setGlobal hv
  frames_size := h.frames_size
  frames := h.frames
  globals n := by
    rw [Globals.find?_write ha, World.setGlobal, h.globals n]
  caches_size := h.caches_size
  caches _ _ _ _ _ hk hp ht := h.caches_true (World.grows_setGlobal ..)
    (fun _ _ ha => (Globals.address?_write ..).trans ha) hk hp ht
  nextObject := h.nextObject

/-- A cache may remember what is true. -/
theorem remember (h : s.Agrees N w) {f : Function} {parent : Option Nat} {t : Template}
    (hp : w.procedures[a]? = some (f, parent)) (ht : f.template = .ok t) {m : Cache → Cache}
    (hm : ∀ k : Cache, k.True t parent s.globals w → (m k).True t parent s.globals w) :
    (s.remember a m).Agrees N w where
  valid := h.valid
  frames_size := h.frames_size
  frames := h.frames
  globals := h.globals
  caches_size := by rw [← h.caches_size]; exact Array.size_modify
  caches j k g p u hk hp' hu := by
    rw [Store.remember, Array.getElem?_modify] at hk
    split at hk
    · rename_i haj
      subst haj
      rw [hp, Option.some.injEq, Prod.mk.injEq] at hp'
      obtain ⟨rfl, rfl⟩ := hp'
      obtain rfl : t = u := Except.ok.inj (ht.symm.trans hu)
      rw [Option.map_eq_some_iff] at hk
      obtain ⟨k', hk', rfl⟩ := hk
      exact hm k' (h.caches a k' f parent t hk' hp ht)
    · exact h.caches j k g p u hk hp' hu
  nextObject := h.nextObject

end Agrees

end Store

end RegisterScheme
