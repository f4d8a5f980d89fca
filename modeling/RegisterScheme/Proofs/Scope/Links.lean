import RegisterScheme.Proofs.Scope.Lookup

/-! Scopes in a row that anyone may add to, primitives among the bindings. Nothing is known of when
a name is declared, but captures lead outward, from each scope to the next. -/

namespace RegisterScheme

open ScopeChain

namespace Scope

/-- A scope whose captures lead through the next scope further out, over distances that can be
recorded. -/
structure Linked (s : Scope) (outer : List Scope) : Prop where
  ordered : s.Ordered
  captures : ∀ name distance r, ⟨name, .variable (.captured distance r)⟩ ∈ s.bindings →
    distance ≤ maxDistance ∧ ∃ o d, outer.head? = some o ∧ distance = d + 1 ∧ o.Leads name d r

namespace Linked

variable {s t : Scope} {b : Binding} {name : String} {outer outer' : List Scope}

theorem empty (outer : List Scope) : Scope.empty.Linked outer :=
  ⟨.empty, by simp [Scope.empty]⟩

/-- More bindings further out leave the links as they are. -/
theorem grow (h : s.Linked outer) (hg : ScopesGrow outer outer') : s.Linked outer' where
  ordered := h.ordered
  captures name distance r hb := by
    obtain ⟨hle, o, d, ho, hd, hl⟩ := h.captures name distance r hb
    cases hg with
    | nil => cases ho
    | cons hgrow _ =>
      cases ho
      exact ⟨hle, _, d, rfl, hd, hl.grows hgrow⟩

/-- What is new in a scope is no capture. -/
theorem of_bindings (h : s.Linked outer) (ht : t.Ordered)
    (hb : ∀ name distance r, ⟨name, .variable (.captured distance r)⟩ ∈ t.bindings →
      ⟨name, .variable (.captured distance r)⟩ ∈ s.bindings) : t.Linked outer :=
  ⟨ht, fun name distance r h' => h.captures name distance r (hb name distance r h')⟩

theorem append (h : s.Linked outer) (ht : t.Ordered) (hts : t.bindings = s.bindings ++ [b])
    (hk : ∀ distance r, b.kind ≠ .variable (.captured distance r)) : t.Linked outer := by
  refine h.of_bindings ht fun name distance r hb => ?_
  rw [hts] at hb
  obtain hb | hb := List.mem_append.mp hb
  · exact hb
  · exact absurd (congrArg Binding.kind (List.mem_singleton.mp hb)).symm (hk distance r)

theorem addCaptured (h : s.Linked outer) (hn : s.binds name = false) {o : Scope}
    (ho : outer.head? = some o) {d : Nat} {r : Register} (hl : o.Leads name d r)
    (hd : d + 1 ≤ maxDistance) : (s.add ⟨name, .variable (.captured (d + 1) r)⟩).Linked outer where
  ordered := h.ordered.add hn rfl
  captures n distance q hb := by
    obtain hb | hb := List.mem_append.mp hb
    · exact h.captures n distance q hb
    · cases List.mem_singleton.mp hb
      exact ⟨hd, o, d, ho, rfl, hl⟩

end Linked

end Scope

/-- Scopes in a row, innermost first, whose captures lead outward. -/
def ScopesLinked : List Scope → Prop
  | [] => True
  | s :: outer => s.Linked outer ∧ ScopesLinked outer

namespace ScopesLinked

theorem drop {scopes : List Scope} (h : ScopesLinked scopes) (n : Nat) :
    ScopesLinked (scopes.drop n) := by
  induction n generalizing scopes with
  | zero => exact h
  | succ n ih =>
    cases scopes with
    | nil => exact h
    | cons s outer => exact ih h.2

theorem ordered {scopes : List Scope} (h : ScopesLinked scopes) : ∀ s ∈ scopes, s.Ordered := by
  induction scopes with
  | nil => simp
  | cons s outer ih => exact List.forall_mem_cons.mpr ⟨h.1.ordered, ih h.2⟩

/-- A captured variable lies in the frame of a scope further out, and every scope between captures it
from there. -/
theorem captured {s : Scope} {outer : List Scope} (h : ScopesLinked (s :: outer)) {name : String}
    {distance : Nat} {r : Register}
    (hb : ⟨name, .variable (.captured distance r)⟩ ∈ s.bindings) :
    ∃ d, distance = d + 1 ∧ (∃ o, outer[d]? = some o ∧ o.Holds name r) ∧
      ∀ i < d, ∃ t, outer[i]? = some t ∧ ⟨name, .variable (.captured (d - i) r)⟩ ∈ t.bindings := by
  induction outer generalizing s distance with
  | nil =>
    obtain ⟨-, o, d, ho, -⟩ := h.1.captures name distance r hb
    cases ho
  | cons next outer ih =>
    obtain ⟨-, o, d, ho, hd, hl⟩ := h.1.captures name distance r hb
    obtain rfl : next = o := Option.some.inj ho
    obtain ⟨rfl, hh⟩ | hb' := hl
    · exact ⟨0, hd, ⟨next, rfl, hh⟩, fun i hi => absurd hi (Nat.not_lt_zero i)⟩
    · obtain ⟨e, rfl, howner, hbetween⟩ := ih h.2 hb'
      refine ⟨e + 1, hd, howner, fun i hi => ?_⟩
      cases i with
      | zero => exact ⟨next, rfl, hb'⟩
      | succ i =>
        obtain ⟨t, ht, hmem⟩ := hbetween i (by omega)
        exact ⟨t, ht, by rwa [Nat.add_sub_add_right]⟩

end ScopesLinked

namespace ScopeChain

/-- Captures make their way in from the scope that leads to the variable. If they come to an end on
the way, those that were made stay and are linked. -/
theorem capture_linked {name : String} {r : Register} {n owner : Nat} {scopes : List Scope}
    (hv : ScopesLinked scopes) (hn : ∀ i < n, ∀ s, scopes[i]? = some s → s.binds name = false)
    (ho : ∃ o d, scopes[n]? = some o ∧ o.Leads name d r ∧ owner = n + d) :
    ScopesGrow scopes (capture name r n owner scopes).2 ∧
      ScopesLinked (capture name r n owner scopes).2 ∧
      ∀ slot, (capture name r n owner scopes).1 = .ok slot →
        ∃ s, (capture name r n owner scopes).2.head? = some s ∧ s.Leads name owner r := by
  induction n generalizing owner scopes with
  | zero =>
    obtain ⟨o, d, ho, hl, rfl⟩ := ho
    have hz : capture name r 0 (0 + d) scopes = (.ok 0, scopes) := by simp only [capture]
    rw [hz, Nat.zero_add]
    exact ⟨.refl _, hv, fun slot _ => ⟨o, by rwa [List.head?_eq_getElem?], hl⟩⟩
  | succ n ih =>
    obtain ⟨o, d, ho, hl, rfl⟩ := ho
    cases scopes with
    | nil => cases ho
    | cons s outer =>
      have hne : n + 1 + d - 1 = n + d := by omega
      obtain ⟨hg, hvo, hok⟩ :=
        ih hv.2 (fun i hin t ht => hn (i + 1) (by omega) t ht) ⟨o, d, ho, hl, rfl⟩
      have hs : s.Linked (capture name r n (n + d) outer).2 := hv.1.grow hg
      have hb : s.binds name = false := hn 0 (by omega) s rfl
      simp only [capture, hne]
      cases hc : capture name r n (n + d) outer with
      | mk res outer' =>
        rw [hc] at hg hvo hok hs
        cases res with
        | error e => exact ⟨.cons (.refl s) hg, ⟨hs, hvo⟩, fun slot h => by cases h⟩
        | ok inner =>
          dsimp only
          split
          · exact ⟨.cons (.refl s) hg, ⟨hs, hvo⟩, fun slot h => by cases h⟩
          · rename_i hdistance
            obtain ⟨o', ho', hl'⟩ := hok inner rfl
            have hd : n + 1 + d = n + d + 1 := by omega
            rw [Scope.define_of_not_binds _ _ hb]
            refine ⟨.cons (Scope.grows_add s _) hg, ⟨?_, hvo⟩, fun slot _ => ⟨_, rfl, .inr ?_⟩⟩
            · rw [hd]
              exact hs.addCaptured hb ho' hl' (by omega)
            · exact List.mem_append_right _ (List.mem_singleton_self _)

end ScopeChain

end RegisterScheme
