import RegisterScheme.Proofs.Expr.Changes
import RegisterScheme.Proofs.Expr.Outline

/-! Outside its procedures a program is resolved in one scope, which holds nothing but the globals
that the outline tells. What happens inside a procedure leaves that scope as it is. -/

namespace RegisterScheme

open ScopeChain

namespace ScopeChain

/-- The outermost scope is as it was, if it is not the innermost as well. -/
structure Beneath (c d : ScopeChain) : Prop where
  primitives : d.primitives = c.primitives
  depth : d.depth = c.depth
  outermost : d.scopes.tail.getLast? = c.scopes.tail.getLast?

/-- What the last of several scopes is does not depend on the first. -/
theorem getLast?_tail_congr {scopes scopes' : List Scope} (hlength : scopes'.length = scopes.length)
    (hlast : scopes'.getLast? = scopes.getLast?) :
    scopes'.tail.getLast? = scopes.tail.getLast? := by
  rw [List.getLast?_tail, List.getLast?_tail, hlength, hlast]

/-- Captures do not come as far as the scope of the variable. -/
theorem getLast?_capture (name : String) (r : Register) {n : Nat} (owner : Nat)
    {scopes : List Scope} (h : n < scopes.length) :
    (capture name r n owner scopes).2.getLast? = scopes.getLast? := by
  induction n generalizing owner scopes with
  | zero => cases scopes <;> simp only [capture]
  | succ n ih =>
    cases scopes with
    | nil => cases h
    | cons s outer =>
      have hn : n < outer.length := Nat.lt_of_succ_lt_succ h
      have hlength := (grows_capture name r n (owner - 1) outer).length_eq
      obtain ⟨t, ht⟩ : ∃ t, (capture name r (n + 1) owner (s :: outer)).2 =
          t :: (capture name r n (owner - 1) outer).2 := by
        simp only [capture]
        split
        · rename_i hinner
          exact ⟨s, by rw [hinner]⟩
        · rename_i hinner
          rw [hinner]
          split
          · exact ⟨s, rfl⟩
          · split
            · exact ⟨s, rfl⟩
            · exact ⟨_, rfl⟩
      have hlast := ih (owner - 1) hn
      obtain ⟨next, more, rfl⟩ := List.exists_cons_of_length_pos (Nat.zero_lt_of_lt hn)
      obtain ⟨next', more', hcapture⟩ := List.exists_cons_of_length_pos
        (l := (capture name r n (owner - 1) (next :: more)).2) (by omega)
      rw [ht, hcapture, List.getLast?_cons_cons, List.getLast?_cons_cons, ← hcapture, hlast]

instance : Closed Beneath where
  refl c := ⟨rfl, rfl, rfl⟩
  trans h h' := ⟨h'.primitives.trans h.primitives, h'.depth.trans h.depth,
    h'.outermost.trans h.outermost⟩
  head hs _ := ⟨rfl, by simp [depth, hs], by simp [hs]⟩
  capture {c} name r distance owner h := by
    have hlength := (grows_capture name r distance owner c.scopes).length_eq
    exact ⟨rfl, hlength.symm, getLast?_tail_congr hlength.symm (getLast?_capture name r owner h)⟩
  objects c _ := ⟨rfl, rfl, rfl⟩
  scope {c d} h := by
    have hdepth : d.scopes.length = c.scopes.length + 1 := h.depth
    have hlength : d.scopes.tail.length = c.scopes.length := by
      rw [List.length_tail]
      omega
    have hlast : d.scopes.tail.getLast? = c.scopes.getLast? := h.outermost
    exact ⟨h.primitives, hlength, getLast?_tail_congr hlength hlast⟩

theorem Beneath.tail_eq {c d : ScopeChain} {s : Scope} (hs : c.scopes = [s])
    (h : Beneath { c with scopes := .empty :: c.scopes } d) : d.scopes.tail = [s] := by
  have hdepth : d.scopes.length = c.scopes.length + 1 := h.depth
  have hlast : d.scopes.tail.getLast? = some s := by
    have hd := h.outermost
    rwa [hs] at hd
  have hlength : d.scopes.tail.length = 1 := by
    rw [List.length_tail, hdepth, hs]
    rfl
  obtain ⟨t, ht⟩ := List.length_eq_one_iff.mp hlength
  rw [ht] at hlast ⊢
  exact congrArg (fun s => [s]) (Option.some.inj hlast)

end ScopeChain

namespace Outline

/-- The scope of a program that has the globals of an outline. -/
def scope (o : Outline) (shadowed : List String) : Scope :=
  ⟨o.globals.map fun name => ⟨name, .variable .global⟩, 0, shadowed⟩

/-- A chain outside the procedures of a program. -/
structure Matches (o : Outline) (c : ScopeChain) : Prop where
  primitives : c.primitives = o.primitives
  scopes : ∃ shadowed, c.scopes = [o.scope shadowed] ∧
    ∀ name, name ∈ shadowed ↔ name ∈ o.defined ∧ (o.primitives.find? name).isSome

variable {o : Outline} {shadowed : List String} {name : String}

@[simp] theorem mention_primitives (o : Outline) (name : String) :
    (o.mention name).primitives = o.primitives := by
  unfold mention
  split <;> rfl

@[simp] theorem mention_defined (o : Outline) (name : String) :
    (o.mention name).defined = o.defined := by
  unfold mention
  split <;> rfl

theorem mention_of_mem (h : name ∈ o.globals) : o.mention name = o := if_pos h

theorem mention_globals (h : name ∉ o.globals) :
    (o.mention name).globals = o.globals ++ [name] := by
  rw [mention, if_neg h]

theorem mark?_ne_quote (o : Outline) (head : Sexpr) : o.mark? head ≠ some .quote := by
  unfold mark?
  split
  · split <;> simp
  · simp

theorem binds_scope : (o.scope shadowed).binds name = true ↔ name ∈ o.globals := by
  simp [Scope.binds, scope]

theorem find?_scope {slot : Nat} {b : Binding}
    (h : (o.scope shadowed).find? name = some (slot, b)) :
    b.kind = .variable .global ∧ name ∈ o.globals := by
  obtain ⟨hb, hname⟩ := Scope.find?_eq_some h
  have hmem := List.mem_of_getElem? hb
  obtain ⟨global, hglobal, rfl⟩ := List.mem_map.mp hmem
  exact ⟨rfl, hname ▸ hglobal⟩

theorem find?_scope_eq_none :
    (o.scope shadowed).find? name = none ↔ name ∉ o.globals := by
  rw [Scope.find?_eq_none, ← Bool.not_eq_true, binds_scope]

theorem add_scope (h : name ∉ o.globals) :
    (o.scope shadowed).add ⟨name, .variable .global⟩ = (o.mention name).scope shadowed := by
  simp only [scope, Scope.add, mention_globals h, List.map_append, List.map_singleton]

theorem shadow_scope (o : Outline) (shadowed : List String) (name : String) :
    ∃ more, (o.scope shadowed).shadow name = o.scope more ∧
      ∀ n, n ∈ more ↔ n ∈ shadowed ∨ n = name := by
  unfold Scope.shadow
  split
  · rename_i h
    have hmem : name ∈ shadowed := List.contains_iff_mem.mp h
    refine ⟨shadowed, rfl, fun n => ⟨.inl, ?_⟩⟩
    rintro (hn | rfl)
    · exact hn
    · exact hmem
  · exact ⟨shadowed ++ [name], rfl, by simp⟩

namespace Matches

variable {c : ScopeChain}

theorem isTopLevel (h : o.Matches c) : c.isTopLevel = true := by
  obtain ⟨shadowed, hs, -⟩ := h.scopes
  simp [ScopeChain.isTopLevel, depth, hs]

theorem findIn_eq (hs : c.scopes = [o.scope shadowed]) (name : String) :
    findIn name c.scopes =
      ((o.scope shadowed).find? name).map fun found => (0, found) := by
  rw [hs]
  simp only [findIn]
  cases (o.scope shadowed).find? name <;> rfl

theorem primitive? (h : o.Matches c) (name : String) : c.primitive? name = o.primitive? name := by
  obtain ⟨shadowed, hs, -⟩ := h.scopes
  rw [ScopeChain.primitive?, findIn_eq hs name, Outline.primitive?, h.primitives]
  cases hf : (o.scope shadowed).find? name with
  | none => rw [if_neg (find?_scope_eq_none.mp hf)]; rfl
  | some found =>
    obtain ⟨slot, n, kind⟩ := found
    obtain ⟨hkind, hmem⟩ := find?_scope hf
    obtain rfl : kind = .variable .global := hkind
    rw [if_pos hmem]
    rfl

theorem levelMark? (h : o.Matches c) : Resolving.levelMark? c = o.mark? := by
  have hp : c.primitive? = o.primitive? := funext h.primitive?
  unfold Resolving.levelMark?
  rw [hp]
  rfl

theorem spliced? (h : o.Matches c) (level : Nat) (item : Sexpr) :
    Resolving.spliced? c level item = o.spliced? level item := by
  have hm : Resolving.levelMark? c = o.mark? := h.levelMark?
  unfold Resolving.spliced?
  rw [hm]
  rfl

end Matches

end Outline

end RegisterScheme
