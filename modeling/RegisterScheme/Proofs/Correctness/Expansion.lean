import RegisterScheme.Proofs.Correctness.Execution
import RegisterScheme.Proofs.Expr.Changes

/-! Resolution only adds to the scopes around a place, whatever they hold and also when it fails. A
register or a slot that an expression was given before stays what it was. -/

namespace RegisterScheme

open ScopeChain

namespace ScopeChain

/-- The same scopes, each with perhaps more in it. -/
structure Grows (c d : ScopeChain) : Prop where
  primitives : d.primitives = c.primitives
  scopes : ScopesGrow c.scopes d.scopes

instance : Closed Grows where
  refl c := ⟨rfl, ScopesGrow.refl c.scopes⟩
  trans h h' := ⟨h'.primitives.trans h.primitives, h.scopes.trans h'.scopes⟩
  head hs hgrow := ⟨rfl, hs ▸ .cons hgrow (ScopesGrow.refl _)⟩
  capture name r _ owner _ := ⟨rfl, grows_capture name r _ owner _⟩
  objects c _ := ⟨rfl, ScopesGrow.refl c.scopes⟩
  scope h := ⟨h.primitives, forall₂_tail h.scopes⟩

end ScopeChain

namespace Resolving

/-- Whether it succeeds or fails, the resolution of an expression leaves as many scopes as there
were. Each has its bindings where they were, in front of any new ones, and no fewer registers or
shadowed primitives. -/
theorem expand_grows (e : Sexpr) (c : ScopeChain) :
    (remains (expand e c)).primitives = c.primitives ∧
      (remains (expand e c)).depth = c.depth ∧
      ∀ (i : Nat) (s : Scope), c.scopes[i]? = some s → ∃ t : Scope,
        (remains (expand e c)).scopes[i]? = some t ∧
        s.bindings <+: t.bindings ∧ s.registers ≤ t.registers ∧ s.shadowed <+: t.shadowed := by
  have hgrows : c.Grows (remains (expand e c)) := by
    have hkeeps := (along_expandWithin (R := Grows) e.height e).keeps c
    cases hrun : expand e c with
    | ok a d => exact (hkeeps.of_ok hrun).1
    | error f d => exact (hkeeps.of_error hrun).1
  refine ⟨hgrows.primitives, hgrows.scopes.length_eq.symm, fun i s hs => ?_⟩
  obtain ⟨t, ht, hst⟩ := forall₂_getElem? hgrows.scopes hs
  exact ⟨t, ht, hst.bindings, hst.registers, hst.shadowed⟩

end Resolving

end RegisterScheme
