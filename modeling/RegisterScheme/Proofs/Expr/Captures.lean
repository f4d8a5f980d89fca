import RegisterScheme.Proofs.Expr.Changes

/-! What a default value does to the scopes around it: it captures variables of theirs, and declares
nothing in them. -/

namespace RegisterScheme

open ScopeChain

/-- A variable of a scope further out. -/
def Binding.IsCaptured (b : Binding) : Prop :=
  ∃ distance r, b.kind = .variable (.captured distance r)

/-- A scope with perhaps more captures. -/
def Scope.Gains (s t : Scope) : Prop :=
  ∃ new, t.bindings = s.bindings ++ new ∧ ∀ b ∈ new, b.IsCaptured

namespace Scope

variable {s t : Scope}

theorem Gains.refl (s : Scope) : s.Gains s := ⟨[], by simp, by simp⟩

theorem Gains.trans {u : Scope} (h : s.Gains t) (h' : t.Gains u) : s.Gains u := by
  obtain ⟨new, ht, hnew⟩ := h
  obtain ⟨more, hu, hmore⟩ := h'
  exact ⟨new ++ more, by rw [hu, ht, List.append_assoc], List.forall_mem_append.mpr ⟨hnew, hmore⟩⟩

instance : Trans Gains Gains Gains := ⟨Gains.trans⟩

theorem Gains.subset (h : s.Gains t) : s.bindings ⊆ t.bindings := by
  obtain ⟨new, hbindings, -⟩ := h
  exact hbindings ▸ List.subset_append_left _ _

/-- What a scope has gained is no variable of its own. -/
theorem Gains.holds (h : s.Gains t) {name : String} {r : Register} (ht : t.Holds name r) :
    s.Holds name r := by
  obtain ⟨new, hbindings, hnew⟩ := h
  obtain ⟨b, hb, hname, hr⟩ := ht
  rw [hbindings] at hb
  obtain hb | hb := List.mem_append.mp hb
  · exact ⟨b, hb, hname, hr⟩
  · obtain ⟨distance, q, hkind⟩ := hnew b hb
    rw [Binding.register?, hkind] at hr
    cases hr

theorem Gains.binds (h : s.Gains t) {name : String} (hs : s.binds name = true) :
    t.binds name = true := by
  obtain ⟨new, hbindings, -⟩ := h
  rw [Scope.binds, hbindings, List.any_append]
  exact Bool.or_eq_true_iff.mpr (.inl hs)

theorem gains_capture {name : String} {r : Register} {n owner : Nat} {scopes : List Scope} :
    List.Forall₂ Gains scopes (capture name r n owner scopes).2 := by
  refine forall₂_capture Gains.refl (fun s owner slot t h => ?_) n owner scopes
  obtain ⟨-, -, rfl⟩ := define_eq_ok h
  exact ⟨_, rfl, by simp [Binding.IsCaptured]⟩

end Scope

namespace ScopeChain

/-- The scopes around the innermost one have perhaps more captures. -/
structure Inward (c d : ScopeChain) : Prop where
  primitives : d.primitives = c.primitives
  outer : List.Forall₂ Scope.Gains c.scopes.tail d.scopes.tail

/-- All scopes have perhaps more captures. -/
structure Gains (c d : ScopeChain) : Prop where
  primitives : d.primitives = c.primitives
  scopes : List.Forall₂ Scope.Gains c.scopes d.scopes

instance : Trans Gains Gains Gains :=
  ⟨fun h h' => ⟨h'.primitives.trans h.primitives, forall₂_trans h.scopes h'.scopes⟩⟩

theorem Gains.refl (c : ScopeChain) : c.Gains c :=
  ⟨rfl, List.forall₂_same.mpr fun s _ => .refl s⟩

instance : Closed Inward where
  refl c := ⟨rfl, (Gains.refl c).scopes |> forall₂_tail⟩
  trans h h' := ⟨h'.primitives.trans h.primitives, forall₂_trans h.outer h'.outer⟩
  head hs _ := ⟨rfl, by rw [hs]; exact List.forall₂_same.mpr fun s _ => .refl s⟩
  capture _ _ _ _ _ := ⟨rfl, forall₂_tail Scope.gains_capture⟩
  objects c _ := ⟨rfl, forall₂_tail (Gains.refl c).scopes⟩
  scope h := ⟨h.primitives, forall₂_tail h.outer⟩

end ScopeChain

namespace Resolving

variable {c d : ScopeChain} {expand : Expand} {n : Nat} {names : List String}

/-- A default only leads to captures in the scopes around it. -/
theorem defaultValue_gains (ha : ∀ s, Along Inward (expand s)) (form item : Sexpr) :
    Keeps Gains (fun _ => True) c (defaultValue expand form item) fun _ _ => True := by
  have hscope : Along Inward (do
      let parameters ← (return .none : Resolving (Parameters Function))
      let body ← body expand [form] item.location
      return (parameters, body)) :=
    .bind (.pure _) fun _ =>
      .bind (along_body ha _ _) fun _ => .pure _
  exact Keeps.bind (keeps_inScope (hscope.keeps _) fun d hd => ⟨hd.primitives, hd.outer⟩)
    fun _ d _ _ => .pure (.refl d) trivial

end Resolving

end RegisterScheme
