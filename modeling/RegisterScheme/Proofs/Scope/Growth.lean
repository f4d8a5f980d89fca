import Mathlib.Data.List.Forall2
import RegisterScheme.Proofs.Scope.Valid
import RegisterScheme.Scope.Chain

/-! The scopes of a chain only grow, so that what is said of the scopes around a place stays true
while a program is resolved. Captures lead from scope to scope outward, and apart from the
procedures that templates call no name is a global inside a procedure that declares it. -/

namespace RegisterScheme

namespace Scope

/-- A scope with perhaps more bindings, but the same parameters. -/
structure Extends (s t : Scope) : Prop extends s.Grows t where
  arguments : ∀ kind, t.arguments kind = s.arguments kind

theorem Extends.refl (s : Scope) : s.Extends s := ⟨.refl s, fun _ => rfl⟩

theorem Extends.trans {s t u : Scope} (h : s.Extends t) (h' : t.Extends u) : s.Extends u :=
  ⟨h.toGrows.trans h'.toGrows, fun k => (h'.arguments k).trans (h.arguments k)⟩

instance : Trans Grows Grows Grows := ⟨Grows.trans⟩

instance : Trans Extends Extends Extends := ⟨Extends.trans⟩

/-- A scope with perhaps more captures and globals, but the same variables of its own. -/
structure Imports (s t : Scope) : Prop extends s.Extends t where
  holds : ∀ name r, t.Holds name r → s.Holds name r

theorem Imports.refl (s : Scope) : s.Imports s := ⟨.refl s, fun _ _ h => h⟩

/-- The procedures that templates call by name. -/
def templateProcedures : List String := ["append", "list->vector"]

/-- A variable that is so many scopes further out than a scope: one of its own, or one that it
captures. -/
def Leads (s : Scope) (name : String) (distance : Nat) (r : Register) : Prop :=
  distance = 0 ∧ s.Holds name r ∨ ⟨name, .variable (.captured distance r)⟩ ∈ s.bindings

/-- What a scope satisfies inside others: a capture leads through the next scope, and a name that
it takes for a global is declared by none of the others. -/
structure Inside (s : Scope) (outer : List Scope) : Prop where
  valid : s.Valid
  captures : ∀ name distance r, ⟨name, .variable (.captured distance r)⟩ ∈ s.bindings →
    ∃ o d, outer.head? = some o ∧ distance = d + 1 ∧ o.Leads name d r
  globals : ∀ name, ⟨name, .variable .global⟩ ∈ s.bindings → name ∉ templateProcedures →
    ∀ o ∈ outer, ∀ r, ¬ o.Holds name r

theorem inside_empty (outer : List Scope) : empty.Inside outer where
  valid := valid_empty
  captures := by simp [empty]
  globals := by simp [empty]

end Scope

/-- Scopes in a row, innermost first, each as it should be inside those around it. -/
def ScopesValid : List Scope → Prop
  | [] => True
  | s :: outer => s.Inside outer ∧ ScopesValid outer

theorem forall₂_trans {α β γ : Type} {R : α → β → Prop} {S : β → γ → Prop} {T : α → γ → Prop}
    [Trans R S T] {as : List α} {bs : List β} {cs : List γ} (h : List.Forall₂ R as bs)
    (h' : List.Forall₂ S bs cs) : List.Forall₂ T as cs := by
  induction h generalizing cs with
  | nil =>
    cases h'
    exact .nil
  | cons hab _ ih =>
    cases h' with
    | cons hbc h' => exact .cons (Trans.trans hab hbc) (ih h')

theorem forall₂_getElem? {α β : Type} {R : α → β → Prop} {as : List α} {bs : List β}
    (h : List.Forall₂ R as bs) {i : Nat} {a : α} (ha : as[i]? = some a) :
    ∃ b, bs[i]? = some b ∧ R a b := by
  induction h generalizing i with
  | nil => simp at ha
  | cons hab _ ih =>
    cases i with
    | zero =>
      rw [List.getElem?_cons_zero, Option.some.injEq] at ha
      exact ⟨_, rfl, ha ▸ hab⟩
    | succ i => exact ih ha

theorem forall₂_tail {α β : Type} {R : α → β → Prop} {as : List α} {bs : List β}
    (h : List.Forall₂ R as bs) : List.Forall₂ R as.tail bs.tail := by
  cases h with
  | nil => exact .nil
  | cons _ h => exact h

/-- The scopes around a place have grown, each for itself. -/
abbrev ScopesGrow : List Scope → List Scope → Prop := List.Forall₂ Scope.Grows

/-- The scopes around a place have grown, but have no new parameters. -/
abbrev ScopesExtend : List Scope → List Scope → Prop := List.Forall₂ Scope.Extends

theorem ScopesGrow.refl (scopes : List Scope) : ScopesGrow scopes scopes :=
  List.forall₂_same.mpr fun s _ => .refl s

theorem ScopesGrow.trans {a b c : List Scope} (h : ScopesGrow a b) (h' : ScopesGrow b c) :
    ScopesGrow a c :=
  forall₂_trans h h'

theorem ScopesExtend.refl (scopes : List Scope) : ScopesExtend scopes scopes :=
  List.forall₂_same.mpr fun s _ => .refl s

theorem ScopesExtend.trans {a b c : List Scope} (h : ScopesExtend a b) (h' : ScopesExtend b c) :
    ScopesExtend a c :=
  forall₂_trans h h'

theorem ScopesExtend.grow {a b : List Scope} (h : ScopesExtend a b) : ScopesGrow a b :=
  h.imp fun _ _ h => h.toGrows

theorem ScopesExtend.tail {a b : List Scope} (h : ScopesExtend a b) :
    ScopesExtend a.tail b.tail :=
  forall₂_tail h

theorem ScopesValid.drop {scopes : List Scope} (h : ScopesValid scopes) (n : Nat) :
    ScopesValid (scopes.drop n) := by
  induction n generalizing scopes with
  | zero => exact h
  | succ n ih =>
    cases scopes with
    | nil => exact h
    | cons s outer => exact ih h.2

/-- A captured variable lies in the frame of a scope further out. -/
theorem ScopesValid.captured {s : Scope} {outer : List Scope} (h : ScopesValid (s :: outer))
    {name : String} {distance : Nat} {r : Register}
    (hb : ⟨name, .variable (.captured distance r)⟩ ∈ s.bindings) :
    ∃ d o, distance = d + 1 ∧ outer[d]? = some o ∧ o.Holds name r := by
  induction outer generalizing s distance with
  | nil =>
    obtain ⟨o, d, ho, -⟩ := h.1.captures name distance r hb
    cases ho
  | cons next outer ih =>
    obtain ⟨o, d, ho, hd, hl⟩ := h.1.captures name distance r hb
    obtain rfl : next = o := Option.some.inj ho
    obtain ⟨rfl, hh⟩ | hb := hl
    · exact ⟨0, next, hd, rfl, hh⟩
    · obtain ⟨e, o, rfl, ho, hh⟩ := ih h.2 hb
      exact ⟨e + 1, o, hd, ho, hh⟩

namespace ScopeChain

/-- Each of the scopes that captures run through takes one new binding at most. -/
theorem forall₂_capture {R : Scope → Scope → Prop} (hrefl : ∀ s, R s s) {name : String}
    {r : Register}
    (hdefine : ∀ s owner slot t,
      s.define name (.variable (.captured owner r)) none = .ok (slot, t) → R s t)
    (n owner : Nat) (scopes : List Scope) :
    List.Forall₂ R scopes (capture name r n owner scopes).2 := by
  have hsame (scopes : List Scope) : List.Forall₂ R scopes scopes :=
    List.forall₂_same.mpr fun s _ => hrefl s
  induction n generalizing owner scopes with
  | zero => cases scopes <;> exact hsame _
  | succ n ih =>
    cases scopes with
    | nil => exact .nil
    | cons s outer =>
      have houter := ih (owner - 1) outer
      unfold capture
      split
      · rename_i hinner
        rw [hinner] at houter
        exact .cons (hrefl s) houter
      · rename_i hinner
        rw [hinner] at houter
        split
        · exact .cons (hrefl s) houter
        · split
          · exact .cons (hrefl s) houter
          · rename_i hcaptured
            exact .cons (hdefine s owner _ _ hcaptured) houter

/-- The chain inside some procedure: there is a scope, and the scopes fit together. -/
structure Sound (c : ScopeChain) : Prop where
  ne_nil : c.scopes ≠ []
  valid : ScopesValid c.scopes

/-- The chain after a computation inside the innermost scope: the same scopes without new
parameters. -/
structure Extends (c d : ScopeChain) : Prop where
  primitives : d.primitives = c.primitives
  scopes : ScopesExtend c.scopes d.scopes
  sound : c.Sound → d.Sound

/-- The chain after a computation that may also declare parameters of the innermost scope. -/
structure Declares (c d : ScopeChain) : Prop where
  primitives : d.primitives = c.primitives
  scopes : ScopesGrow c.scopes d.scopes
  outer : ScopesExtend c.scopes.tail d.scopes.tail
  sound : c.Sound → d.Sound

theorem Extends.refl (c : ScopeChain) : c.Extends c := ⟨rfl, .refl _, id⟩

theorem Extends.trans {a b c : ScopeChain} (h : a.Extends b) (h' : b.Extends c) : a.Extends c :=
  ⟨h'.primitives.trans h.primitives, h.scopes.trans h'.scopes, h'.sound ∘ h.sound⟩

theorem Declares.refl (c : ScopeChain) : c.Declares c := ⟨rfl, .refl _, .refl _, id⟩

theorem Declares.trans {a b c : ScopeChain} (h : a.Declares b) (h' : b.Declares c) :
    a.Declares c :=
  ⟨h'.primitives.trans h.primitives, h.scopes.trans h'.scopes, h.outer.trans h'.outer,
    h'.sound ∘ h.sound⟩

instance : Std.Refl Extends := ⟨Extends.refl⟩

instance : Trans Extends Extends Extends := ⟨Extends.trans⟩

instance : Std.Refl Declares := ⟨Declares.refl⟩

instance : Trans Declares Declares Declares := ⟨Declares.trans⟩

theorem Extends.declares {c d : ScopeChain} (h : c.Extends d) : c.Declares d :=
  ⟨h.primitives, h.scopes.grow, h.scopes.tail, h.sound⟩

/-- What holds of the scopes around a place from here on, however they grow. -/
def Lasting (P : List Scope → Prop) (c : ScopeChain) : Prop :=
  ∀ scopes, ScopesGrow c.scopes scopes → P scopes

theorem Lasting.now {P : List Scope → Prop} {c : ScopeChain} (h : Lasting P c) : P c.scopes :=
  h c.scopes (.refl _)

theorem Lasting.mono {P : List Scope → Prop} {c d : ScopeChain} (h : Lasting P c)
    (hcd : ScopesGrow c.scopes d.scopes) : Lasting P d :=
  fun scopes hs => h scopes (hcd.trans hs)

end ScopeChain

end RegisterScheme
