import RegisterScheme.Proofs.Alongside
import RegisterScheme.Proofs.Expr.Alike
import RegisterScheme.Template.Generator

/-! Templates and code that differ in their places and in the objects of their quotations, and
builders that generate them. -/

namespace RegisterScheme

/-- The same instructions, made from other places. -/
def Code.Alike (xs ys : Code) : Prop := ys.map Line.instruction = xs.map Line.instruction

/-- Literals of one kind: the same datum, or templates that are related. -/
inductive Literal.Alike {τ : Type} (R : τ → τ → Prop) : Literal τ → Literal τ → Prop
  | quotation {q q' : Quotation} (datum : q'.datum = q.datum) :
      Literal.Alike R (.quotation q) (.quotation q')
  | unspecified : Literal.Alike R .unspecified .unspecified
  | template {t t' : τ} (template : R t t') : Literal.Alike R (.template t) (.template t')

/-- The same procedure, made from other places, with other objects in its quotations. -/
inductive Template.Alike : Template → Template → Prop
  | intro {t t' : Template} (name : t'.name = t.name) (code : Code.Alike t.code t'.code)
      (literals : List.Forall₂ (Literal.Alike Template.Alike) t.literals t'.literals)
      (slots : t'.slots = t.slots) (required : t'.required = t.required)
      (optional : t'.optional = t.optional) (keys : t'.keys = t.keys) (rest : t'.rest = t.rest)
      (frameSize : t'.frameSize = t.frameSize) (tempBase : t'.tempBase = t.tempBase) :
      Template.Alike t t'

theorem forall₂_concat {α β : Type} {R : α → β → Prop} {as : List α} {a : α} {bs : List β}
    (h : List.Forall₂ R (as ++ [a]) bs) :
    ∃ bs' b, bs = bs' ++ [b] ∧ List.Forall₂ R as bs' ∧ R a b := by
  induction as generalizing bs with
  | nil =>
    rcases h with _ | ⟨h, _ | _⟩
    exact ⟨[], _, rfl, .nil, h⟩
  | cons a as ih =>
    rcases h with _ | ⟨h, hs⟩
    obtain ⟨bs', b, rfl, hs, hlast⟩ := ih hs
    exact ⟨_ :: bs', b, rfl, .cons h hs, hlast⟩

namespace Code.Alike

variable {xs xs' ys ys' : Code}

theorem nil : Code.Alike [] [] := rfl

theorem length_eq (h : Code.Alike xs ys) : ys.length = xs.length := by
  have hlength := congrArg List.length h
  rwa [List.length_map, List.length_map] at hlength

theorem append (h : Code.Alike xs ys) (h' : Code.Alike xs' ys') :
    Code.Alike (xs ++ xs') (ys ++ ys') := by
  unfold Code.Alike at *
  rw [List.map_append, List.map_append, h, h']

theorem flatten {pieces pieces' : List Code} (h : List.Forall₂ Code.Alike pieces pieces') :
    Code.Alike pieces.flatten pieces'.flatten := by
  induction h with
  | nil => exact .nil
  | cons h _ ih => exact h.append ih

end Code.Alike

namespace Builder

/-- The same registers are taken, and literals of the same kinds are there. -/
structure Alike (b b' : Builder) : Prop where
  literals : List.Forall₂ (Literal.Alike Template.Alike) b.literals.toList b'.literals.toList
  globalNames : b'.globalNames = b.globalNames
  unspecified : b'.unspecified = b.unspecified
  free : b'.free = b.free
  used : b'.used = b.used

def pairing : Pairing Steady Builder Builder :=
  ⟨fun _ => Alike, fun _ _ => True, fun _ _ _ _ => trivial⟩

theorem Alike.size_eq {b b' : Builder} (h : b.Alike b') : b'.literals.size = b.literals.size := by
  rw [← Array.length_toList, ← Array.length_toList, h.literals.length_eq]

end Builder

namespace Generating

variable {α β γ δ : Type}

/-- Two computations that generate alike. -/
abbrev Alike (x : Generating α) (y : Generating β) (Q : α → β → Prop) : Prop :=
  Alongside Builder.pairing .steady x y fun _ => Q

variable {Q : α → β → Prop} {P : γ → δ → Prop}

namespace Alike

theorem next {x : Generating α} {y : Generating β} {f : α → Generating γ} {g : β → Generating δ}
    (hx : Alike x y Q) (hf : ∀ a b, Q a b → Alike (f a) (g b) P) :
    Alike (x >>= f) (y >>= g) P :=
  hx.bind fun _ a b _ h => hf a b h

/-- What comes after an answer that is the same both times. -/
theorem same {x y : Generating γ} {f : γ → Generating α} {g : γ → Generating β}
    (hx : Alike x y Eq) (hf : ∀ a, Alike (f a) (g a) Q) : Alike (x >>= f) (y >>= g) Q := by
  refine hx.next ?_
  rintro a _ rfl
  exact hf a

theorem get {f : Builder → Generating α} {g : Builder → Generating β}
    (h : ∀ b b', b.Alike b' → Alike (f b) (g b') Q) : Alike (get >>= f) (get >>= g) Q :=
  .get_bind h

theorem set {b b' : Builder} (h : b.Alike b') :
    Alike (MonadStateOf.set b : Generating PUnit) (MonadStateOf.set b' : Generating PUnit) Eq :=
  ⟨fun _ _ _ => .ok (le_refl _) h rfl⟩

theorem modify {f : Builder → Builder} (h : ∀ b b', b.Alike b' → (f b).Alike (f b')) :
    Alike (modify f : Generating PUnit) (modify f : Generating PUnit) Eq :=
  ⟨fun _ _ hb => .ok (le_refl _) (h _ _ hb) rfl⟩

theorem mapM {R : α → β → Prop} {f : α → Generating γ} {g : β → Generating δ} {as : List α}
    {bs : List β} (h : List.Forall₂ R as bs) (hf : ∀ a b, R a b → Alike (f a) (g b) P) :
    Alike (as.mapM f) (bs.mapM g) (List.Forall₂ P) :=
  Alongside.mapM (P := fun _ => P) (fun _ _ _ _ _ h => h) h fun _ a b _ hab => hf a b hab

/-- The same for all elements of a list. -/
theorem mapM_self {f : α → Generating γ} {g : α → Generating δ} (as : List α)
    (hf : ∀ a, Alike (f a) (g a) P) : Alike (as.mapM f) (as.mapM g) (List.Forall₂ P) := by
  refine mapM (R := Eq) (List.forall₂_eq_eq_eq ▸ rfl) ?_
  rintro a _ rfl
  exact hf a

end Alike

/-! ### Registers and literals -/

theorem alike_allocate : Alike allocate allocate Eq := by
  refine .get fun b b' h => ?_
  obtain ⟨literals, globalNames, unspecified, free, used⟩ := b'
  obtain ⟨h, rfl, rfl, rfl, rfl⟩ := h
  split
  · exact Alike.same (.set ⟨h, rfl, rfl, rfl, rfl⟩) fun _ => .pure rfl
  · exact .throw _ _

theorem alike_freeFrom (scope : Scope) (register : Nat) :
    Alike (freeFrom scope register) (freeFrom scope register) Eq := by
  unfold freeFrom
  split
  · exact .modify fun _ _ h => ⟨h.literals, h.globalNames, h.unspecified, rfl, h.used⟩
  · exact .throw _ _

theorem alike_freed {xs ys : Code} (scope : Scope) (h : Code.Alike xs ys) (mark : Nat) : Alike
    (do
      freeFrom scope mark
      return xs)
    (do
      freeFrom scope mark
      return ys) Code.Alike :=
  (alike_freeFrom scope mark).same fun _ => .pure h

theorem alike_pushLiteral {l l' : Literal Template} (h : Literal.Alike Template.Alike l l') :
    Alike (pushLiteral l) (pushLiteral l') Eq := by
  refine .get fun b b' hb => ?_
  rw [hb.size_eq]
  split
  · exact .throw _ _
  · refine Alike.same (.set ⟨?_, hb.globalNames, hb.unspecified, hb.free, hb.used⟩)
      fun _ => .pure rfl
    simpa using List.rel_append hb.literals (.cons h .nil)

theorem sameConstant_eq {l l' : Literal Template} {q q' : Quotation}
    (h : Literal.Alike Template.Alike l l') (hq : q'.datum = q.datum) :
    sameConstant l' q' = sameConstant l q := by
  unfold sameConstant
  cases h with
  | unspecified | template => rfl
  | @quotation p p' hp =>
    obtain ⟨first, datum⟩ := p
    obtain ⟨first', datum'⟩ := p'
    obtain rfl : datum' = datum := hp
    rw [hq]
    cases datum' <;> cases q.datum <;> rfl

theorem findIdx?_eq {ls ls' : List (Literal Template)} {q q' : Quotation}
    (h : List.Forall₂ (Literal.Alike Template.Alike) ls ls') (hq : q'.datum = q.datum) :
    ls'.findIdx? (sameConstant · q') = ls.findIdx? (sameConstant · q) := by
  induction h with
  | nil => rfl
  | cons h _ ih => rw [List.findIdx?_cons, List.findIdx?_cons, sameConstant_eq h hq, ih]

theorem alike_literal {q q' : Quotation} (h : q'.datum = q.datum) :
    Alike (literal q) (literal q') Eq := by
  have htoList (p : Literal Template → Bool) (ls : Array (Literal Template)) :
      ls.findIdx? p = ls.toList.findIdx? p := List.findIdx?_toArray p ls.toList
  refine .get fun b b' hb => ?_
  rw [htoList, htoList, findIdx?_eq hb.literals h]
  split
  · exact .pure rfl
  · exact alike_pushLiteral (.quotation h)

theorem alike_globalName (scope : Scope) (slot : Nat) :
    Alike (globalName scope slot) (globalName scope slot) Eq := by
  refine .get fun b b' h => ?_
  rw [h.globalNames]
  split
  · exact .pure rfl
  · split
    · exact .throw _ _
    · split
      · refine Alike.same (alike_literal rfl) fun index => ?_
        refine Alike.same (.modify fun b b' h => ⟨h.literals, ?_, h.unspecified, h.free, h.used⟩)
          fun _ => .pure rfl
        rw [h.globalNames]
      · exact .throw _ _

theorem alike_unspecified : Alike unspecified unspecified Eq := by
  refine .get fun b b' h => ?_
  rw [h.unspecified]
  split
  · exact .pure rfl
  · refine Alike.same (alike_pushLiteral .unspecified) fun index => ?_
    exact Alike.same (.modify fun b b' h => ⟨h.literals, h.globalNames, rfl, h.free, h.used⟩)
      fun _ => .pure rfl

/-! ### Lines of code -/

theorem alike_emit (i : Except Overrun Instruction) (place place' : Option Location) :
    Alike (emit place i) (emit place' i) Code.Alike := by
  cases i with
  | ok i => exact .pure rfl
  | error o => exact .throw _ _

theorem alike_jump (lines : Nat) (place place' : Option Location) :
    Alike (jump place lines) (jump place' lines) Code.Alike :=
  alike_emit _ _ _

theorem alike_withExits {last last' : Code} (hlast : Code.Alike last last')
    {pieces pieces' : List Code} (h : List.Forall₂ Code.Alike pieces pieces') (lines : Nat)
    (place place' : Option Location) : Alike (withExits place last lines pieces)
      (withExits place' last' lines pieces') Code.Alike := by
  induction h generalizing lines with
  | nil => exact .pure hlast
  | cons hpiece _ ih =>
    rw [withExits, withExits, hpiece.length_eq]
    refine (alike_jump _ _ _).next fun xs ys hjump => ?_
    exact (ih _).next fun _ _ hmore => .pure ((hpiece.append hjump).append hmore)

theorem alike_joined {last last' : Code} (hlast : Code.Alike last last')
    {pieces pieces' : List Code} (h : List.Forall₂ Code.Alike pieces pieces')
    (place place' : Option Location) :
    Alike (joined place pieces last) (joined place' pieces' last') Code.Alike := by
  have hlines (n : Nat) : pieces'.foldl (fun n piece => n + (piece.length + 1)) n =
      pieces.foldl (fun n piece => n + (piece.length + 1)) n := by
    induction h generalizing n with
    | nil => rfl
    | cons hpiece _ ih => rw [List.foldl_cons, List.foldl_cons, hpiece.length_eq, ih]
  rw [joined, joined, hlast.length_eq, hlines]
  exact alike_withExits hlast h _ _ _

end Generating

end RegisterScheme
