import Mathlib.Data.List.Forall2
import Mathlib.Order.Basic
import RegisterScheme.Expr.Basic

/-! Resolved expressions that differ in their places, in the objects of their quotations, and in the
slots that globals have in the scope of the whole program. -/

namespace RegisterScheme

/-- Which objects of quotations stand for each other, and which slots of the scope of the whole
program do. -/
structure Renumbering where
  objects : Nat → Nat → Prop
  globals : Nat → Nat → Prop

instance : Preorder Renumbering where
  le r s := (∀ i j, r.objects i j → s.objects i j) ∧ ∀ i j, r.globals i j → s.globals i j
  le_refl _ := ⟨fun _ _ h => h, fun _ _ h => h⟩
  le_trans _ _ _ h h' :=
    ⟨fun i j hij => h'.1 i j (h.1 i j hij), fun i j hij => h'.2 i j (h.2 i j hij)⟩

section

variable (r : Renumbering)

/-- The same datum with other objects. -/
structure Quotation.Alike (q q' : Quotation) : Prop where
  datum : q'.datum = q.datum
  objects : ∀ m < q.datum.objects, r.objects (q.first + m) (q'.first + m)

/-- Variables so many procedures deep. Outside of all there are only globals. -/
def VariableRef.Alike : (level : Nat) → (v v' : VariableRef) → Prop
  | 0, v, v' => ∃ i j, v = .global i ∧ v' = .global j ∧ r.globals i j
  | _ + 1, v, v' => v = v'

/-- The scope of a procedure, so many deep, captures variables of other procedures alone. -/
def Scope.CapturesWithin (s : Scope) (level : Nat) : Prop :=
  ∀ name distance q, ⟨name, .variable (.captured distance q)⟩ ∈ s.bindings →
    0 < distance ∧ distance < level

mutual

inductive Expr.Alike : Nat → Expr → Expr → Prop
  | literal {n : Nat} {q q' : Quotation} {l l' : Option Location} (quotation : q.Alike r q') :
      Expr.Alike n (.literal q l) (.literal q' l')
  | reference {n : Nat} {v v' : VariableRef} {l l' : Option Location}
      (target : v.Alike r n v') : Expr.Alike n (.reference v l) (.reference v' l')
  | assignment {n : Nat} {v v' : VariableRef} {e e' : Expr} {l l' : Option Location}
      (target : v.Alike r n v') (value : Expr.Alike n e e') :
      Expr.Alike n (.assignment v e l) (.assignment v' e' l')
  | branch {n : Nat} {test test' consequent consequent' : Expr}
      {alternative alternative' : Option Expr} {l l' : Option Location}
      (tests : Expr.Alike n test test')
      (consequents : Expr.Alike n consequent consequent')
      (alternatives : OptionalExpr.Alike n alternative alternative') :
      Expr.Alike n (.branch test consequent alternative l)
        (.branch test' consequent' alternative' l')
  | cond {n : Nat} {cs cs' : List (Clause Expr)} {otherwise otherwise' : Option Expr}
      {l l' : Option Location} (clauses : Clauses.Alike n cs cs')
      (alternatives : OptionalExpr.Alike n otherwise otherwise') :
      Expr.Alike n (.cond cs otherwise l) (.cond cs' otherwise' l')
  | operation {n : Nat} {op : Operator} {es es' : List Expr} {l l' : Option Location}
      (operands : Exprs.Alike n es es') : Expr.Alike n (.operation op es l) (.operation op es' l')
  | call {n : Nat} {e e' : Expr} {es es' : List Expr} {l l' : Option Location}
      (callee : Expr.Alike n e e') (arguments : Exprs.Alike n es es') :
      Expr.Alike n (.call e es l) (.call e' es' l')
  | lambda {n : Nat} {f f' : Function} {l l' : Option Location}
      (function : Function.Alike (n + 1) f f') : Expr.Alike n (.lambda f l) (.lambda f' l')
  | sequence {n : Nat} {es es' : List Expr} {l l' : Option Location}
      (items : Exprs.Alike n es es') : Expr.Alike n (.sequence es l) (.sequence es' l')

inductive OptionalExpr.Alike : Nat → Option Expr → Option Expr → Prop
  | none {n : Nat} : OptionalExpr.Alike n .none .none
  | some {n : Nat} {e e' : Expr} (value : Expr.Alike n e e') :
      OptionalExpr.Alike n (.some e) (.some e')

inductive Exprs.Alike : Nat → List Expr → List Expr → Prop
  | nil {n : Nat} : Exprs.Alike n [] []
  | cons {n : Nat} {e e' : Expr} {es es' : List Expr} (head : Expr.Alike n e e')
      (tail : Exprs.Alike n es es') : Exprs.Alike n (e :: es) (e' :: es')

inductive Clauses.Alike : Nat → List (Clause Expr) → List (Clause Expr) → Prop
  | nil {n : Nat} : Clauses.Alike n [] []
  | cons {n : Nat} {c c' : Clause Expr} {cs cs' : List (Clause Expr)}
      (test : Expr.Alike n c.test c'.test) (body : OptionalExpr.Alike n c.body c'.body)
      (tail : Clauses.Alike n cs cs') : Clauses.Alike n (c :: cs) (c' :: cs')

/-- A procedure inside others, which are counted together with itself. -/
inductive Function.Alike : Nat → Function → Function → Prop
  | intro {n : Nat} {f f' : Function} (name : f'.name = f.name) (scope : f'.scope = f.scope)
      (captures : f.scope.CapturesWithin n)
      (required : f'.parameters.required = f.parameters.required)
      (rest : f'.parameters.rest = f.parameters.rest)
      (optional : Defaults.Alike (n + 1) f.parameters.optional f'.parameters.optional)
      (keys : Defaults.Alike (n + 1) f.parameters.keys f'.parameters.keys)
      (body : Expr.Alike n f.body f'.body) : Function.Alike n f f'

inductive Defaults.Alike : Nat → List (OptionalParameter Function) →
    List (OptionalParameter Function) → Prop
  | nil {n : Nat} : Defaults.Alike n [] []
  | none {n : Nat} {name : String} {slot : Nat} {q : Register}
      {ps ps' : List (OptionalParameter Function)} (tail : Defaults.Alike n ps ps') :
      Defaults.Alike n (⟨name, slot, q, .none⟩ :: ps) (⟨name, slot, q, .none⟩ :: ps')
  | some {n : Nat} {name : String} {slot : Nat} {q : Register} {f f' : Function}
      {ps ps' : List (OptionalParameter Function)} (default : Function.Alike n f f')
      (tail : Defaults.Alike n ps ps') :
      Defaults.Alike n (⟨name, slot, q, .some f⟩ :: ps) (⟨name, slot, q, .some f'⟩ :: ps')

end

end

variable {r s : Renumbering} {n : Nat}

theorem Quotation.Alike.mono (hrs : r ≤ s) {q q' : Quotation} (h : q.Alike r q') : q.Alike s q' :=
  ⟨h.datum, fun m hm => hrs.1 _ _ (h.objects m hm)⟩

theorem VariableRef.Alike.mono (hrs : r ≤ s) {v v' : VariableRef} (h : v.Alike r n v') :
    v.Alike s n v' := by
  cases n with
  | zero =>
    obtain ⟨i, j, hi, hj, h⟩ := h
    exact ⟨i, j, hi, hj, hrs.2 i j h⟩
  | succ n => exact h

mutual

theorem Expr.Alike.mono (hrs : r ≤ s) {n : Nat} {e e' : Expr} : e.Alike r n e' → e.Alike s n e'
  | .literal q => .literal (q.mono hrs)
  | .reference v => .reference (v.mono hrs)
  | .assignment v h => .assignment (v.mono hrs) (h.mono hrs)
  | .branch h h' ha => .branch (h.mono hrs) (h'.mono hrs) (ha.mono hrs)
  | .cond hs ha => .cond (hs.mono hrs) (ha.mono hrs)
  | .operation hs => .operation (hs.mono hrs)
  | .call h hs => .call (h.mono hrs) (hs.mono hrs)
  | .lambda h => .lambda (h.mono hrs)
  | .sequence hs => .sequence (hs.mono hrs)

theorem OptionalExpr.Alike.mono (hrs : r ≤ s) {n : Nat} {e e' : Option Expr} :
    OptionalExpr.Alike r n e e' → OptionalExpr.Alike s n e e'
  | .none => .none
  | .some h => .some (h.mono hrs)

theorem Exprs.Alike.mono (hrs : r ≤ s) {n : Nat} {es es' : List Expr} :
    Exprs.Alike r n es es' → Exprs.Alike s n es es'
  | .nil => .nil
  | .cons h hs => .cons (h.mono hrs) (hs.mono hrs)

theorem Clauses.Alike.mono (hrs : r ≤ s) {n : Nat} {cs cs' : List (Clause Expr)} :
    Clauses.Alike r n cs cs' → Clauses.Alike s n cs cs'
  | .nil => .nil
  | .cons h hb hs => .cons (h.mono hrs) (hb.mono hrs) (hs.mono hrs)

theorem Function.Alike.mono (hrs : r ≤ s) {n : Nat} {f f' : Function} :
    f.Alike r n f' → f.Alike s n f'
  | .intro name scope captures required rest optional keys body =>
    .intro name scope captures required rest (optional.mono hrs) (keys.mono hrs) (body.mono hrs)

theorem Defaults.Alike.mono (hrs : r ≤ s) {n : Nat} {ps ps' : List (OptionalParameter Function)} :
    Defaults.Alike r n ps ps' → Defaults.Alike s n ps ps'
  | .nil => .nil
  | .none hs => .none (hs.mono hrs)
  | .some h hs => .some (h.mono hrs) (hs.mono hrs)

end

theorem Exprs.Alike.of_forall₂ {es es' : List Expr} (h : List.Forall₂ (Expr.Alike r n) es es') :
    Exprs.Alike r n es es' := by
  induction h with
  | nil => exact .nil
  | cons h _ ih => exact .cons h ih

theorem Exprs.Alike.append {es es' fs fs' : List Expr} (h : Exprs.Alike r n fs fs') :
    Exprs.Alike r n es es' → Exprs.Alike r n (es ++ fs) (es' ++ fs')
  | .nil => h
  | .cons he hs => .cons he (h.append hs)

theorem Defaults.Alike.append {ps ps' qs qs' : List (OptionalParameter Function)}
    (h : Defaults.Alike r n qs qs') : Defaults.Alike r n ps ps' →
      Defaults.Alike r n (ps ++ qs) (ps' ++ qs')
  | .nil => h
  | .none hs => .none (h.append hs)
  | .some hf hs => .some hf (h.append hs)

theorem Defaults.Alike.length_eq {ps ps' : List (OptionalParameter Function)} :
    Defaults.Alike r n ps ps' → ps'.length = ps.length
  | .nil => rfl
  | .none hs | .some _ hs => congrArg (· + 1) hs.length_eq

end RegisterScheme
