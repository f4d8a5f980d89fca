import RegisterScheme.Proofs.Correctness.Execution
import RegisterScheme.Proofs.Evaluation.Natives
import RegisterScheme.Proofs.Value.Words

/-! Arithmetic of integers is exact or an error, of two operands and of many. -/

namespace RegisterScheme

namespace Arithmetic

/-- The last of some integers if all of them fit, and otherwise an overflow. -/
def Exact (mnemonic : String) (ps : List Int) (r : Except Failure Value) : Prop :=
  ((∀ p ∈ ps, Fits p) → ∃ m : Int64, ps.getLast? = some m.toInt ∧ r = .ok (.integer m)) ∧
    (¬ (∀ p ∈ ps, Fits p) → r = .error (.runtime (.integerOverflow mnemonic)))

/-- What is left of a dividend, with the sign of another number. -/
structure Remains (x y sign r : Int) : Prop where
  divides : y ∣ x - r
  smaller : r.natAbs < y.natAbs
  signed : r ≠ 0 → (r < 0 ↔ sign < 0)

variable {op : Arithmetic} {mnemonic : String} {p : Int} {ps : List Int} {r : Except Failure Value}

theorem exact_checked (mnemonic : String) (n : Int) :
    Exact mnemonic [n] (checked mnemonic n) := by
  constructor
  · intro h
    obtain ⟨m, hm, hmn⟩ := fixnum?_of_fits (h n (by simp))
    exact ⟨m, by simp [hmn], by rw [checked, hm]⟩
  · intro h
    rw [checked, fixnum?_of_not_fits (by simpa using h)]

theorem Exact.cons (h : Exact mnemonic ps r) (hp : Fits p) (hps : ps ≠ []) :
    Exact mnemonic (p :: ps) r := by
  have hall : (∀ q ∈ p :: ps, Fits q) ↔ ∀ q ∈ ps, Fits q := by simp [hp]
  have hlast : (p :: ps).getLast? = ps.getLast? := by
    obtain ⟨q, qs, rfl⟩ := List.exists_cons_of_ne_nil hps
    rfl
  rwa [Exact, hall, hlast]

/-- A fold of an operation that is exact, along its partial results. -/
theorem foldlM_exact {f : Int → Int → Int}
    (hop : ∀ x y, op.integers x y = checked mnemonic (f x.toInt y.toInt)) (x : Int64)
    (ys : List Int64) : Exact mnemonic ((ys.map Int64.toInt).scanl f x.toInt)
      ((ys.map Value.integer).foldlM op.apply (.integer x)) := by
  induction ys generalizing x with
  | nil => exact ⟨fun _ => ⟨x, rfl, rfl⟩, fun h => absurd (fits_toInt x) (by simpa using h)⟩
  | cons y ys ih =>
    have hstep : op.apply (.integer x) (.integer y) = checked mnemonic (f x.toInt y.toInt) :=
      hop x y
    rw [List.map_cons, List.map_cons, List.scanl_cons, List.foldlM_cons, hstep]
    by_cases hfits : Fits (f x.toInt y.toInt)
    · obtain ⟨m, hm, hmn⟩ := fixnum?_of_fits hfits
      rw [checked, hm, ← hmn]
      exact (ih m).cons (fits_toInt x) (by simp)
    · rw [checked, fixnum?_of_not_fits hfits]
      have hhead : f x.toInt y.toInt ∈ (ys.map Int64.toInt).scanl f (f x.toInt y.toInt) := by
        cases ys <;> simp [List.scanl_cons]
      exact ⟨fun h => absurd (h _ (by simp [hhead])) hfits, fun _ => rfl⟩

theorem remains_tmod {x y : Int} (hy : y ≠ 0) : Remains x y x (x.tmod y) where
  divides := Int.dvd_self_sub_of_tmod_eq rfl
  smaller := by
    rw [Int.natAbs_tmod]
    exact Nat.mod_lt _ (by omega)
  signed h := by
    have hnonneg : 0 ≤ x → 0 ≤ x.tmod y := Int.tmod_nonneg _
    have hnonpos : x ≤ 0 → x.tmod y ≤ 0 := (Word.tmod_nonpos · _)
    omega

theorem remains_fmod {x y : Int} (hy : y ≠ 0) : Remains x y y (x.fmod y) := by
  have hdivides : y ∣ x - x.fmod y := Int.dvd_self_sub_of_fmod_eq rfl
  rcases Int.lt_or_gt_of_ne hy with hneg | hpos
  · have hnonneg := Int.fmod_nonneg_of_pos (-x) (b := -y) (by omega)
    have hlt := Int.fmod_lt_of_pos (-x) (b := -y) (by omega)
    rw [Int.neg_fmod_neg] at hnonneg hlt
    exact ⟨hdivides, by omega, by omega⟩
  · have hnonneg := Int.fmod_nonneg_of_pos x hpos
    have hlt := Int.fmod_lt_of_pos x hpos
    exact ⟨hdivides, by omega, by omega⟩

theorem Remains.checked_eq {x sign r : Int} {y : Int64} (h : Remains x y.toInt sign r)
    (mnemonic : String) : ∃ m : Int64, m.toInt = r ∧ checked mnemonic r = .ok (.integer m) := by
  have hy := fits_toInt y
  have hsmaller := h.smaller
  have hfits : Fits r := by
    simp only [Fits] at hy ⊢
    omega
  obtain ⟨m, hm, hmr⟩ := fixnum?_of_fits hfits
  exact ⟨m, hmr, by rw [checked, hm]⟩

/-- What the operations give for two integers, with `words` for the steps that they take. -/
structure ExactOn (x y : Int64) : Prop where
  words (op : Arithmetic) : op.words x y = some (op.apply (.integer x) (.integer y))
  sum : Exact Opcode.add.mnemonic [x.toInt + y.toInt] (add.apply (.integer x) (.integer y))
  difference :
    Exact Opcode.subtract.mnemonic [x.toInt - y.toInt] (subtract.apply (.integer x) (.integer y))
  product :
    Exact Opcode.multiply.mnemonic [x.toInt * y.toInt] (multiply.apply (.integer x) (.integer y))
  by_zero (op : Arithmetic) (hop : op = divide ∨ op = modulo ∨ op = remainder) :
    op.apply (.integer x) (.integer y) = .error (.runtime .divisionByZero) ↔ y = 0
  quotient (hy : y ≠ 0) (hdvd : y.toInt ∣ x.toInt) :
    Exact Opcode.divide.mnemonic [x.toInt / y.toInt] (divide.apply (.integer x) (.integer y))
  inexact (hy : y ≠ 0) (hdvd : ¬ y.toInt ∣ x.toInt) :
    divide.apply (.integer x) (.integer y) = .ok (.float (x.toFloat / y.toFloat))
  modulus (hy : y ≠ 0) : ∃ r : Int64, Remains x.toInt y.toInt y.toInt r.toInt ∧
    modulo.apply (.integer x) (.integer y) = .ok (.integer r)
  remainder (hy : y ≠ 0) : ∃ r : Int64, Remains x.toInt y.toInt x.toInt r.toInt ∧
    remainder.apply (.integer x) (.integer y) = .ok (.integer r)

theorem checked_ne_divisionByZero (mnemonic : String) (n : Int) :
    checked mnemonic n ≠ .error (.runtime .divisionByZero) := by
  unfold checked
  cases fixnum? n <;> simp [Failure.runtime]

theorem apply_integers (op : Arithmetic) (x y : Int64) :
    op.apply (.integer x) (.integer y) = op.integers x y := rfl

theorem exactOn (x y : Int64) : ExactOn x y where
  words op := op.words_eq x y
  sum := exact_checked _ _
  difference := exact_checked _ _
  product := exact_checked _ _
  by_zero op hop := by
    have hzero : y = 0 ↔ y.toInt = 0 := Int64.toInt_inj.symm
    rw [apply_integers, hzero]
    by_cases hy : y.toInt = 0
    · rcases hop with rfl | rfl | rfl <;> simp [integers, hy]
    · rcases hop with rfl | rfl | rfl
      · by_cases hdvd : x.toInt.tmod y.toInt = 0
        · simp [integers, hy, hdvd, checked_ne_divisionByZero]
        · simp [integers, hy, hdvd]
      · simp [integers, hy, checked_ne_divisionByZero]
      · simp [integers, hy, checked_ne_divisionByZero]
  quotient hy hdvd := by
    have hzero := Word.toInt_ne_zero hy
    have hmod := Int.tmod_eq_zero_of_dvd hdvd
    have hquotient : x.toInt.tdiv y.toInt = x.toInt / y.toInt := Int.tdiv_eq_ediv_of_dvd hdvd
    have hexact : Exact Opcode.divide.mnemonic [x.toInt.tdiv y.toInt]
        (checked divide.opcode.mnemonic (x.toInt.tdiv y.toInt)) := exact_checked _ _
    rw [apply_integers, integers, ← hquotient]
    simpa [hzero, hmod] using hexact
  inexact hy hdvd := by
    have hzero := Word.toInt_ne_zero hy
    have hmod : x.toInt.tmod y.toInt ≠ 0 := fun h => hdvd (Int.dvd_of_tmod_eq_zero h)
    simp [apply_integers, integers, hzero, hmod]
  modulus hy := by
    have hzero := Word.toInt_ne_zero hy
    have hremains := remains_fmod (x := x.toInt) hzero
    obtain ⟨r, hr, hchecked⟩ := hremains.checked_eq modulo.opcode.mnemonic
    refine ⟨r, hr ▸ hremains, ?_⟩
    simp [apply_integers, integers, hzero, hchecked]
  remainder hy := by
    have hzero := Word.toInt_ne_zero hy
    have hremains := remains_tmod (x := x.toInt) hzero
    obtain ⟨r, hr, hchecked⟩ := hremains.checked_eq remainder.opcode.mnemonic
    refine ⟨r, hr ▸ hremains, ?_⟩
    simp [apply_integers, integers, hzero, hchecked]

end Arithmetic

namespace Operator

/-- The opcode by which a sum, product or difference of integers is computed, and the integers on
the way to it. -/
def course? : Operator → List Int → Option (Opcode × List Int)
  | add, ns => some (.add, ns.scanl (· + ·) 0)
  | multiply, ns => some (.multiply, ns.scanl (· * ·) 1)
  | subtract, [n] => some (.negate, [-n])
  | subtract, n :: ns => some (.subtract, ns.scanl (· - ·) n)
  | _, _ => none

variable {op : Operator} {opcode : Opcode} {ps : List Int}

open Arithmetic in
/-- What an operator does with integers is exact along its course. -/
theorem operate_integers (xs : List Int64)
    (h : op.course? (xs.map Int64.toInt) = some (opcode, ps)) : ∃ r,
      Evaluating.operate op (xs.map Value.integer) = Evaluating.ofExcept r ∧
        Exact opcode.mnemonic ps r := by
  have hadd (x y : Int64) : Arithmetic.add.integers x y =
      checked Opcode.add.mnemonic (x.toInt + y.toInt) := rfl
  have hmultiply (x y : Int64) : Arithmetic.multiply.integers x y =
      checked Opcode.multiply.mnemonic (x.toInt * y.toInt) := rfl
  have hsubtract (x y : Int64) : Arithmetic.subtract.integers x y =
      checked Opcode.subtract.mnemonic (x.toInt - y.toInt) := rfl
  cases op with
  | add =>
    cases h
    match xs with
    | [] => exact ⟨.ok (.integer 0), rfl, foldlM_exact hadd 0 []⟩
    | [x] => exact ⟨_, rfl, foldlM_exact hadd 0 [x]⟩
    | x :: y :: ys =>
      have hfold := foldlM_exact hadd x (y :: ys)
      have hzero : Fits 0 := fits_toInt 0
      refine ⟨_, rfl, ?_⟩
      have hcourse := hfold.cons hzero (by simp)
      simpa using hcourse
  | multiply =>
    cases h
    match xs with
    | [] => exact ⟨.ok (.integer 1), rfl, foldlM_exact hmultiply 1 []⟩
    | [x] => exact ⟨_, rfl, foldlM_exact hmultiply 1 [x]⟩
    | x :: y :: ys =>
      have hfold := foldlM_exact hmultiply x (y :: ys)
      have hone : Fits 1 := fits_toInt 1
      refine ⟨_, rfl, ?_⟩
      have hcourse := hfold.cons hone (by simp)
      simpa using hcourse
  | subtract =>
    match xs with
    | [] => cases h
    | [x] =>
      cases h
      exact ⟨_, rfl, exact_checked _ _⟩
    | x :: y :: ys =>
      cases h
      exact ⟨_, rfl, foldlM_exact hsubtract x (y :: ys)⟩
  | _ => cases h

end Operator

namespace Lowering

variable {n : Nat} {scope : Scope} {outer : List Scope} {σ : Setting scope outer} {b c : Builder}
  {code : Code} {op : Operator} {es : List Expr} {location : Option Location} {r : Register}
  {w w' : World} {s : Store} {vs : List Value} {result : Except Failure Value}

/-- The code of an operator form leaves the result of the operator in its register, or fails with
its failure at the place of the form. -/
theorem operation_leaves (hs : scope.Valid) (hb : b.Valid scope outer)
    (hheight : (Expr.operation op es location).height ≤ n + 1)
    (hsc : (Expr.operation op es location).Scoped (scope :: outer))
    (ht : scope.registers ≤ r.val) (hr : r.val < b.free)
    (hcode : (within n).operation scope r op es location b = .ok code c)
    (hroom : (c.room scope).Within σ.room) (hw : σ.Ready w s) (hvs : σ.values es w = .ok vs w')
    (hand : op ≠ .and) (hor : op ≠ .or)
    (hresult : Evaluating.operate op vs = Evaluating.ofExcept result) :
    match result with
    | .ok v => ∃ s', σ.run code 0 s = .ok (.skip 0) s' ∧ σ.Holds s' r v
    | .error e => ∃ s', σ.run code 0 s = .error (e.located location) s' := by
  have hmade := (operation_made (correct_within n) hs hb hheight hsc ht hr).of_ok hcode
  have hruns := hmade.2.works.runs σ hroom w s hw
  have hmeaning : σ.evaluate true (.operation op es location) w =
      Evaluating.located location (Evaluating.ofExcept result) w' := by
    rw [σ.evaluate_operation hand hor, Setting.operation, bind_of_ok hvs, hresult]
  cases result with
  | ok v =>
    have hvalue : σ.evaluate true (.operation op es location) w = .ok v w' := hmeaning
    obtain ⟨u, w'', k, s', hu, hrun, -, j, rfl, rfl, hh, -⟩ | ⟨e, w'', s', he, -⟩ := hruns.cases
    · rw [hvalue] at hu
      cases hu
      exact ⟨s', hrun, hh⟩
    · rw [hvalue] at he
      cases he
  | error e =>
    have hfailure : σ.evaluate true (.operation op es location) w =
        .error (e.located location) w' := hmeaning
    obtain ⟨u, w'', k, s', hu, -⟩ | ⟨e', w'', s', he, hrun, -⟩ := hruns.cases
    · rw [hfailure] at hu
      cases hu
    · rw [hfailure] at he
      cases he
      exact ⟨s', hrun⟩

/-- Integers are exact or an error: in each operation on two of them, whose steps never overflow
without a check, and in the code of a sum, a product or a difference, which fails exactly if an
integer on the way to the result does not fit. -/
theorem integers_exact : (∀ x y, Arithmetic.ExactOn x y) ∧
    ∀ {n : Nat} {scope : Scope} {outer : List Scope} (σ : Setting scope outer) {b c : Builder}
      {code : Code} {op : Operator} {es : List Expr} {location : Option Location} {r : Register}
      {w w' : World} {s : Store} (xs : List Int64) {opcode : Opcode} {ps : List Int},
      scope.Valid → b.Valid scope outer → (Expr.operation op es location).height ≤ n + 1 →
      (Expr.operation op es location).Scoped (scope :: outer) → scope.registers ≤ r.val →
      r.val < b.free → (within n).operation scope r op es location b = .ok code c →
      (c.room scope).Within σ.room → σ.Ready w s →
      σ.values es w = .ok (xs.map Value.integer) w' →
      op.course? (xs.map Int64.toInt) = some (opcode, ps) →
      ((∀ p ∈ ps, Fits p) → ∃ m s', ps.getLast? = some m.toInt ∧
        σ.run code 0 s = .ok (.skip 0) s' ∧ σ.Holds s' r (.integer m)) ∧
      (¬ (∀ p ∈ ps, Fits p) → ∃ s', σ.run code 0 s =
        .error ((Failure.runtime (.integerOverflow opcode.mnemonic)).located location) s') := by
  refine ⟨Arithmetic.exactOn, ?_⟩
  intro n scope outer σ b c code op es location r w w' s xs opcode ps hs hb hheight hsc ht hr hcode
    hroom hw hvs hcourse
  obtain ⟨result, hresult, hfits, hoverflow⟩ := op.operate_integers xs hcourse
  have hand : op ≠ .and := by
    rintro rfl
    cases hcourse
  have hor : op ≠ .or := by
    rintro rfl
    cases hcourse
  have hleaves := operation_leaves hs hb hheight hsc ht hr hcode hroom hw hvs hand hor hresult
  constructor
  · intro hps
    obtain ⟨m, hlast, rfl⟩ := hfits hps
    obtain ⟨s', hrun, hholds⟩ := hleaves
    exact ⟨m, s', hlast, hrun, hholds⟩
  · intro hps
    obtain rfl := hoverflow hps
    exact hleaves

/-- `3037000500`, the same again, and `0` -/
def productOperands : List Expr :=
  [3037000500, 3037000500, 0].map fun n => .literal ⟨0, .atom (.integer n)⟩ none

/-- `(* 3037000500 3037000500 0)` -/
def overflowing : Function :=
  ⟨none, .none, .empty, .operation .multiply productOperands none, none⟩

theorem overflowing_scoped : overflowing.Scoped [] := by
  have hprogram : Function.ofProgram .standard 0 [.list [.identifier "*" none,
      .literal (.integer 3037000500) none, .literal (.integer 3037000500) none,
      .literal (.integer 0) none] none] = .ok (overflowing, 0) := by with_unfolding_all rfl
  exact Function.ofProgram_ok hprogram

/-- The code of the form, behind a temporary for its value. -/
theorem overflowing_compiled : ∃ t code c, overflowing.template = .ok t ∧
    (within 1).operation .empty 0 .multiply productOperands none
      { Builder.start 0 with free := 1, used := 1 } = .ok code c ∧
      (c.room .empty).Within t.room := by
  refine ⟨_, _, _, by with_unfolding_all rfl, by with_unfolding_all rfl, ?_, ⟨[], ?_⟩, ?_⟩
  · with_unfolding_all decide
  · with_unfolding_all rfl
  · with_unfolding_all rfl

/-- A program can be run from the start of the machine. -/
theorem exists_ready {f : Function} {t : Template} (hscoped : f.Scoped [])
    (ht : f.template = .ok t) :
    ∃ (σ : Setting f.scope []) (w : World) (s : Store), σ.Ready w s ∧ σ.room = t.room := by
  have hrenders := hscoped.renders ht
  let closure : Closure := ⟨0, t, none⟩
  let w := ((World.ofGlobals Machine.tupleGlobals).addClosure f none).enter closure
  let s := (Store.ofGlobals Machine.tupleGlobals).addClosure.enter closure
  have hclosed := (Store.agrees_ofGlobals Machine.tupleGlobals_withoutClosures).addClosure f none
  have hknown : ((World.ofGlobals Machine.tupleGlobals).addClosure f none).KnownAs closure f [] :=
    ⟨rfl, ht, .outermost, hscoped⟩
  let σ : Setting f.scope [] := Machine.bodySetting (Machine.collecting (some 1))
    (Machine.collecting_trusted _) (c := closure) hrenders 0
    (Machine.callClosure_simulates (Machine.collecting_trusted _) 0)
  exact ⟨σ, w, s, ⟨hclosed.enter ⟨_, _, hknown⟩ hrenders.tempBase_le,
    ⟨f, hknown.grows (World.grows_enter ..), rfl⟩, ⟨_, rfl, rfl⟩⟩, rfl⟩

/-- The least integer has no quotient by minus one, and a product that is zero fails if its first
two factors overflow. -/
theorem integers_exact_overflowing :
    Arithmetic.divide.apply (.integer .minValue) (.integer (-1)) =
      .error (.runtime (.integerOverflow "DIV")) ∧
    ∃ (σ : Setting .empty []) (s s' : Store) (code : Code) (c : Builder),
      (within 1).operation .empty 0 .multiply productOperands none
        { Builder.start 0 with free := 1, used := 1 } = .ok code c ∧
      σ.run code 0 s = .error ((Failure.runtime (.integerOverflow "MUL")).located none) s' := by
  have hquotient := (integers_exact.1 .minValue (-1)).quotient (by decide) (by decide)
  refine ⟨hquotient.2 fun h => absurd (h (2 ^ 63) (by decide)).2 (by decide), ?_⟩
  obtain ⟨t, code, c, ht, hcode, hroom⟩ := overflowing_compiled
  obtain ⟨σ, w, s, hw, hσ⟩ := exists_ready overflowing_scoped ht
  have hbuilder : Builder.Valid .empty [] { Builder.start 0 with free := 1, used := 1 } :=
    ⟨by decide, by decide, by decide, by simp [Builder.start], by simp [Builder.start],
      by simp [Builder.start]⟩
  obtain ⟨-, hoverflows⟩ := integers_exact.2 σ [3037000500, 3037000500, 0]
    overflowing_scoped.valid hbuilder (by decide) overflowing_scoped.body (by decide) (by decide)
    hcode (hσ ▸ hroom) hw rfl rfl
  obtain ⟨s', hrun⟩ := hoverflows fun h => by
    have hsquare := (h (3037000500 * 3037000500) (by decide)).2
    omega
  exact ⟨σ, s, s', code, c, hcode, hrun⟩

end Lowering

end RegisterScheme
