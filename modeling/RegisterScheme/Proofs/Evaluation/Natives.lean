import Mathlib.Data.List.Basic
import RegisterScheme.Proofs.Decimal.Integer
import RegisterScheme.Proofs.Evaluation.Evaluate
import RegisterScheme.Proofs.Simulation.Globals
import RegisterScheme.Proofs.Value.Natives

/-! Operators and the natives of the same names. A sum is folded from its first operand in the one
and from zero in the other; on what reads as an integer, or not as a number at all, that is the
same, and so are the failures. -/

namespace RegisterScheme

/-- A value that neither is a float nor reads as one. -/
def Value.IsExact (v : Value) : Prop := ∀ x, v.toNumber ≠ .ok (.float x)

namespace Globals

/-- The last native of a name counts. -/
theorem find?_foldl_set {natives : List Native} {name : String}
    (h : ∀ n ∈ natives, n.name ≠ name) (g : Globals) :
    (natives.foldl (fun g n => g.set n.name (.native n)) g).find? name = g.find? name := by
  induction natives generalizing g with
  | nil => rfl
  | cons n natives ih =>
    obtain ⟨hn, hnatives⟩ := List.forall_mem_cons.mp h
    rw [List.foldl_cons, ih hnatives, find?_set, if_neg hn.symm]

/-- Natives of different names are all found. -/
theorem find?_ofNatives {natives : List Native} (h : (natives.map Native.name).Nodup) {n : Native}
    (hn : n ∈ natives) : (ofNatives natives).find? n.name = some (.native n) := by
  unfold ofNatives
  generalize empty = g
  induction natives generalizing g with
  | nil => cases hn
  | cons n' natives ih =>
    rw [List.map_cons, List.nodup_cons] at h
    rw [List.foldl_cons]
    rcases List.mem_cons.mp hn with rfl | hn
    · have hlater : ∀ m ∈ natives, m.name ≠ n.name := fun m hm heq =>
        h.1 (heq ▸ List.mem_map_of_mem hm)
      rw [find?_foldl_set hlater, find?_set, if_pos rfl]
    · exact ih h.2 hn _

theorem find?_standard (n : StandardNative) :
    standard.find? n.name = some (.native (.standard n)) := by
  have hnames : ((StandardNative.all.map Native.standard).map Native.name).Nodup := by
    decide +kernel
  have hmem : n ∈ StandardNative.all := by cases n <;> decide
  exact find?_ofNatives hnames (List.mem_map_of_mem hmem)

/-- There are no other globals. -/
theorem mem_of_find?_ofNatives {natives : List Native} {name : String} {v : Value}
    (h : (ofNatives natives).find? name = some v) : ∃ n ∈ natives, v = .native n := by
  have hfold (g : Globals) (hg : ∀ w, g.find? name = some w → ∃ n ∈ natives, w = .native n)
      (more : List Native) (hmore : more ⊆ natives) (w : Value)
      (hw : (more.foldl (fun g n => g.set n.name (.native n)) g).find? name = some w) :
      ∃ n ∈ natives, w = .native n := by
    induction more generalizing g with
    | nil => exact hg w hw
    | cons n more ih =>
      obtain ⟨hn, hmore⟩ := List.cons_subset.mp hmore
      refine ih (g.set n.name (.native n)) (fun u hu => ?_) hmore hw
      rw [find?_set] at hu
      split at hu
      · cases hu
        exact ⟨n, hn, rfl⟩
      · exact hg u hu
  refine hfold empty (fun w hw => ?_) natives (List.Subset.refl natives) v h
  have hempty : empty.find? name = none := by simp [find?, address?, empty]
  rw [hempty] at hw
  cases hw

theorem native_of_find?_standard {name : String} {v : Value} (h : standard.find? name = some v) :
    ∃ n, v = .native (.standard n) := by
  obtain ⟨native, hnative, rfl⟩ := mem_of_find?_ofNatives h
  obtain ⟨n, -, rfl⟩ := List.mem_map.mp hnative
  exact ⟨n, rfl⟩

end Globals

namespace Operator

variable {op : Operator} {n : StandardNative}

/-- The standard procedure with the name of an operator. -/
def native? (op : Operator) : Option StandardNative :=
  StandardNative.all.find? fun n => n.name == op.name

theorem native?_isSome (h : op.hasProcedure) : ∃ n, op.native? = some n := by
  cases op <;> first | exact ⟨_, rfl⟩ | cases h

theorem native?_name (h : op.native? = some n) : n.name = op.name := by
  have hname := List.find?_some h
  exact beq_iff_eq.mp hname

/-- It takes as many arguments as the operator takes operands. -/
theorem native?_arity (h : op.native? = some n) : n.arity = op.arity := by
  cases op <;> cases h <;> rfl

end Operator

namespace Arithmetic

variable {op : Arithmetic} {identity : Int64} {x : Value}

/-- Operands count by the numbers that they read as. -/
theorem apply_congr {x' : Value} (h : x.toNumber = x'.toNumber) (y : Value) :
    op.apply x y = op.apply x' y := by
  unfold apply
  rw [h]

theorem checked_toInt (mnemonic : String) (n : Int64) :
    checked mnemonic n.toInt = .ok (.integer n) := by
  rw [checked, Decimal.fixnum?_toInt]

/-- An identity makes an exact operand the integer that it reads as, or fails as it fails to. -/
theorem apply_identity (hop : ∀ m, op.integers identity m = .ok (.integer m)) (hx : x.IsExact) :
    op.apply (.integer identity) x = (do
      match ← x.toNumber with
      | .integer m => return .integer m
      | .float y => return .float y) := by
  unfold apply
  cases h : x.toNumber with
  | error e => rfl
  | ok n =>
    cases n with
    | integer m => exact hop m
    | float y => exact absurd h (hx y)

/-- To fold from an identity is to fold from the first operand if another one follows. -/
theorem foldlM_identity (hop : ∀ m, op.integers identity m = .ok (.integer m)) (hx : x.IsExact)
    (y : Value) (ys : List Value) :
    (x :: y :: ys).foldlM op.apply (.integer identity) = (y :: ys).foldlM op.apply x := by
  rw [List.foldlM_cons, apply_identity hop hx]
  cases h : x.toNumber with
  | error e =>
    have happly : op.apply x y = .error e := by
      unfold apply
      rw [h]
      rfl
    rw [List.foldlM_cons, happly]
    rfl
  | ok n =>
    cases n with
    | integer m =>
      have hnumber : (Value.integer m).toNumber = x.toNumber := h.symm
      have happly : op.apply (.integer m) y = op.apply x y := apply_congr hnumber y
      change (y :: ys).foldlM op.apply (.integer m) = _
      rw [List.foldlM_cons, List.foldlM_cons, happly]
    | float z => exact absurd h (hx z)

theorem integers_add_zero (m : Int64) : integers .add 0 m = .ok (.integer m) := by
  have hsum : (0 : Int64).toInt + m.toInt = m.toInt := Int.zero_add _
  change checked _ ((0 : Int64).toInt + m.toInt) = _
  rw [hsum, checked_toInt]

theorem integers_multiply_one (m : Int64) : integers .multiply 1 m = .ok (.integer m) := by
  have hproduct : (1 : Int64).toInt * m.toInt = m.toInt := Int.one_mul _
  change checked _ ((1 : Int64).toInt * m.toInt) = _
  rw [hproduct, checked_toInt]

end Arithmetic

namespace Evaluating

variable {op : Operator} {n : StandardNative} {vs : List Value}

/-- A computation that makes no objects. -/
theorem allocating_lift (r : Except Failure Value) :
    allocating (liftM r : Allocating Value) = ofExcept r := by
  funext w
  cases r with
  | ok v => rfl
  | error e => rfl

theorem allocating_map {α : Type} (r : Except Failure α) (f : α → Value) :
    allocating (do return f (← (liftM r : Allocating α))) = (do return f (← ofExcept r)) := by
  funext w
  cases r with
  | ok a => rfl
  | error e => rfl

/-- An operator does with the values of its operands what the native of its name does with them as
its arguments. -/
theorem operate_eq_native (h : op.native? = some n) (harity : op.arity.accepts vs.length)
    (hvs : ∀ v ∈ vs, v.IsExact) (host : Host) :
    operate op vs = allocating ((Native.standard n).call host vs) := by
  have hcall : (Native.standard n).call host vs = n.run vs := by
    have haccepts : (Native.standard n).arity.accepts vs.length := by
      change n.arity.accepts vs.length
      rwa [Operator.native?_arity h]
    rw [Native.call, if_pos haccepts]
  have hone (op : Arithmetic) (x y : Value) : [y].foldlM op.apply x = op.apply x y := by
    rw [List.foldlM_cons]
    exact bind_pure _
  rw [hcall]
  cases op <;> cases h
  case add =>
    refine Eq.trans ?_ (allocating_lift _).symm
    match vs, hvs with
    | [], _ => rfl
    | [x], _ => rfl
    | x :: y :: ys, hvs =>
      rw [Arithmetic.foldlM_identity Arithmetic.integers_add_zero (hvs x List.mem_cons_self)]
      rfl
  case multiply =>
    refine Eq.trans ?_ (allocating_lift _).symm
    match vs, hvs with
    | [], _ => rfl
    | [x], _ => rfl
    | x :: y :: ys, hvs =>
      rw [Arithmetic.foldlM_identity Arithmetic.integers_multiply_one (hvs x List.mem_cons_self)]
      rfl
  case subtract =>
    match vs, harity with
    | [], harity => exact absurd harity (by decide)
    | [x], _ => exact (allocating_lift _).symm
    | x :: y :: ys, _ => exact (allocating_lift _).symm
  case divide =>
    match vs, harity with
    | [], harity => exact absurd harity (by decide)
    | [x], _ =>
      refine Eq.trans ?_ (allocating_lift _).symm
      rw [← hone]
      rfl
    | x :: y :: ys, _ => exact (allocating_lift _).symm
  case modulo | remainder =>
    obtain ⟨x, y, rfl⟩ := List.length_eq_two.mp (beq_iff_eq.mp harity)
    refine Eq.trans ?_ (allocating_lift _).symm
    rw [← hone]
    rfl
  case equalNumbers | less | greater | lessOrEqual | greaterOrEqual =>
    match vs, harity with
    | [], harity => exact absurd harity (by decide)
    | x :: xs, _ => exact (allocating_map _ Value.boolean).symm
  case equivalent =>
    obtain ⟨x, y, rfl⟩ := List.length_eq_two.mp (beq_iff_eq.mp harity)
    change (do return Value.boolean (← ofExcept (StandardNative.chain .equivalent false x [y]))) = _
    rw [StandardNative.chain_equivalent]
    rfl
  case cons =>
    obtain ⟨x, y, rfl⟩ := List.length_eq_two.mp (beq_iff_eq.mp harity)
    rfl
  case car | cdr =>
    obtain ⟨x, rfl⟩ := List.length_eq_one_iff.mp (beq_iff_eq.mp harity)
    exact (allocating_map _ _).symm
  case isNull =>
    obtain ⟨x, rfl⟩ := List.length_eq_one_iff.mp (beq_iff_eq.mp harity)
    have hnil : x.eqv .nil = x.isNil := by
      cases x with
      | atom a => cases a <;> rfl
      | unspecified | pair | vector | closure | native | template => rfl
    change (pure (.boolean (x.eqv .nil)) : Evaluating Value) = _
    rw [hnil]
    rfl
  case not =>
    obtain ⟨x, rfl⟩ := List.length_eq_one_iff.mp (beq_iff_eq.mp harity)
    rfl

end Evaluating

end RegisterScheme
