import RegisterScheme.Native.Call
import RegisterScheme.Proofs.Outcome

/-! What values are built from. Standard procedures make no closures: the closures in their
results are those of their arguments, and they fail only with errors of the program. -/

namespace RegisterScheme

variable {P Q : Closure → Prop} {N : Nat → Prop}

namespace Value

mutual

/-- The closures of a value satisfy one predicate, the numbers of its host natives another. -/
def BuiltFrom (P : Closure → Prop) (N : Nat → Prop) : Value → Prop
  | pair _ car cdr => car.BuiltFrom P N ∧ cdr.BuiltFrom P N
  | vector _ items => AllBuiltFrom P N items
  | closure c => P c
  | native (.host number _ _) => N number
  | atom _ | template _ _ | native (.standard _) | unspecified => True

def AllBuiltFrom (P : Closure → Prop) (N : Nat → Prop) : List Value → Prop
  | [] => True
  | v :: vs => v.BuiltFrom P N ∧ AllBuiltFrom P N vs

end

theorem builtFrom_atom (a : Atom) : (atom a).BuiltFrom P N := trivial

theorem allBuiltFrom_iff {vs : List Value} :
    AllBuiltFrom P N vs ↔ ∀ v ∈ vs, v.BuiltFrom P N := by
  induction vs with
  | nil => simp [AllBuiltFrom]
  | cons v vs ih => simp only [AllBuiltFrom, ih, List.forall_mem_cons]

mutual

theorem BuiltFrom.mono (h : ∀ c, P c → Q c) : {v : Value} → v.BuiltFrom P N → v.BuiltFrom Q N
  | pair _ _ _, hv => ⟨BuiltFrom.mono h hv.1, BuiltFrom.mono h hv.2⟩
  | vector _ _, hv => AllBuiltFrom.mono h hv
  | closure c, hv => h c hv
  | native (.host _ _ _), hv => hv
  | atom _, _ | template _ _, _ | native (.standard _), _ | unspecified, _ => trivial

theorem AllBuiltFrom.mono (h : ∀ c, P c → Q c) :
    {vs : List Value} → AllBuiltFrom P N vs → AllBuiltFrom Q N vs
  | [], _ => trivial
  | _ :: _, hv => ⟨BuiltFrom.mono h hv.1, AllBuiltFrom.mono h hv.2⟩

end

mutual

theorem builtFrom_ofDatum (first : Nat) : (d : Datum) → (ofDatum first d).BuiltFrom P N
  | .atom _ => trivial
  | .pair car cdr => ⟨builtFrom_ofDatum _ car, builtFrom_ofDatum _ cdr⟩
  | .vector items => allBuiltFrom_ofData _ items

theorem allBuiltFrom_ofData (first : Nat) : (ds : List Datum) → AllBuiltFrom P N (ofData first ds)
  | [] => trivial
  | d :: ds => ⟨builtFrom_ofDatum _ d, allBuiltFrom_ofData _ ds⟩

end

theorem builtFrom_ofQuotation (q : Quotation) : (ofQuotation q).BuiltFrom P N :=
  builtFrom_ofDatum q.first q.datum

theorem BuiltFrom.listFrom {items : List Value} {tail : Value}
    (hi : ∀ v ∈ items, v.BuiltFrom P N) (ht : tail.BuiltFrom P N) (first : Nat) :
    (Value.listFrom first tail items).BuiltFrom P N := by
  induction items generalizing first with
  | nil => exact ht
  | cons v vs ih =>
    obtain ⟨hv, hvs⟩ := List.forall_mem_cons.mp hi
    exact ⟨hv, ih hvs _⟩

end Value

/-- A computation in `Except` that gives what is said, or else an error of the program. -/
def Except.Gives {α : Type} (r : Except Failure α) (Q : α → Prop) : Prop :=
  match r with
  | .ok a => Q a
  | .error e => e.IsError

/-- The same for a computation that makes objects. -/
def Allocating.Gives {α : Type} (act : Allocating α) (Q : α → Prop) : Prop :=
  ∀ next, Except.Gives (act.run next) fun r => Q r.1

namespace Except

variable {α β : Type}

theorem Gives.bind {r : Except Failure α} {f : α → Except Failure β} {Q : α → Prop}
    {R : β → Prop} (h : Gives r Q) (hf : ∀ a, Q a → Gives (f a) R) : Gives (r >>= f) R := by
  cases r with
  | ok a => exact hf a h
  | error e => exact h

end Except

namespace Allocating

variable {α β : Type}

theorem Gives.pure {a : α} {Q : α → Prop} (h : Q a) : Gives (pure a) Q := fun _ => h

theorem Gives.fail {e : Failure} {Q : α → Prop} (h : e.IsError) : Gives (fail e : Allocating α) Q :=
  fun _ => h

theorem Gives.bind {act : Allocating α} {f : α → Allocating β} {Q : α → Prop} {R : β → Prop}
    (h : act.Gives Q) (hf : ∀ a, Q a → (f a).Gives R) : (act >>= f).Gives R := fun next =>
  Except.Gives.bind (h next) fun r hr => hf r.1 hr r.2

theorem Gives.lift {r : Except Failure α} {Q : α → Prop} (h : Except.Gives r Q) :
    Gives (liftM r) Q := by
  intro next
  cases r with
  | ok a => exact h
  | error e => exact h

theorem gives_reserve (n : Nat) : (reserve n).Gives fun _ => True := fun _ => trivial

theorem gives_cons {car cdr : Value} (h : car.BuiltFrom P N) (h' : cdr.BuiltFrom P N) :
    (Allocating.cons car cdr).Gives fun v => v.BuiltFrom P N :=
  .bind (gives_reserve 1) fun _ _ => .pure ⟨h, h'⟩

theorem gives_listWithTail {items : List Value} {tail : Value}
    (hi : ∀ v ∈ items, v.BuiltFrom P N) (ht : tail.BuiltFrom P N) :
    (listWithTail items tail).Gives fun v => v.BuiltFrom P N :=
  .bind (gives_reserve _) fun first _ => .pure (Value.BuiltFrom.listFrom hi ht first)

theorem gives_list {items : List Value} (hi : ∀ v ∈ items, v.BuiltFrom P N) :
    (list items).Gives fun v => v.BuiltFrom P N :=
  gives_listWithTail hi trivial

theorem gives_vector {items : List Value} (hi : ∀ v ∈ items, v.BuiltFrom P N) :
    (vector items).Gives fun v => v.BuiltFrom P N :=
  .bind (gives_reserve 1) fun _ _ => .pure (Value.allBuiltFrom_iff.mpr hi)

end Allocating

theorem gives_wrongType {α : Type} (expected : String) (v : Value) {Q : α → Prop} :
    Except.Gives (wrongType expected v) Q :=
  True.intro

namespace Value

theorem gives_toNumber (v : Value) : Except.Gives v.toNumber fun _ => True := by
  unfold toNumber
  split
  · trivial
  · trivial
  · dsimp only
    split
    · trivial
    · trivial
    · exact gives_wrongType _ _
  · exact gives_wrongType _ _

theorem gives_toInteger (v : Value) : Except.Gives v.toInteger fun _ => True := by
  unfold toInteger
  split
  · trivial
  · exact gives_wrongType _ _

theorem gives_toPair {v : Value} (h : v.BuiltFrom P N) :
    Except.Gives v.toPair fun p => p.1.BuiltFrom P N ∧ p.2.BuiltFrom P N := by
  unfold toPair
  split
  · exact h
  · exact gives_wrongType _ _

theorem gives_toItems {v : Value} (h : v.BuiltFrom P N) :
    Except.Gives v.toItems fun vs => ∀ v ∈ vs, v.BuiltFrom P N := by
  unfold toItems
  split
  · exact allBuiltFrom_iff.mp h
  · exact gives_wrongType _ _

theorem BuiltFrom.listItems? : {v : Value} → {items : List Value} → v.BuiltFrom P N →
    v.listItems? = some items → ∀ i ∈ items, i.BuiltFrom P N
  | .atom .nil, _, _, hi => by
    obtain rfl := Option.some.inj hi
    simp
  | .pair _ car cdr, items, h, hi => by
    simp only [Value.listItems?, Option.map_eq_some_iff] at hi
    obtain ⟨rest, hr, rfl⟩ := hi
    exact List.forall_mem_cons.mpr ⟨h.1, BuiltFrom.listItems? h.2 hr⟩

theorem gives_toListItems {v : Value} (h : v.BuiltFrom P N) :
    Except.Gives v.toListItems fun vs => ∀ v ∈ vs, v.BuiltFrom P N := by
  unfold toListItems
  split
  · exact h.listItems? (by assumption)
  · exact gives_wrongType _ _

end Value

theorem Arithmetic.gives_apply (op : Arithmetic) (x y : Value) :
    Except.Gives (op.apply x y) fun v => v.BuiltFrom P N := by
  have hchecked (mnemonic : String) (n : Int) :
      Except.Gives (checked mnemonic n) fun v => v.BuiltFrom P N := by
    unfold checked
    split
    · trivial
    · exact True.intro
  refine (x.gives_toNumber).bind fun m _ => (y.gives_toNumber).bind fun n _ => ?_
  split
  · unfold integers
    dsimp only
    split
    · exact hchecked _ _
    · exact hchecked _ _
    · exact hchecked _ _
    · split
      · exact True.intro
      · split
        · trivial
        · exact hchecked _ _
    · split
      · exact True.intro
      · exact hchecked _ _
    · split
      · exact True.intro
      · exact hchecked _ _
  · trivial

theorem Arithmetic.gives_negate (x : Value) :
    Except.Gives (Arithmetic.negate x) fun v => v.BuiltFrom P N := by
  refine (x.gives_toNumber).bind fun n _ => ?_
  split
  · unfold checked
    split
    · trivial
    · exact True.intro
  · trivial

/-- Two numbers are compared as integers or as floats. -/
theorem Value.gives_ofNumbers (x y : Value) {f : Int64 → Int64 → Except Failure Bool}
    {g : Number → Number → Except Failure Bool} (hf : ∀ m n, Except.Gives (f m n) fun _ => True)
    (hg : ∀ m n, Except.Gives (g m n) fun _ => True) :
    Except.Gives (do
      match ← x.toNumber, ← y.toNumber with
      | .integer m, .integer n => f m n
      | m, n => g m n) fun _ => True := by
  refine (x.gives_toNumber).bind fun m _ => (y.gives_toNumber).bind fun n _ => ?_
  split
  · exact hf _ _
  · exact hg _ _

theorem Comparison.gives_holds (op : Comparison) (x y : Value) :
    Except.Gives (op.holds x y) fun _ => True := by
  cases op with
  | equivalent => trivial
  | equalNumbers => exact x.gives_ofNumbers y (fun _ _ => trivial) fun _ _ => trivial
  | less => exact x.gives_ofNumbers y (fun _ _ => trivial) fun _ _ => trivial
  | lessOrEqual => exact x.gives_ofNumbers y (fun _ _ => trivial) fun _ _ => trivial

end RegisterScheme
