import RegisterScheme.Proofs.Simulation.Pieces

/-! Operands that are read after all of them have been evaluated, and the instructions that read
them: sums and products from the left, and comparisons of neighbours. -/

namespace RegisterScheme

namespace Evaluating

/-- A computation that leaves the world as it is. -/
def Reading {α : Type} (x : Evaluating α) : Prop := ∀ w a w', x w = .ok a w' → w' = w

theorem Reading.pure {α : Type} (a : α) : Reading (Pure.pure a) := by
  intro w b w' h
  cases h
  rfl

theorem Reading.fault {α : Type} (f : Fault) : Reading (Evaluating.fault f : Evaluating α) :=
  fun _ _ _ h => nomatch h

theorem Reading.get : Reading (MonadState.get : Evaluating World) := by
  intro w b w' h
  cases h
  rfl

theorem Reading.bind {α β : Type} {x : Evaluating α} {f : α → Evaluating β} (hx : Reading x)
    (hf : ∀ a, Reading (f a)) : Reading (x >>= f) := by
  intro w b w' h
  obtain ⟨a, u, hxw, hfu⟩ := answers_of_bind h
  exact (hf a u b w' hfu).trans (hx w a u hxw)

theorem reading_environment (a : Nat) : Reading (environment a) := by
  refine .bind .get fun w => ?_
  split
  · exact .pure _
  · exact .fault _

theorem reading_outward (d : Nat) (address : Option Nat) : Reading (outward d address) := by
  induction d generalizing address with
  | zero => exact .pure _
  | succ d ih =>
    cases address with
    | none => exact .pure _
    | some a => exact .bind (reading_environment a) fun e => ih _

theorem reading_place (here : Nat) (scope : Scope) (v : VariableRef) :
    Reading (place here scope v) := by
  unfold place
  split
  · exact .pure _
  · split
    · exact .pure _
    · exact .fault _
  · split
    · refine .bind (reading_environment here) fun e => .bind (reading_outward _ _) fun a => ?_
      split
      · exact .pure _
      · exact .fault _
    · exact .fault _

theorem reading_read (p : Place) : Reading (read p) := by
  cases p with
  | register a r => exact .bind (reading_environment a) fun e => .pure _
  | global name => exact .bind .get fun w => .pure _

variable {call : Value → List Value → Evaluating Value} {here : Nat} {scope : Scope}

theorem reading_simple {e : Expr} (he : e.isSimple) :
    Reading (evaluate call here scope true e) := by
  cases e <;> try cases he
  · rw [evaluate]
    exact .pure _
  · rw [evaluate, if_pos rfl]
    exact .bind (reading_place _ _ _) fun p => reading_read p

theorem reading_values {es : List Expr} (hes : ∀ e ∈ es, e.isSimple) :
    Reading (values call here scope es) := by
  induction es with
  | nil =>
    rw [values]
    exact .pure _
  | cons e es ih =>
    obtain ⟨he, hes⟩ := List.forall_mem_cons.mp hes
    rw [values]
    exact .bind (reading_simple he) fun v => .bind (ih hes) fun vs => .pure _

/-- Arithmetic leaves the world as it is. -/
theorem reading_ofExcept {α : Type} (l : Option Location) (r : Except Failure α) :
    Reading (located l (ofExcept r)) := by
  intro w a w' h
  cases r with
  | ok b =>
    cases h
    rfl
  | error e => cases h

theorem located_bind {α β : Type} (l : Option Location) (r : Except Failure α)
    (f : α → Except Failure β) :
    located l (ofExcept (r >>= f)) = located l (ofExcept r) >>= fun a => located l (ofExcept (f a)) := by
  funext w
  cases r with
  | ok a => rfl
  | error e => rfl

end Evaluating

namespace Setting

variable {scope : Scope} {outer : List Scope} {σ : Setting scope outer} {P : Nat → Prop}
  {w w' : World} {s s' : Store} {r : Register} {v : Value} {o : Operand}

/-- What an operand reads stays the same while the world does and its register is kept. -/
theorem Reads.moves (h : σ.Reads s o v) (hw : σ.Ready w s) (hm : σ.Moves P w s w s')
    (hP : ∀ q, o = .register q → scope.registers ≤ q → P q) : σ.Reads s' o v := by
  cases o with
  | constant index => exact h
  | register q =>
    obtain ⟨hlt, hh⟩ := h
    refine ⟨hlt, ?_⟩
    by_cases hq : q < scope.registers
    · obtain ⟨e, he, -⟩ := hw.environment
      have hs := hw.holds_variable he (r := ⟨q, hlt⟩) hq
      obtain rfl : e.values ⟨q, hlt⟩ = v := Option.some.inj (hs.symm.trans hh)
      exact (hw.moves hm).holds_variable he (r := ⟨q, hlt⟩) hq
    · exact hh.moves hw hm (Nat.le_of_not_lt hq) (hP q rfl (Nat.le_of_not_lt hq))

/-- An operand in a register of its own is not disturbed, whatever happens to variables. -/
theorem Reads.movesTemporary (h : σ.Reads s o v) (hw : σ.Ready w s) (hm : σ.Moves P w s w' s')
    (hP : ∀ q, o = .register q → scope.registers ≤ q ∧ P q) : σ.Reads s' o v := by
  cases o with
  | constant index => exact h
  | register q => exact ⟨h.1, h.2.moves hw hm (hP q rfl).1 (hP q rfl).2⟩

/-- Code after which all operands can be read. -/
def Gathers (σ : Setting scope outer) (first : Nat) (os : List Operand)
    (x : Evaluating (List Value)) (code : Code) : Prop :=
  ∀ w s, σ.Ready w s → σ.Runs (· < first) w s x code 0 fun vs k w' s' =>
    k = 0 ∧ List.Forall₂ (σ.Reads s') os vs ∧ ∀ v ∈ vs, σ.Built w' v

/-- Code after which one operand can be read. -/
def Offers (σ : Setting scope outer) (first : Nat) (o : Operand) (x : Evaluating Value)
    (code : Code) : Prop :=
  ∀ w s, σ.Ready w s → σ.Runs (· < first) w s x code 0 fun v k w' s' =>
    k = 0 ∧ σ.Reads s' o v ∧ σ.Built w' v

theorem Delivers.offers {first q : Nat} {x : Evaluating Value} {code : Code}
    (h : σ.Delivers first q x code) (hq : q < 256) : σ.Offers first (.register q) x code :=
  fun w s hw => (h w s hw).imp fun _ _ _ _ _ ⟨hk, hh, hb⟩ => ⟨hk, ⟨hq, hh⟩, hb⟩

theorem gathers_nil {first : Nat} : σ.Gathers first [] (pure []) [] :=
  fun _ _ hw => .nil hw.agrees ⟨rfl, .nil, by simp⟩

/-- The operand is still there after the others, if it is in a register of its own or the others
only read. -/
theorem Offers.gathers {first next : Nat} {x : Evaluating Value} {xs : Evaluating (List Value)}
    {code more : Code} {os : List Operand} (h : σ.Offers first o x code)
    (hs : σ.Gathers next os xs more) (hn : first ≤ next)
    (ho : ∀ q, o = .register q → scope.registers ≤ q → q < next)
    (hl : Evaluating.Reading xs ∨ ∀ q, o = .register q → scope.registers ≤ q) :
    σ.Gathers first (o :: os) (do return (← x) :: (← xs)) (code ++ more) := by
  intro w s hw
  refine (h w s hw).append fun v k w' s' hm hv => ?_
  obtain ⟨rfl, hr, hb⟩ := hv
  have hw' := hw.moves hm
  refine ((hs w' s' hw').evaluated.map (v :: ·) fun vs k w'' s'' hm' h => ?_).mono
    (fun i _ hi => Nat.lt_of_lt_of_le hi hn)
    (R := fun vs k w' s' => k = 0 ∧ List.Forall₂ (σ.Reads s') (o :: os) vs ∧
      ∀ v ∈ vs, σ.Built w' v) fun _ _ _ _ _ hq => hq
  obtain ⟨hx, rfl, hos, hbs⟩ := h
  refine ⟨rfl, .cons ?_ hos, List.forall_mem_cons.mpr ⟨hb.grows hm'.grows, hbs⟩⟩
  obtain hread | ht := hl
  · obtain rfl := hread w' vs w'' hx
    exact hr.moves hw' hm' ho
  · exact hr.movesTemporary hw' hm' fun q hq => ⟨ht q hq, ho q hq (ht q hq)⟩

/-- The lines that apply an operation to what a register holds and further operands. -/
def Folds (opcode : Opcode) (r : Register) (location : Option Location) :
    List Operand → List Code → Prop :=
  List.Forall₂ fun o code => ∃ i, code = [⟨i, location⟩] ∧ i.opcode = opcode ∧ i.a = r ∧
    i.b = (Operand.register r).half ∧ i.c = o.half

/-- An operation from the left: each line takes the result of the one before. -/
theorem fold_runs {opcode : Opcode} {op : Arithmetic} (hop : Running.arithmetic? opcode = some op)
    {location : Option Location} {os : List Operand} {vs : List Value} {codes : List Code}
    (hc : Folds opcode r location os codes) (ht : scope.registers ≤ r.val)
    (hr : r.val < σ.room.frameSize) (ho : ∀ o ∈ os, o ≠ .register r) {u : Value}
    (hw : σ.Ready w s) (hu : σ.Holds s r u) (hb : σ.Built w u)
    (hvs : List.Forall₂ (σ.Reads s) os vs) :
    σ.Runs (· ≠ r.val) w s
      (Evaluating.located location (Evaluating.ofExcept (vs.foldlM op.apply u)))
      codes.flatten 0 (σ.Result r) := by
  induction hc generalizing vs u s with
  | nil =>
    cases hvs
    exact .nil hw.agrees ⟨rfl, hu, hb⟩
  | @cons o code os codes hline _ ih =>
    cases hvs with
    | @cons _ v _ vs hv hvs =>
      obtain ⟨hor, hos⟩ := List.forall_mem_cons.mp ho
      obtain ⟨i, rfl, hi⟩ := hline
      rw [List.foldlM_cons, Evaluating.located_bind, List.flatten_cons]
      have hstep := (arithmetic_runs (x := .register r) location hop hi hw
        ⟨r.isLt, hu⟩ hv ht hr).evaluated
      refine hstep.append fun a k w' s' hm h => ?_
      obtain ⟨hx, rfl, hh, hb'⟩ := h
      obtain rfl : w' = w := Evaluating.reading_ofExcept location _ w a w' hx
      refine ih hos (hw.moves hm) hh hb' ?_
      have hboth := (List.forall₂_and_left os vs).mpr ⟨hos, hvs⟩
      exact hboth.imp fun o v ⟨hne, hread⟩ =>
        hread.moves hw hm fun q hq _ hqr => hne (hqr ▸ hq)

/-- The lines that compare neighbours. -/
def Compares (opcode : Opcode) (swap : Bool) (location : Option Location) :
    List (Operand × Operand) → List Code → Prop :=
  List.Forall₂ fun p code => ∃ i, code = [⟨i, location⟩] ∧ i.opcode = opcode ∧ i.a.val = 0 ∧
    i.b = (if swap then p.2 else p.1).half ∧ i.c = (if swap then p.1 else p.2).half

/-- Comparing neighbours stops at the first that do not compare. -/
theorem located_chain (l : Option Location) (op : Comparison) (swap : Bool) (u v : Value)
    (vs : List Value) :
    Evaluating.located l (Evaluating.ofExcept (StandardNative.chain op swap u (v :: vs))) =
      Evaluating.attempt
        (do return if ← Evaluating.located l
              (Evaluating.ofExcept (if swap then op.holds v u else op.holds u v))
            then none else some false)
        (Evaluating.located l (Evaluating.ofExcept (StandardNative.chain op swap v vs))) := by
  rw [StandardNative.chain, Evaluating.located_bind, Evaluating.attempt, bind_assoc]
  refine bind_congr fun holds => ?_
  rw [pure_bind]
  cases holds <;> rfl

/-- All neighbours compare, and true is loaded, or some do not. -/
theorem chain_runs {opcode : Opcode} {op : Comparison}
    (hop : Running.comparison? opcode = some op) {swap : Bool} {location : Option Location}
    {os : List Operand} {vs : List Value} {pieces : List Code} {last code : Code} {u : Value}
    (hc : Compares opcode swap location ((o :: os).zip os) pieces)
    (he : Code.Exits last pieces code) (hw : σ.Ready w s)
    (hu : σ.Reads s o u) (hvs : List.Forall₂ (σ.Reads s) os vs)
    (hl : ∀ s, σ.Ready w s → σ.Runs (· ≠ r.val) w s (pure true) last 0 fun _ k _ s' =>
      k = 1 ∧ σ.Holds s' r (.boolean true)) :
    σ.Runs (· ≠ r.val) w s
      (Evaluating.located location (Evaluating.ofExcept (StandardNative.chain op swap u vs)))
      code 0 fun holds k _ s' => if holds then k = 1 ∧ σ.Holds s' r (.boolean true) else k = 0 := by
  induction hvs generalizing o u pieces code with
  | nil =>
    cases hc
    cases he
    have htrue : Evaluating.located location
        (Evaluating.ofExcept (StandardNative.chain op swap u [])) = pure true := rfl
    rw [htrue]
    refine (hl s hw).evaluated.imp fun holds k w' s' _ h => ?_
    cases h.1
    exact h.2
  | @cons o' v os vs hv _ ih =>
    cases hc with
    | @cons _ piece _ pieces hline hc =>
      cases he with
      | piece jump others =>
        obtain ⟨i, rfl, hi⟩ := hline
        rw [located_chain]
        have hstep : σ.Runs (· ≠ r.val) w s (Evaluating.located location
            (Evaluating.ofExcept (if swap then op.holds v u else op.holds u v)))
            [⟨i, location⟩] 0 fun holds k w' s' => k = holds.toNat ∧ w' = w ∧ s' = s := by
          cases swap with
          | false => exact comparison_runs location hop hi hw hu hv
          | true => exact comparison_runs location hop hi hw hv hu
        refine .exit (R := fun w' s' => w' = w ∧ s' = s)
          (hstep.map (fun holds => if holds then none else some false) ?_) jump ?_
        · rintro holds k w' s' - ⟨rfl, rfl, rfl⟩
          cases holds with
          | false => exact ⟨rfl, rfl⟩
          | true => exact ⟨rfl, rfl, rfl⟩
        · rintro w' s' - ⟨rfl, rfl⟩
          exact ih hc others hv

end Setting

end RegisterScheme
