import RegisterScheme.Proofs.Simulation.Operation

/-! Pieces of code put together: values one after the other, tests with the jumps behind them, and
pieces that each may jump to a common end. -/

namespace RegisterScheme

/-- A jump over so many lines. -/
def Code.Jump (lines : Nat) (code : Code) : Prop :=
  ∃ i location, code = [⟨i, location⟩] ∧ i.opcode = .jump ∧ i.displacement = lines

theorem Code.Jump.length {lines : Nat} {code : Code} (h : code.Jump lines) : code.length = 1 := by
  obtain ⟨i, location, rfl, -⟩ := h
  rfl

/-- The first of two computations that gives an answer. -/
def Evaluating.attempt {α : Type} (x : Evaluating (Option α)) (y : Evaluating α) :
    Evaluating α := do
  match ← x with
  | some a => return a
  | none => y

namespace Setting

variable {scope : Scope} {outer : List Scope} {σ : Setting scope outer} {P P' : Nat → Prop}
  {w w' : World} {s s' : Store} {r : Register} {first q : Nat} {α β : Type}

/-- Code that leaves a value in a register. Temporaries below the first free one are kept. -/
def Computes (σ : Setting scope outer) (first : Nat) (r : Register) (x : Evaluating Value)
    (code : Code) : Prop :=
  ∀ w s, σ.Ready w s → σ.Runs (fun i => i < first ∧ i ≠ r.val) w s x code 0 (σ.Result r)

/-- Code after which a value is in a register that it chooses. -/
def Delivers (σ : Setting scope outer) (first q : Nat) (x : Evaluating Value) (code : Code) :
    Prop :=
  ∀ w s, σ.Ready w s → σ.Runs (· < first) w s x code 0 (σ.Result q)

/-- Code for an effect alone. -/
def Effects (σ : Setting scope outer) (first : Nat) (x : Evaluating α) (code : Code) : Prop :=
  ∀ w s, σ.Ready w s → σ.Runs (· < first) w s x code 0 fun _ k _ _ => k = 0

/-- Code for a test; the next line is skipped if it holds. -/
def Tests (σ : Setting scope outer) (first : Nat) (x : Evaluating Value) (code : Code) : Prop :=
  ∀ w s, σ.Ready w s → σ.Runs (· < first) w s x code 0 fun v k _ _ => k = v.isTruthy.toNat

/-- Code that leaves a value in a register if it has one, and else skips the next line. -/
def Attempts (σ : Setting scope outer) (first : Nat) (r : Register)
    (x : Evaluating (Option Value)) (code : Code) : Prop :=
  ∀ w s, σ.Ready w s → σ.Runs (fun i => i < first ∧ i ≠ r.val) w s x code 0 fun v k w' s' =>
    match v with
    | some v => σ.Result r v k w' s'
    | none => k = 1

namespace Runs

variable {x : Evaluating α} {f : α → Evaluating β} {xs ys zs j : Code} {n : Nat}
  {Q : α → Nat → World → Store → Prop}

theorem jump (hj : j.Jump (xs.length + n)) (h : σ.Runs P w s x ys n Q) :
    σ.Runs P w s x (j ++ (xs ++ ys)) 0 Q := by
  obtain ⟨i, location, rfl, hi⟩ := hj
  refine Simulates.congr_right ?_ h
  rw [run_append, bind_of_ok (jump_eq location hi)]
  exact congrFun (run_skipped xs ys n).symm s

theorem jumpToEnd {a : α} (hj : j.Jump (xs.length + n)) (hs : s.Agrees σ.natives w)
    (hq : Q a n w s) : σ.Runs P w s (pure a) (j ++ xs) 0 Q := by
  have h : σ.Runs P w s (pure a) (j ++ (xs ++ [])) 0 Q := .jump hj (.nil hs hq)
  rwa [List.append_nil] at h

theorem overJump (hj : j.Jump n) (h : σ.Runs P w s x ys 0 Q) : σ.Runs P w s x (j ++ ys) 1 Q := by
  rw [← hj.length]
  exact h.skipped

/-- A piece that either has the answer, and jumps to the end, or goes on with what follows. -/
theorem exit {x : Evaluating (Option α)} {y : Evaluating α} {R : World → Store → Prop}
    (hx : σ.Runs P w s x xs 0 fun o k w' s' =>
      match o with
      | some a => k = 0 ∧ Q a 0 w' s'
      | none => k = 1 ∧ R w' s')
    (hj : j.Jump ys.length)
    (hy : ∀ w' s', σ.Moves P w s w' s' → R w' s' → σ.Runs P w' s' y ys 0 Q) :
    σ.Runs P w s (Evaluating.attempt x y) (xs ++ (j ++ ys)) 0 Q := by
  refine hx.append fun o k w' s' hm h => ?_
  cases o with
  | some a =>
    obtain ⟨rfl, hq⟩ := h
    exact .jumpToEnd (n := 0) hj hm.agrees hq
  | none =>
    obtain ⟨rfl, hR⟩ := h
    exact .overJump hj (hy w' s' hm hR)

end Runs

theorem Computes.delivers {x : Evaluating Value} {code : Code}
    (h : σ.Computes first r x code) (hr : first ≤ r.val) : σ.Delivers first r x code :=
  fun w s hw => (h w s hw).mono (fun _ _ hi => ⟨hi, by omega⟩) fun _ _ _ _ _ hq => hq

/-- A value in the next temporary. -/
theorem Computes.temporary {x : Evaluating Value} {code : Code}
    (h : σ.Computes (first + 1) r x code) (hr : r.val = first) : σ.Delivers first first x code :=
  fun w s hw => (h w s hw).mono (fun _ _ hi => ⟨by omega, by omega⟩)
    fun _ _ _ _ _ hq => hr ▸ hq

theorem Delivers.tests {x : Evaluating Value} {code : Code} {i : Instruction}
    {location : Option Location} (h : σ.Delivers first r x code)
    (hi : i.opcode = .test ∧ i.a = r ∧ i.b = 0 ∧ i.c = 0) :
    σ.Tests first x (code ++ [⟨i, location⟩]) := by
  intro w s hw
  refine (h w s hw).finish fun v k w' s' hm hq => ?_
  obtain ⟨rfl, hh, -⟩ := hq
  exact (test_runs location hi (hw.moves hm) hh).imp fun u k _ _ _ h => by rw [h.1, h.2]

/-- A value that counts if it is of the given truth. -/
theorem Delivers.attempts {x : Evaluating Value} {code : Code} {stop : Bool} {i : Instruction}
    {location : Option Location} (h : σ.Delivers first q x code)
    (hi : i.opcode = .testSet ∧ i.a = r ∧ i.b = q ∧ i.c = stop.toNat)
    (ht : scope.registers ≤ r.val) (hr : r.val < σ.room.frameSize) :
    σ.Attempts first r (do
      let v ← x
      return if v.isTruthy == stop then some v else none) (code ++ [⟨i, location⟩]) := by
  intro w s hw
  refine Runs.append ((h w s hw).mono (fun _ _ hi => hi.1) fun _ _ _ _ _ hq => hq)
    fun v k w' s' hm hq => ?_
  obtain ⟨rfl, hh, hb⟩ := hq
  have htest := (testSet_runs location hi (hw.moves hm) hh hb ht hr).mono
    (T := fun i => i < first ∧ i ≠ r.val) (fun _ _ hi => hi.2) fun _ _ _ _ _ hq => hq
  have hpure := htest.map (S := fun v k w' s' =>
      match v with
      | some v => σ.Result r v k w' s'
      | none => k = 1) (fun v => if v.isTruthy == stop then some v else none) ?_
  · simpa only [pure_bind] using hpure
  · rintro u k w'' s'' - ⟨rfl, hq⟩
    by_cases htruth : u.isTruthy = stop
    · simp only [htruth, if_true, beq_self_eq_true] at hq ⊢
      exact hq
    · simp only [htruth, if_false, beq_iff_eq] at hq ⊢
      exact hq

theorem Tests.branch {test consequent otherwise : Evaluating Value} {t toElse c exit o : Code}
    (ht : σ.Tests first test t) (hj : toElse.Jump (c.length + 1))
    (hc : σ.Computes first r consequent c) (he : exit.Jump o.length)
    (ho : σ.Computes first r otherwise o) :
    σ.Computes first r (do if (← test).isTruthy then consequent else otherwise)
      (t ++ (toElse ++ (c ++ (exit ++ o)))) := by
  intro w s hw
  refine Runs.append ((ht w s hw).mono (fun _ _ hi => hi.1) fun _ _ _ _ _ hq => hq)
    fun v k w' s' hm hk => ?_
  subst hk
  have hw' := hw.moves hm
  cases htruth : v.isTruthy with
  | true =>
    refine .overJump hj ((hc w' s' hw').finish fun u k w'' s'' hm' hq => ?_)
    obtain rfl := hq.1
    exact .jumpToEnd (n := 0) he hm'.agrees hq
  | false =>
    have hlen : (c ++ exit).length = c.length + 1 := by rw [List.length_append, he.length]
    rw [← List.append_assoc c]
    exact .jump (n := 0) (hlen ▸ hj) (ho w' s' hw')

/-- A clause with a body. -/
theorem Tests.clause {test body : Evaluating Value} {t toNext b : Code}
    (ht : σ.Tests first test t) (hj : toNext.Jump (b.length + 1))
    (hb : σ.Computes first r body b) :
    σ.Attempts first r (do if (← test).isTruthy then return some (← body) else return none)
      (t ++ (toNext ++ b)) := by
  intro w s hw
  refine Runs.append ((ht w s hw).mono (fun _ _ hi => hi.1) fun _ _ _ _ _ hq => hq)
    fun v k w' s' hm hk => ?_
  subst hk
  cases htruth : v.isTruthy with
  | true => exact .overJump hj (.map some (hb w' s' (hw.moves hm)) fun _ _ _ _ _ hq => hq)
  | false => exact .jumpToEnd hj hm.agrees rfl

end Setting

/-- Pieces that each end in a jump behind the last one. -/
inductive Code.Exits (last : Code) : List Code → Code → Prop
  | last : Exits last [] last
  | piece {piece exit rest : Code} {pieces : List Code} (jump : exit.Jump rest.length)
      (others : Exits last pieces rest) : Exits last (piece :: pieces) (piece ++ (exit ++ rest))

/-- Pieces that are tried until one has a value, and the last piece if none has. -/
theorem Code.Exits.computes {scope : Scope} {outer : List Scope} {σ : Setting scope outer}
    {first : Nat} {r : Register} {xs : List (Evaluating (Option Value))} {y : Evaluating Value}
    {last code : Code} {pieces : List Code} (he : Code.Exits last pieces code)
    (hx : List.Forall₂ (σ.Attempts first r) xs pieces) (hy : σ.Computes first r y last) :
    σ.Computes first r (xs.foldr Evaluating.attempt y) code := by
  induction hx generalizing code with
  | nil =>
    cases he
    exact hy
  | cons hx _ ih =>
    cases he with
    | piece jump others =>
      intro w s hw
      refine .exit (R := fun _ _ => True) ((hx w s hw).imp fun o k w' s' _ h => ?_) jump
        fun w' s' hm _ => ih others w' s' (hw.moves hm)
      cases o with
      | some v => exact ⟨h.1, rfl, h.2⟩
      | none => exact ⟨h, trivial⟩

end RegisterScheme
