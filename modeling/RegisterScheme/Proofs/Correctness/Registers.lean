import RegisterScheme.Proofs.Generation.Registers

/-! The register discipline of generated code: who compiles an expression finds the stack of
temporaries as it was, and nothing below it changed but what the expression is for. -/

namespace RegisterScheme

/-- Code that was added between two states of a builder writes registers of one kind only. If the
frame had room for the registers in use before, it has room for those in use behind the code and for
all that the code uses. -/
structure Code.Tidy (code : Code) (b c : Builder) (may : Nat → Prop) : Prop where
  writes : ∀ line ∈ code, ∀ q ∈ line.instruction.writes, may q
  counted : b.free ≤ b.used → c.free ≤ c.used
  uses : b.free ≤ b.used → ∀ line ∈ code, ∀ q, line.instruction.Uses q → q < c.used

/-- The expressions within an expression are among those that have all their parts among them. -/
theorem Expr.Within.mem {d e : Expr} (h : d.Within e) {es : List Expr}
    (hparts : ∀ e ∈ es, ∀ part ∈ e.parts, part ∈ es) (he : e ∈ es) : d ∈ es := by
  induction h with
  | refl => exact he
  | part hpart _ ih => exact ih (hparts _ he _ hpart)

namespace Lowering

variable {scope : Scope} {e : Expr} {b : Builder}

/-- From here on an expression may write the free registers, those of variables that it assigns, and
perhaps a destination. -/
def permit (scope : Scope) (b : Builder) (e : Expr) (destination : Nat → Prop) : Permit :=
  ⟨scope, fun q => destination q ∨ b.free ≤ q ∨ e.Assigns q, b.free⟩

theorem permit_holds (h : scope.registers ≤ b.free) (destination : Nat → Prop) :
    (permit scope b e destination).Holds b :=
  ⟨h, Nat.le_max_left _ _, fun _ hq => .inr (.inl hq)⟩

theorem permit_allows (destination : Nat → Prop)
    (h : ∀ q, e.Mentions (.localVariable q) → q.val < scope.registers) :
    (permit scope b e destination).Allows e :=
  ⟨h, fun _ hq => .inr (.inr hq)⟩

theorem tidy_of_covers {destination : Nat → Prop} {code : Code} {c : Builder} (hg : b.Grows c)
    (hc : (permit scope b e destination).Holds c)
    (h : (permit scope b e destination).Covers code c) :
    code.Tidy b c fun q => destination q ∨ b.free ≤ q ∨ e.Assigns q := by
  -- the registers that were in use before are counted already
  have hsize (hused : b.free ≤ b.used) : (permit scope b e destination).size c ≤ c.used :=
    Nat.max_le.mpr ⟨Nat.le_trans hused hg.used, Nat.le_refl _⟩
  exact ⟨fun line hline => (h line hline).writes,
    fun hused => Nat.le_trans hc.free_le (hsize hused),
    fun hused line hline q hq => Nat.lt_of_lt_of_le ((h line hline).uses q hq) (hsize hused)⟩

/-- Code for an expression whose locals lie below the temporaries, from any state of the builder. A
value can go to any register in use, be it that of a variable or a temporary. If there is code, then
all temporaries taken for it are free again, but for that of a value in a new one; and it writes only
the destination, registers that were free, and variables that the expression assigns. -/
theorem within_tidy (height : Nat)
    (hlocals : ∀ q, e.Mentions (.localVariable q) → q.val < scope.registers)
    (hfree : scope.registers ≤ b.free) :
    (∀ (r : Register) code c, r.val < b.free →
      (within height).into scope r e b = .ok code c →
        c.free = b.free ∧ code.Tidy b c fun q => q = r ∨ b.free ≤ q ∨ e.Assigns q) ∧
    (∀ code c, (within height).effect scope e b = .ok code c →
      c.free = b.free ∧ code.Tidy b c fun q => b.free ≤ q ∨ e.Assigns q) ∧
    (∀ code (r : Register) c, (within height).toTemporary scope e b = .ok (code, r) c →
      r.val = b.free ∧ c.free = b.free + 1 ∧
        code.Tidy b c fun q => b.free ≤ q ∨ e.Assigns q) := by
  have h := within_disciplined height
  refine ⟨fun r code c hr hok => ?_, fun code c hok => ?_, fun code r c hok => ?_⟩
  · have hb := permit_holds (e := e) hfree (· = r.val)
    obtain ⟨hg, hlevel⟩ := (h.into hb (permit_allows _ hlocals) ⟨hr, .inl rfl⟩).of_ok hok
    exact ⟨hlevel.free, tidy_of_covers hg (hlevel.holds hb hg) hlevel.covers⟩
  · have hb := permit_holds (e := e) hfree fun _ => False
    obtain ⟨hg, hlevel⟩ := (h.effect hb (permit_allows _ hlocals)).of_ok hok
    have htidy := tidy_of_covers hg (hlevel.holds hb hg) hlevel.covers
    simp only [false_or] at htidy
    exact ⟨hlevel.free, htidy⟩
  · have hb := permit_holds (e := e) hfree fun _ => False
    obtain ⟨hg, hr, hf, hraised⟩ := (h.toTemporary hb (permit_allows _ hlocals)).of_ok hok
    have htidy := tidy_of_covers hg hraised.holds hraised.covers
    simp only [false_or] at htidy
    exact ⟨hr, hf, htidy⟩

/-- `(+ 1 x)`, with `x` in the first register. -/
def successor : Expr :=
  .operation .add [.literal ⟨0, .atom (.integer 1)⟩ none,
    .reference (.localVariable .zero) none] none

/-- `(f (+ 1 x))`, with `f` from a procedure around it. -/
def appliedToSuccessor : Expr := .call (.reference (.captured 1) none) [successor] none

/-- `(set! x (f (+ 1 x)))` -/
def updating : Expr := .assignment (.localVariable .zero) appliedToSuccessor none

def updatingScope : Scope :=
  ⟨[⟨"x", .variable (.argument .zero .required)⟩, ⟨"f", .variable (.captured 1 .zero)⟩], 1, []⟩

/-- One temporary is in use. -/
def updatingBuilder : Builder := ⟨#[], [], none, 2, 2⟩

/-- What was generated, if it was. -/
def generated {α : Type} : EStateM.Result Failure Builder α → Option (α × Builder)
  | .ok a c => some (a, c)
  | .error _ _ => none

theorem generated_eq_some {α : Type} {x : EStateM.Result Failure Builder α} {a : α} {c : Builder}
    (h : generated x = some (a, c)) : x = .ok a c := by
  cases x with
  | ok a' c' =>
    cases h
    rfl
  | error => cases h

theorem updating_locals :
    ∀ q, updating.Mentions (.localVariable q) → q.val < updatingScope.registers := by
  let all : List Expr := [updating, appliedToSuccessor, successor,
    .literal ⟨0, .atom (.integer 1)⟩ none, .reference (.localVariable .zero) none,
    .reference (.captured 1) none]
  have hparts : ∀ e ∈ all, ∀ part ∈ e.parts, part ∈ all := by
    simp [all, Expr.parts, updating, appliedToSuccessor, successor]
  intro q hq
  have hzero : q = .zero := by
    rcases hq with hw | hw
    all_goals
      have hmem := hw.mem hparts List.mem_cons_self
      simp [all, updating, appliedToSuccessor, successor] at hmem
      exact hmem.1
  rw [hzero]
  decide

theorem within_tidy_updating : ∃ (r : Register) (code : Code) (c : Builder), r.val = 1 ∧
    (within 4).into updatingScope r updating updatingBuilder = .ok code c ∧ code.length = 5 ∧
      c.free = 2 ∧ c.used = 4 ∧ code.Tidy updatingBuilder c
        fun q => q = 1 ∨ 2 ≤ q ∨ updating.Assigns q := by
  have hrun : ((generated ((within 4).into updatingScope ⟨1, by decide⟩ updating
      updatingBuilder)).map fun p => (p.1.length, p.2.used)) = some (5, 4) := by decide +kernel
  obtain ⟨⟨code, c⟩, hcode, hresult⟩ := Option.map_eq_some_iff.mp hrun
  obtain ⟨hlength, hused⟩ := Prod.mk.inj hresult
  have hok := generated_eq_some hcode
  obtain ⟨hfree, htidy⟩ := (within_tidy 4 updating_locals (by decide)).1 _ code c (by decide) hok
  exact ⟨_, code, c, rfl, hok, hlength, hfree, hused, htidy⟩

end Lowering

end RegisterScheme
