import RegisterScheme.Machine.Run
import RegisterScheme.Proofs.Outcome

/-! Where a failure is raised, it says neither a place nor what was active: that is added on its way
out. Only the procedures of a host may fail in a way of their own. -/

namespace RegisterScheme

/-- A runtime error that says neither where it arose nor in which procedures. -/
def Failure.Bare : Failure → Prop
  | .error (.runtime e) => e.location = none ∧ e.stack = []
  | _ => True

theorem Failure.bare_runtime (cause : RuntimeError.Cause) : (Failure.runtime cause).Bare :=
  ⟨rfl, rfl⟩

/-- A failure of a procedure of the host. -/
def Host.Raises (host : Host) (f : Failure) : Prop :=
  ∃ number args next, (host number args).run next = .error f

variable {α β : Type}

/-- A result that is there, or a bare failure. -/
def Except.FailsBare : Except Failure α → Prop
  | .ok _ => True
  | .error f => f.Bare

namespace Except

theorem FailsBare.bind {r : Except Failure α} {f : α → Except Failure β} (h : FailsBare r)
    (hf : ∀ a, FailsBare (f a)) : FailsBare (r >>= f) := by
  cases r with
  | ok a => exact hf a
  | error e => exact h

end Except

theorem failsBare_wrongType (expected : String) (v : Value) :
    Except.FailsBare (wrongType (α := α) expected v) :=
  Failure.bare_runtime _

namespace Value

theorem failsBare_toNumber (v : Value) : Except.FailsBare v.toNumber := by
  unfold toNumber
  split
  · trivial
  · trivial
  · dsimp only
    split
    · trivial
    · trivial
    · exact failsBare_wrongType _ _
  · exact failsBare_wrongType _ _

theorem failsBare_toInteger (v : Value) : Except.FailsBare v.toInteger := by
  unfold toInteger
  split
  · trivial
  · exact failsBare_wrongType _ _

theorem failsBare_toPair (v : Value) : Except.FailsBare v.toPair := by
  unfold toPair
  split
  · trivial
  · exact failsBare_wrongType _ _

theorem failsBare_toItems (v : Value) : Except.FailsBare v.toItems := by
  unfold toItems
  split
  · trivial
  · exact failsBare_wrongType _ _

theorem failsBare_toListItems (v : Value) : Except.FailsBare v.toListItems := by
  unfold toListItems
  split
  · trivial
  · exact failsBare_wrongType _ _

end Value

namespace Arithmetic

theorem failsBare_checked (mnemonic : String) (n : Int) :
    Except.FailsBare (checked mnemonic n) := by
  unfold checked
  split
  · trivial
  · exact Failure.bare_runtime _

theorem failsBare_integers (op : Arithmetic) (x y : Int64) :
    Except.FailsBare (op.integers x y) := by
  have hdivided (b : Prop) [Decidable b] {r : Except Failure Value} (hr : Except.FailsBare r) :
      Except.FailsBare (if b then .error (.runtime .divisionByZero) else r) := by
    split
    · exact Failure.bare_runtime _
    · exact hr
  unfold integers
  cases op with
  | add | subtract | multiply => exact failsBare_checked _ _
  | divide =>
    refine hdivided _ ?_
    split
    · trivial
    · exact failsBare_checked _ _
  | modulo | remainder => exact hdivided _ (failsBare_checked _ _)

theorem failsBare_apply (op : Arithmetic) (x y : Value) : Except.FailsBare (op.apply x y) := by
  refine x.failsBare_toNumber.bind fun m => y.failsBare_toNumber.bind fun n => ?_
  split
  · exact op.failsBare_integers _ _
  · trivial

theorem failsBare_negate (x : Value) : Except.FailsBare (negate x) := by
  refine x.failsBare_toNumber.bind fun n => ?_
  cases n with
  | integer n => exact failsBare_checked _ _
  | float x => trivial

end Arithmetic

theorem Comparison.failsBare_holds (op : Comparison) (x y : Value) :
    Except.FailsBare (op.holds x y) := by
  have hnumbers {f : Number → Number → Except Failure Bool}
      (hf : ∀ m n, Except.FailsBare (f m n)) :
      Except.FailsBare (x.toNumber >>= fun m => y.toNumber >>= fun n => f m n) :=
    x.failsBare_toNumber.bind fun m => y.failsBare_toNumber.bind fun n => hf m n
  cases op with
  | equivalent => trivial
  | equalNumbers | less | lessOrEqual =>
    refine hnumbers fun m n => ?_
    split
    · trivial
    · trivial

namespace Allocating

/-- A computation that gives a result or a bare failure, whatever number the next object has. -/
def FailsBare (act : Allocating α) : Prop := ∀ next, Except.FailsBare (act.run next)

theorem FailsBare.pure (a : α) : FailsBare (Pure.pure a) := fun _ => trivial

theorem FailsBare.fail {f : Failure} (h : f.Bare) : FailsBare (fail f : Allocating α) := fun _ => h

theorem FailsBare.raise (cause : RuntimeError.Cause) : FailsBare (raise cause : Allocating α) :=
  .fail (Failure.bare_runtime cause)

theorem FailsBare.bind {act : Allocating α} {f : α → Allocating β} (h : act.FailsBare)
    (hf : ∀ a, (f a).FailsBare) : (act >>= f).FailsBare := fun next =>
  Except.FailsBare.bind (h next) fun r => hf r.1 r.2

theorem FailsBare.lift {r : Except Failure α} (h : Except.FailsBare r) :
    FailsBare (liftM r : Allocating α) := by
  intro next
  cases r with
  | ok a => exact h
  | error e => exact h

theorem failsBare_cons (car cdr : Value) : (Allocating.cons car cdr).FailsBare := fun _ => trivial

theorem failsBare_list (items : List Value) : (list items).FailsBare := fun _ => trivial

theorem failsBare_vector (items : List Value) : (vector items).FailsBare := fun _ => trivial

end Allocating

namespace StandardNative

open Allocating

theorem failsBare_fold (op : Arithmetic) (first : Value) (rest : List Value) :
    (fold op first rest).FailsBare := by
  refine .lift ?_
  induction rest generalizing first with
  | nil => trivial
  | cons v vs ih => exact (op.failsBare_apply first v).bind fun w => ih w

theorem failsBare_comparison (op : Comparison) (swap : Bool) (args : List Value) :
    (comparison op swap args).FailsBare := by
  have hchain (first : Value) (rest : List Value) :
      Except.FailsBare (chain op swap first rest) := by
    induction rest generalizing first with
    | nil => trivial
    | cons v vs ih =>
      unfold chain
      refine Except.FailsBare.bind ?_ fun holds => ?_
      · split
        · exact op.failsBare_holds v first
        · exact op.failsBare_holds first v
      · split
        · exact ih v
        · trivial
  unfold comparison
  split
  · exact .pure _
  · exact .bind (.lift (hchain _ _)) fun _ => .pure _

theorem failsBare_appendLists (args : List Value) : (appendLists args).FailsBare := by
  have hitems (vs : List Value) :
      (vs.mapM fun v => (liftM v.toListItems : Allocating (List Value))).FailsBare := by
    induction vs with
    | nil =>
      rw [List.mapM_nil]
      exact .pure _
    | cons v vs ih =>
      rw [List.mapM_cons]
      exact .bind (.lift v.failsBare_toListItems) fun _ => .bind ih fun _ => .pure _
  unfold appendLists
  split
  · exact .pure _
  · exact .bind (hitems _) fun _ _ => trivial

theorem failsBare_vectorItem (v index : Value) : (vectorItem v index).FailsBare := by
  refine .bind (.lift v.failsBare_toItems) fun items =>
    .bind (.lift index.failsBare_toInteger) fun i => ?_
  dsimp only
  split
  · exact .pure _
  · exact .raise _

theorem failsBare_run (n : StandardNative) (args : List Value) : (n.run args).FailsBare := by
  unfold run
  split
  case h_1 | h_2 | h_4 | h_6 => exact failsBare_fold _ _ _
  case h_3 => exact .lift (Arithmetic.failsBare_negate _)
  case h_5 | h_7 | h_8 => exact .lift (Arithmetic.failsBare_apply _ _ _)
  case h_14 | h_15 => exact .bind (.lift (Value.failsBare_toPair _)) fun _ => .pure _
  case h_16 => exact failsBare_cons _ _
  case h_17 => exact failsBare_list _
  case h_18 => exact failsBare_appendLists _
  case h_19 => exact .bind (.lift (Value.failsBare_toListItems _)) fun _ => .pure _
  case h_32 => exact failsBare_vector _
  case h_33 => exact failsBare_vectorItem _ _
  case h_34 => exact .bind (.lift (Value.failsBare_toItems _)) fun _ => .pure _
  case h_35 => exact .bind (.lift (Value.failsBare_toListItems _)) fun _ => failsBare_vector _
  case h_36 => exact .bind (.lift (Value.failsBare_toItems _)) fun _ => failsBare_list _
  case h_37 => exact .raise _
  case h_38 => exact .fail trivial
  -- the comparisons and the predicates
  all_goals first
    | exact failsBare_comparison _ _ _
    | exact .pure _

end StandardNative

/-- A native fails bare, unless it is one of the host. -/
theorem Native.bare_or_raises {host : Host} {n : Native} {args : List Value} {next : Nat}
    {f : Failure} (h : (n.call host args).run next = .error f) : f.Bare ∨ host.Raises f := by
  have hof {act : Allocating Value} (hact : act.FailsBare) (h : act.run next = .error f) :
      f.Bare := by
    have hnext := hact next
    rwa [h] at hnext
  unfold call at h
  split at h
  · cases n with
    | standard n => exact .inl (hof (n.failsBare_run args) h)
    | host number name arity => exact .inr ⟨number, args, next, h⟩
  · exact .inl (hof (.fail (f := .arity _ _ _ _) trivial) h)

namespace Running

variable {caching : Bool} {call : Value → List Value → Running Value} {here : Activation}

theorem ends_fault (f : Fault) : Ends Failure.Bare (fault f : Running α) fun _ => True :=
  .throw trivial

theorem ends_ofExcept {r : Except Failure α} (h : Except.FailsBare r) :
    Ends Failure.Bare (ofExcept r) fun _ => True := by
  cases r with
  | ok a => exact .pure trivial
  | error f => exact .throw h

theorem ends_frame (address : Nat) : Ends Failure.Bare (frame address) fun _ => True := by
  refine .bind (.answers fun s => ⟨s, s, rfl⟩) fun s _ => ?_
  cases s.frames[address]? with
  | none => exact ends_fault _
  | some f => exact .pure trivial

theorem ends_getRegister (address register : Nat) :
    Ends Failure.Bare (getRegister address register) fun _ => True := by
  refine .bind (ends_frame address) fun f _ => ?_
  cases f.registers[register]? with
  | none => exact ends_fault _
  | some v => exact .pure trivial

theorem ends_setRegister (address register : Nat) (v : Value) :
    Ends Failure.Bare (setRegister address register v) fun _ => True := by
  refine .bind (ends_frame address) fun f _ => ?_
  split
  · exact .answers fun s => ⟨(), _, rfl⟩
  · exact ends_fault _

theorem ends_checkSlice (address first past : Nat) :
    Ends Failure.Bare (checkSlice address first past) fun _ => True := by
  refine .bind (ends_frame address) fun f _ => ?_
  split
  · exact .pure trivial
  · exact ends_fault _

theorem ends_literalValue (t : Template) (index : Nat) :
    Ends Failure.Bare (literalValue t index) fun _ => True := by
  unfold literalValue
  split
  · exact .pure trivial
  · exact .pure trivial
  · exact ends_fault _

theorem ends_globalName (t : Template) (index : Nat) :
    Ends Failure.Bare (globalName t index) fun _ => True := by
  unfold globalName
  split
  · exact .pure trivial
  · exact ends_fault _

theorem ends_updateCache (c : Closure) (f : Cache → Cache) :
    Ends Failure.Bare (updateCache c f) fun _ => True :=
  .answers fun _ => ⟨(), _, rfl⟩

theorem ends_cache (c : Closure) : Ends Failure.Bare (cache c) fun _ => True :=
  .answers fun _ => ⟨_, _, rfl⟩

theorem ends_cell (name : String) : Ends Failure.Bare (cell name) fun _ => True :=
  .answers fun _ => ⟨_, _, rfl⟩

theorem ends_globalCell (caching : Bool) (c : Closure) (index : Nat) :
    Ends Failure.Bare (globalCell caching c index) fun _ => True := by
  have hname := ends_globalName c.template index
  cases caching with
  | false =>
    simp only [globalCell, Bool.false_eq_true, if_false, pure_bind]
    exact hname.bind fun name _ => (ends_cell name).bind fun _ _ => .pure trivial
  | true =>
    simp only [globalCell, if_true, pure_bind]
    refine (ends_cache c).bind fun known _ => ?_
    split
    · exact .pure trivial
    · exact hname.bind fun name _ => (ends_cell name).bind fun _ _ =>
        (ends_updateCache _ _).bind fun _ _ => .pure trivial

theorem ends_outward (n : Nat) (address : Option Nat) :
    Ends Failure.Bare (outward n address) fun _ => True := by
  induction n generalizing address with
  | zero => exact .pure trivial
  | succ n ih =>
    cases address with
    | none => exact .pure trivial
    | some address => exact (ends_frame address).bind fun f _ => ih _

theorem ends_owner (caching : Bool) (c : Closure) (slot distance : Nat) :
    Ends Failure.Bare (owner caching c slot distance) fun _ => True := by
  have houtward := ends_outward (distance - 1) c.parent
  cases caching with
  | false =>
    simp only [owner, Bool.false_eq_true, if_false, pure_bind]
    refine houtward.bind fun address _ => ?_
    split
    · exact ends_fault _
    · exact .pure trivial
  | true =>
    simp only [owner, if_true, pure_bind]
    refine (ends_cache c).bind fun known _ => ?_
    split
    · exact .pure trivial
    · refine houtward.bind fun address _ => ?_
      split
      · exact ends_fault _
      · exact (ends_updateCache _ _).bind fun _ _ => .pure trivial

theorem ends_capturedPlace (caching : Bool) (c : Closure) (slot : Nat) :
    Ends Failure.Bare (capturedPlace caching c slot) fun _ => True := by
  unfold capturedPlace
  split
  · exact (ends_owner _ _ _ _).bind fun _ _ => .pure trivial
  · exact ends_fault _
  · exact ends_fault _

theorem ends_operand (here : Activation) (half : Nat) :
    Ends Failure.Bare (operand here half) fun _ => True := by
  unfold operand
  split
  · exact ends_getRegister _ _
  · exact ends_literalValue _ _

theorem ends_clear (address first n : Nat) :
    Ends Failure.Bare (clear address first n) fun _ => True := by
  induction n generalizing first with
  | zero => exact .pure trivial
  | succ n ih => exact (ends_setRegister _ _ _).bind fun _ _ => ih _

theorem ends_registersFrom (address first n : Nat) :
    Ends Failure.Bare (registersFrom address first n) fun _ => True := by
  induction n generalizing first with
  | zero => exact .pure trivial
  | succ n ih => exact (ends_getRegister _ _).bind fun _ _ => (ih _).bind fun _ _ => .pure trivial

theorem ends_slice (address first past : Nat) :
    Ends Failure.Bare (slice address first past) fun _ => True :=
  (ends_checkSlice _ _ _).bind fun _ _ => ends_registersFrom _ _ _

theorem ends_deal (c : Closure) (args : List Value) :
    Ends Failure.Bare (deal c args) fun _ => True := by
  unfold deal
  dsimp only
  split
  · exact ends_fault _
  · split
    · exact .throw trivial
    · exact .pure trivial

theorem ends_proceed (skip : Bool) : Ends Failure.Bare (proceed skip) fun _ => True := .pure trivial

theorem ends_put (address register : Nat) (v : Value) : Ends Failure.Bare
    (do
      setRegister address register v
      proceed false) fun _ => True :=
  (ends_setRegister _ _ _).bind fun _ _ => ends_proceed _

theorem nested_failsBare (t : Template) (index : Nat) :
    Except.FailsBare ((t.nested index).mapError Failure.fault) := by
  cases t.nested index with
  | ok u => trivial
  | error f => trivial

/-- An instruction that calls nothing fails bare. -/
theorem ends_step {i : Instruction} (hi : i.opcode ≠ .call) :
    Ends Failure.Bare (step caching call here i) fun _ => True := by
  have hget (r : Nat) := ends_getRegister here.address r
  have hput (v : Value) := ends_put here.address i.a v
  have hcell := ends_globalCell caching here.closure i.field
  have hplace := ends_capturedPlace caching here.closure i.b
  have hleft := ends_operand here i.b
  have hright := ends_operand here i.c
  have hnext (skip : Bool) := ends_proceed skip
  unfold step
  cases ho : i.opcode with
  | move => exact (hget _).bind fun v _ => hput v
  | loadConstant => exact (ends_literalValue _ _).bind fun v _ => hput v
  | loadBoolean => exact (ends_setRegister _ _ _).bind fun _ _ => hnext _
  | loadNil =>
    exact (ends_checkSlice _ _ _).bind fun _ _ => (ends_clear _ _ _).bind fun _ _ => hnext _
  | getCaptured => exact hplace.bind fun p _ => (ends_getRegister p.1 p.2).bind fun v _ => hput v
  | setCaptured =>
    exact hplace.bind fun p _ => (hget _).bind fun v _ =>
      (ends_setRegister _ _ _).bind fun _ _ => hnext _
  | getGlobal =>
    have hread (address : Nat) : Ends Failure.Bare (readCell address) fun _ => True :=
      .answers fun _ => ⟨_, _, rfl⟩
    exact hcell.bind fun address _ => (hread address).bind fun v _ => hput v
  | setGlobal =>
    have hwrite (address : Nat) (v : Value) :
        Ends Failure.Bare (writeCell address v) fun _ => True := .answers fun _ => ⟨_, _, rfl⟩
    exact hcell.bind fun address _ => (hget _).bind fun v _ =>
      (hwrite address v).bind fun _ _ => hnext _
  | add | subtract | multiply | divide | modulo | remainder =>
    exact hleft.bind fun x _ => hright.bind fun y _ =>
      (ends_ofExcept (Arithmetic.failsBare_apply _ x y)).bind fun v _ => hput v
  | negate =>
    exact (hget _).bind fun x _ => (ends_ofExcept (Arithmetic.failsBare_negate x)).bind fun v _ =>
      hput v
  | not => exact (hget _).bind fun v _ => hput _
  | equivalent | equalNumbers | less | lessOrEqual =>
    exact hleft.bind fun x _ => hright.bind fun y _ =>
      (ends_ofExcept (Comparison.failsBare_holds _ x y)).bind fun _ _ => hnext _
  | test => exact (hget _).bind fun _ _ => hnext _
  | testSet =>
    refine (hget _).bind fun v _ => ?_
    split
    · exact hput v
    · exact hnext _
  | jump =>
    dsimp only
    split
    · exact ends_fault _
    · exact .pure trivial
  | call => exact absurd ho hi
  | «return» =>
    dsimp only
    split
    · exact (hget _).bind fun _ _ => .pure trivial
    · exact .pure trivial
  | closure =>
    have hclosure (t : Template) : Ends Failure.Bare (newClosure t here.address) fun _ => True :=
      .answers fun _ => ⟨_, _, rfl⟩
    exact (ends_ofExcept (nested_failsBare _ _)).bind fun t _ => (hclosure t).bind fun c _ =>
      hput _
  | cons =>
    have hpair (x y : Value) :
        Ends Failure.Bare (allocating (Allocating.cons x y)) fun _ => True :=
      .answers fun _ => ⟨_, _, rfl⟩
    exact hleft.bind fun x _ => hright.bind fun y _ => (hpair x y).bind fun v _ => hput v
  | car | cdr =>
    exact (hget _).bind fun v _ => (ends_ofExcept v.failsBare_toPair).bind fun _ _ => hput _

end Running

end RegisterScheme
