import RegisterScheme.Proofs.Machine.Caches
import RegisterScheme.Proofs.Machine.Loop
import RegisterScheme.Proofs.Value.Natives

/-! The machine with caches next to the machine without. From a store where what closures remember
is right, whatever one of them does the other does too, and it stays right. -/

namespace RegisterScheme

variable {α β : Type} {N : Nat → Prop} {made : List Closure}

/-- Two computations that end in the same way and leave the same store, except for what closures
remember, where the first one may look at that. -/
def Transparent (N : Nat → Prop) (made : List Closure) (x y : Running α) (Q : α → Prop) : Prop :=
  ∀ s : Store, s.Coherent N made →
    (∃ a t, x s = .ok a t ∧ y s.forget = .ok a t.forget ∧ t.Coherent N made ∧ Q a) ∨
      ∃ e t, x s = .error e t ∧ y s.forget = .error e t.forget ∧ t.Coherent N made

/-- The values among what comes after an instruction. -/
def Continuation.BuiltFrom (P : Closure → Prop) (N : Nat → Prop) : Continuation → Prop
  | .skip _ => True
  | .done v => v.BuiltFrom P N

namespace Transparent

variable {x y : Running α} {Q : α → Prop}

theorem pure {a : α} (h : Q a) : Transparent N made (pure a) (pure a) Q :=
  fun s hs => .inl ⟨a, s, rfl, rfl, hs, h⟩

theorem throw (e : Failure) : Transparent N made (throw e) (throw e) Q :=
  fun s hs => .inr ⟨e, s, rfl, rfl, hs⟩

theorem bind {f g : α → Running β} {R : β → Prop} (hx : Transparent N made x y Q)
    (hf : ∀ a, Q a → Transparent N made (f a) (g a) R) :
    Transparent N made (x >>= f) (y >>= g) R := by
  intro s hs
  obtain ⟨a, t, hx, hy, ht, ha⟩ | ⟨e, t, hx, hy, ht⟩ := hx s hs
  · rw [bind_of_ok hx, bind_of_ok hy]
    exact hf a ha t ht
  · exact .inr ⟨e, t, bind_of_error hx, bind_of_error hy, ht⟩

/-- A computation that never looks at what closures remember. -/
theorem ofExcept {r : Except Failure α} (h : ∀ a, r = .ok a → Q a) :
    Transparent N made (Running.ofExcept r) (Running.ofExcept r) Q := by
  cases r with
  | ok a => exact pure (h a rfl)
  | error e => exact throw e

theorem ofGives {r : Except Failure α} (h : Except.Gives r Q) :
    Transparent N made (Running.ofExcept r) (Running.ofExcept r) Q :=
  ofExcept fun a ha => by rwa [ha] at h

theorem allocating {act : Allocating α} (h : act.Gives Q) :
    Transparent N made (Running.allocating act) (Running.allocating act) Q := by
  intro s hs
  have hnext : s.forget.nextObject = s.nextObject := rfl
  have hgives := h s.nextObject
  unfold Running.allocating
  rw [hnext]
  cases hact : act.run s.nextObject with
  | ok p =>
    rw [hact] at hgives
    exact .inl ⟨p.1, _, rfl, rfl, hs.withNextObject p.2, hgives⟩
  | error e => exact .inr ⟨e, s, rfl, rfl, hs⟩

theorem newFrame {c : Closure} (hc : c ∈ made) :
    Transparent N made (Running.newFrame c) (Running.newFrame c) fun _ => True :=
  fun s hs => .inl ⟨s.frames.size, s.enter c, rfl, rfl, hs.enter hc, trivial⟩

theorem frame (address : Nat) : Transparent N made (Running.frame address)
    (Running.frame address) fun f =>
      f.closure ∈ made ∧ ∀ v ∈ f.registers, v.BuiltFrom (· ∈ made) N := by
  intro s hs
  cases hf : s.frames[address]? with
  | none =>
    exact .inr ⟨_, s, Running.frame_of_none hf, Running.frame_of_none (s := s.forget) hf, hs⟩
  | some f =>
    exact .inl ⟨f, s, Running.frame_eq hf, Running.frame_eq (s := s.forget) hf, hs,
      hs.frames address f hf⟩

theorem getRegister (address register : Nat) : Transparent N made
    (Running.getRegister address register) (Running.getRegister address register)
    fun v => v.BuiltFrom (· ∈ made) N := by
  refine (frame address).bind fun f ⟨_, hregisters⟩ => ?_
  cases hv : f.registers[register]? with
  | none => exact throw _
  | some v => exact pure (hregisters v (Array.mem_of_getElem? hv))

theorem setRegister (address register : Nat) {v : Value} (hv : v.BuiltFrom (· ∈ made) N) :
    Transparent N made (Running.setRegister address register v)
      (Running.setRegister address register v) fun _ => True := by
  refine (frame address).bind fun f _ => ?_
  split
  · exact fun _ hs => .inl ⟨(), _, rfl, rfl, hs.set address register hv, trivial⟩
  · exact throw _

/-- What is put into a register is not the end of a call. -/
theorem setRegister_proceed (address register : Nat) {v : Value} (hv : v.BuiltFrom (· ∈ made) N)
    (skip : Bool) :
    Transparent N made
      (do
        Running.setRegister address register v
        Running.proceed skip)
      (do
        Running.setRegister address register v
        Running.proceed skip) fun next => next.BuiltFrom (· ∈ made) N :=
  (setRegister address register hv).bind fun _ _ => pure trivial

theorem literalValue (t : Template) (index : Nat) : Transparent N made
    (Running.literalValue t index) (Running.literalValue t index)
    fun v => v.BuiltFrom (· ∈ made) N := by
  unfold Running.literalValue
  split
  · exact pure (Value.builtFrom_ofQuotation _)
  · exact pure trivial
  · exact throw _

theorem operand (here : Activation) (half : Nat) : Transparent N made
    (Running.operand here half) (Running.operand here half) fun v => v.BuiltFrom (· ∈ made) N := by
  unfold Running.operand
  split
  · exact getRegister _ _
  · exact literalValue _ _

theorem clear (address first n : Nat) : Transparent N made (Running.clear address first n)
    (Running.clear address first n) fun _ => True := by
  induction n generalizing first with
  | zero => exact pure trivial
  | succ n ih => exact (setRegister address first (v := .nil) trivial).bind fun _ _ => ih _

theorem registersFrom (address first n : Nat) : Transparent N made
    (Running.registersFrom address first n) (Running.registersFrom address first n)
    fun vs => ∀ v ∈ vs, v.BuiltFrom (· ∈ made) N := by
  induction n generalizing first with
  | zero => exact pure (by simp)
  | succ n ih =>
    exact (getRegister _ _).bind fun v hv => (ih _).bind fun vs hvs =>
      pure (List.forall_mem_cons.mpr ⟨hv, hvs⟩)

theorem checkSlice (address first past : Nat) : Transparent N made
    (Running.checkSlice address first past) (Running.checkSlice address first past)
    fun _ => True := by
  refine (frame address).bind fun f _ => ?_
  split
  · exact pure trivial
  · exact throw _

theorem slice (address first past : Nat) : Transparent N made
    (Running.slice address first past) (Running.slice address first past)
    fun vs => ∀ v ∈ vs, v.BuiltFrom (· ∈ made) N :=
  (checkSlice _ _ _).bind fun _ _ => registersFrom _ _ _

theorem readCell (address : Nat) : Transparent N made (Running.readCell address)
    (Running.readCell address) fun v => v.BuiltFrom (· ∈ made) N := by
  refine fun s hs => .inl ⟨_, s, rfl, rfl, hs, ?_⟩
  cases hv : s.globals.read? address with
  | none => trivial
  | some v => exact hs.globals address v hv

theorem writeCell (address : Nat) {v : Value} (hv : v.BuiltFrom (· ∈ made) N) :
    Transparent N made (Running.writeCell address v) (Running.writeCell address v) fun _ => True :=
  fun _ hs => .inl ⟨(), _, rfl, rfl, hs.write address hv, trivial⟩

end Transparent

namespace Running

variable {s t : Store} {c : Closure} {index : Nat} {name : String} {k : Cache}

theorem cache_of_some (hk : s.caches[c.address]? = some k) : cache c s = .ok k s := by
  rw [cache, bind_of_ok (x := get) (s := s) rfl, hk]
  rfl

theorem globalName_eq (h : c.template.NamesGlobal index name) :
    globalName c.template index s = .ok name s := by
  obtain ⟨first, hl⟩ := h
  rw [globalName, hl]
  rfl

theorem globalName_of_not (h : ∀ name, ¬ c.template.NamesGlobal index name) :
    globalName c.template index = fault (.notGlobalName index c.template.displayName) := by
  unfold globalName
  split
  · rename_i first name hl
    exact absurd ⟨first, hl⟩ (h name)
  · rfl

theorem globalCell_false (h : c.template.NamesGlobal index name) :
    globalCell false c index s =
      .ok (s.globals.touch name).1 { s with globals := (s.globals.touch name).2 } := by
  simp only [globalCell, Bool.false_eq_true, if_false, pure_bind]
  rw [bind_of_ok (globalName_eq h)]
  rfl

/-- With a cache the cell of a global is the one that its name has, found anew or remembered. -/
theorem globalCell_true (hs : s.Coherent N made) (hc : c ∈ made)
    (h : c.template.NamesGlobal index name) : ∃ t,
      globalCell true c index s = .ok (s.globals.touch name).1 t ∧
      t.forget = { s.forget with globals := (s.globals.touch name).2 } ∧ t.Coherent N made := by
  obtain ⟨k, hk, hfaithful⟩ := hs.cache_of_made hc
  simp only [globalCell, if_true, pure_bind]
  rw [bind_of_ok (cache_of_some hk)]
  cases hfound : k.cells.lookup index with
  | some a =>
    obtain ⟨name', hname, ha⟩ := hfaithful.cells index a hfound
    obtain ⟨first, hl⟩ := h
    obtain ⟨first', hl'⟩ := hname
    rw [hl] at hl'
    cases hl'
    have htouch : s.globals.touch name = (a, s.globals) := by rw [Globals.touch, ha]
    rw [htouch]
    exact ⟨s, rfl, rfl, hs⟩
  | none =>
    have haddress := Globals.address?_touch s.globals name
    have hremember := (hs.touch name).remember hc
      (f := (·.rememberCell index (s.globals.touch name).1))
      fun k hk => hk.rememberCell h haddress
    dsimp only
    rw [bind_of_ok (globalName_eq h)]
    exact ⟨_, rfl, Store.forget_remember _ _ _, hremember⟩

/-- Where nothing is remembered, a walk that fails or leads nowhere is a failure. -/
theorem owner_fails (caching : Bool) (slot distance : Nat)
    (h : caching = true → ∃ k, s.caches[c.address]? = some k ∧ k.owners.lookup slot = none) :
    (∀ e t, outward (distance - 1) c.parent s = .error e t →
        owner caching c slot distance s = .error e t) ∧
      (outward (distance - 1) c.parent s = .ok none s →
        owner caching c slot distance s =
          .error (.fault (.frameMissing slot c.template.displayName)) s) := by
  cases caching with
  | false =>
    simp only [owner, Bool.false_eq_true, if_false, pure_bind]
    exact ⟨fun e t hw => bind_of_error hw, fun hw => bind_of_ok hw⟩
  | true =>
    obtain ⟨k, hk, hnone⟩ := h rfl
    simp only [owner, if_true, pure_bind]
    rw [bind_of_ok (cache_of_some hk), hnone]
    exact ⟨fun e t hw => bind_of_error hw, fun hw => bind_of_ok hw⟩

theorem owner_of_walk (slot : Nat) {distance a : Nat}
    (h : outward (distance - 1) c.parent s = .ok (some a) s) :
    owner false c slot distance s = .ok a s := by
  simp only [owner, Bool.false_eq_true, if_false, pure_bind]
  rw [bind_of_ok h]
  rfl

/-- With a cache the frame is the one that a walk leads to, found anew or remembered. -/
theorem owner_true (hs : s.Coherent N made) (hc : c ∈ made) {slot distance a : Nat} {v : Variable}
    {r : Register} (hv : c.template.slots[slot]? = some v) (hk : v.kind = .captured distance r)
    (h : outward (distance - 1) c.parent s = .ok (some a) s) : ∃ t,
      owner true c slot distance s = .ok a t ∧ t.forget = s.forget ∧ t.Coherent N made := by
  obtain ⟨k, hcache, hfaithful⟩ := hs.cache_of_made hc
  simp only [owner, if_true, pure_bind]
  rw [bind_of_ok (cache_of_some hcache)]
  cases hfound : k.owners.lookup slot with
  | some b =>
    obtain ⟨v', distance', r', hv', hk', hwalk⟩ := hfaithful.owners slot b hfound
    obtain rfl : v = v' := Option.some.inj (hv.symm.trans hv')
    rw [hk] at hk'
    cases hk'
    rw [h] at hwalk
    cases hwalk
    exact ⟨s, rfl, rfl, hs⟩
  | none =>
    have hremember := hs.remember hc (f := (·.rememberOwner slot a))
      fun k hk' => hk'.rememberOwner hv hk h
    exact ⟨_, bind_of_ok h, Store.forget_remember _ _ _, hremember⟩

theorem walk_of_owner {slot distance a : Nat} (h : owner false c slot distance s = .ok a t) :
    outward (distance - 1) c.parent s = .ok (some a) s := by
  simp only [owner, Bool.false_eq_true, if_false, pure_bind] at h
  obtain ⟨r, u, hw, hr⟩ := answers_of_bind h
  obtain rfl := outward_store hw
  cases r with
  | none => cases hr
  | some b =>
    cases hr
    exact hw

end Running

namespace Transparent

variable {c : Closure}

theorem globalCell (hc : c ∈ made) (index : Nat) : Transparent N made
    (Running.globalCell true c index) (Running.globalCell false c index) fun _ => True := by
  intro s hs
  by_cases h : ∃ name, c.template.NamesGlobal index name
  · obtain ⟨name, hname⟩ := h
    obtain ⟨t, hrun, hforget, ht⟩ := Running.globalCell_true hs hc hname
    refine .inl ⟨_, t, hrun, ?_, ht, trivial⟩
    rw [hforget]
    exact Running.globalCell_false hname
  · rw [not_exists] at h
    obtain ⟨k, hk, hfaithful⟩ := hs.cache_of_made hc
    have hnone : k.cells.lookup index = none := by
      rw [Option.eq_none_iff_forall_ne_some]
      intro a ha
      obtain ⟨name, hname, -⟩ := hfaithful.cells index a ha
      exact h name hname
    have hfails (t : Store) : Running.globalName c.template index t =
        .error (.fault (.notGlobalName index c.template.displayName)) t := by
      rw [Running.globalName_of_not h]
      rfl
    refine .inr ⟨.fault (.notGlobalName index c.template.displayName), s, ?_, ?_, hs⟩
    · simp only [Running.globalCell, if_true, pure_bind]
      rw [bind_of_ok (Running.cache_of_some hk), hnone]
      exact bind_of_error (hfails s)
    · simp only [Running.globalCell, Bool.false_eq_true, if_false, pure_bind]
      exact bind_of_error (hfails s.forget)

theorem outward (n : Nat) (p : Option Nat) : Transparent N made (Running.outward n p)
    (Running.outward n p) fun _ => True := by
  induction n generalizing p with
  | zero => exact pure trivial
  | succ n ih =>
    cases p with
    | none => exact pure trivial
    | some a => exact (frame a).bind fun f _ => ih f.closure.parent

theorem owner (hc : c ∈ made) {slot distance : Nat} {v : Variable} {r : Register}
    (hv : c.template.slots[slot]? = some v) (hk : v.kind = .captured distance r) :
    Transparent N made (Running.owner true c slot distance) (Running.owner false c slot distance)
      fun _ => True := by
  intro s hs
  obtain ⟨k, hcache, hfaithful⟩ := hs.cache_of_made hc
  have hwalk : Transparent N made (Running.outward (distance - 1) c.parent)
      (Running.outward (distance - 1) c.parent) fun _ => True := outward _ _
  have hplain (u : Store) :=
    @Running.owner_fails u.forget c false slot distance fun h => by cases h
  -- what is remembered is where a walk leads, so that a walk that fails is not remembered
  have hnone (h : ∀ a, Running.outward (distance - 1) c.parent s ≠ .ok (some a) s) :
      k.owners.lookup slot = none := by
    rw [Option.eq_none_iff_forall_ne_some]
    intro a ha
    obtain ⟨v', distance', r', hv', hk', hw⟩ := hfaithful.owners slot a ha
    obtain rfl : v = v' := Option.some.inj (hv.symm.trans hv')
    rw [hk] at hk'
    cases hk'
    exact h a hw
  obtain ⟨p, t, hx, hy, ht, -⟩ | ⟨e, t, hx, hy, ht⟩ := hwalk s hs
  · obtain rfl := Running.outward_store hx
    cases p with
    | some a =>
      obtain ⟨u, hrun, hforget, hu⟩ := Running.owner_true hs hc hv hk hx
      have hplain := Running.owner_of_walk slot hy
      exact .inl ⟨a, u, hrun, hplain.trans (congrArg _ hforget.symm), hu, trivial⟩
    | none =>
      have hunknown := hnone fun a ha => by rw [hx] at ha; cases ha
      have hcached := Running.owner_fails true slot distance fun _ => ⟨k, hcache, hunknown⟩
      exact .inr ⟨_, t, hcached.2 hx, (hplain t).2 hy, ht⟩
  · have hunknown := hnone fun a ha => by rw [hx] at ha; cases ha
    have hcached := Running.owner_fails true slot distance fun _ => ⟨k, hcache, hunknown⟩
    exact .inr ⟨e, t, hcached.1 e t hx, (hplain s).1 e t.forget hy, ht⟩

theorem capturedPlace (hc : c ∈ made) (slot : Nat) : Transparent N made
    (Running.capturedPlace true c slot) (Running.capturedPlace false c slot) fun _ => True := by
  unfold Running.capturedPlace
  split
  · rename_i name distance r initializer hv
    exact (owner hc hv rfl).bind fun _ _ => pure trivial
  · exact throw _
  · exact throw _

variable {here : Activation}

/-- An instruction that neither calls anything nor makes a closure. -/
theorem step (hhere : here.closure ∈ made) {call call' : Value → List Value → Running Value}
    {i : Instruction} (hcall : i.opcode ≠ .call) (hclosure : i.opcode ≠ .closure) :
    Transparent N made (Running.step true call here i) (Running.step false call' here i)
      fun next => next.BuiltFrom (· ∈ made) N := by
  have hnext (skip : Bool) : Transparent N made (Running.proceed skip) (Running.proceed skip)
      fun next => next.BuiltFrom (· ∈ made) N := pure trivial
  have hput (v : Value) (hv : v.BuiltFrom (· ∈ made) N) :=
    setRegister_proceed here.address i.a hv false
  have hget (r : Nat) : Transparent N made (Running.getRegister here.address r)
      (Running.getRegister here.address r) fun v => v.BuiltFrom (· ∈ made) N := getRegister _ _
  have hoperand (half : Nat) : Transparent N made (Running.operand here half)
      (Running.operand here half) fun v => v.BuiltFrom (· ∈ made) N := operand _ _
  have hcell := globalCell (N := N) hhere i.field
  have hplace := capturedPlace (N := N) hhere i.b
  have hleft := hoperand i.b
  have hright := hoperand i.c
  unfold Running.step
  cases ho : i.opcode with
  | move => exact (hget _).bind hput
  | loadConstant => exact (literalValue _ _).bind hput
  | loadBoolean => exact setRegister_proceed _ _ (v := .boolean _) trivial _
  | loadNil => exact (checkSlice _ _ _).bind fun _ _ => (clear _ _ _).bind fun _ _ => hnext _
  | getCaptured => exact hplace.bind fun p _ => (getRegister p.1 p.2).bind hput
  | setCaptured =>
    exact hplace.bind fun p _ => (hget _).bind fun v hv =>
      (setRegister _ _ hv).bind fun _ _ => hnext _
  | getGlobal => exact hcell.bind fun address _ => (readCell address).bind hput
  | setGlobal =>
    exact hcell.bind fun address _ => (hget _).bind fun v hv =>
      (writeCell address hv).bind fun _ _ => hnext _
  | add | subtract | multiply | divide | modulo | remainder =>
    exact hleft.bind fun x _ => hright.bind fun y _ =>
      (ofGives (Arithmetic.gives_apply _ x y)).bind hput
  | negate => exact (hget _).bind fun x _ => (ofGives (Arithmetic.gives_negate x)).bind hput
  | not => exact (hget _).bind fun v _ => hput _ trivial
  | equivalent | equalNumbers | less | lessOrEqual =>
    exact hleft.bind fun x _ => hright.bind fun y _ =>
      (ofExcept (Q := fun _ => True) fun _ _ => trivial).bind fun _ _ => hnext _
  | test => exact (hget _).bind fun _ _ => hnext _
  | testSet =>
    refine (hget _).bind fun v hv => ?_
    split
    · exact hput v hv
    · exact hnext _
  | jump =>
    dsimp only
    split
    · exact throw _
    · exact pure trivial
  | call => exact absurd ho hcall
  | «return» =>
    dsimp only
    split
    · exact (hget _).bind fun v hv => pure hv
    · exact pure trivial
  | closure => exact absurd ho hclosure
  | cons =>
    exact hleft.bind fun x hx => hright.bind fun y hy =>
      (allocating (Allocating.gives_cons hx hy)).bind hput
  | car =>
    exact (hget _).bind fun v hv => (ofGives (Value.gives_toPair hv)).bind fun p hp => hput _ hp.1
  | cdr =>
    exact (hget _).bind fun v hv => (ofGives (Value.gives_toPair hv)).bind fun p hp => hput _ hp.2

theorem fill (address : Nat) {values : List (Register × Value)}
    (h : ∀ p ∈ values, p.2.BuiltFrom (· ∈ made) N) :
    Transparent N made (Running.fill address values) (Running.fill address values)
      fun _ => True := by
  induction values with
  | nil => exact pure trivial
  | cons p values ih =>
    obtain ⟨hp, hvalues⟩ := List.forall_mem_cons.mp h
    exact (setRegister address p.1 hp).bind fun _ _ => ih hvalues

theorem fillRest (address : Nat) {rest : Option (Register × List Value)}
    (h : ∀ p ∈ rest, ∀ v ∈ p.2, v.BuiltFrom (· ∈ made) N) :
    Transparent N made (Running.fillRest address rest) (Running.fillRest address rest)
      fun _ => True := by
  cases rest with
  | none => exact pure trivial
  | some p =>
    exact (allocating (Allocating.gives_list (h p rfl))).bind fun v hv => setRegister _ _ hv

end Transparent

end RegisterScheme
