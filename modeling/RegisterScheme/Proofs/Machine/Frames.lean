import RegisterScheme.Proofs.Machine.Binding
import RegisterScheme.Proofs.Template.Registers

/-! What an instruction does to the frames of a store. It is what its own writes, those of captured
variables and the calls do. -/

namespace RegisterScheme

variable {α : Type} {R : Store → Store → Prop}

/-- A relation between a store and what it becomes that only looks at the frames. -/
class Store.Framed (R : Store → Store → Prop) : Prop where
  frames {s t : Store} : t.frames = s.frames → R s t
  trans {s t u : Store} : R s t → R t u → R s u

instance [h : Store.Framed R] : Std.Refl R := ⟨fun _ => h.frames rfl⟩

instance [h : Store.Framed R] : Trans R R R := ⟨h.trans⟩

namespace Running

variable [Store.Framed R] {caching : Bool} {call : Value → List Value → Running Value}
  {here : Activation}

theorem along_ofExcept (r : Except Failure α) : Along R (ofExcept r) := by
  cases r with
  | ok a => exact .pure a
  | error f => exact .throw f

/-- A change of what is no frame, or a look at the store. -/
theorem along_of_frames {act : Running α} (h : ∀ s, ∃ a t, act s = .ok a t ∧ t.frames = s.frames) :
    Along R act := by
  refine ⟨fun s => ?_⟩
  obtain ⟨a, t, hact, hframes⟩ := h s
  exact .answers hact (Store.Framed.frames hframes) trivial

theorem along_allocating (act : Allocating α) : Along R (allocating act) := by
  refine ⟨fun s => ?_⟩
  cases hact : act.run s.nextObject with
  | ok p =>
    have hrun : allocating act s = .ok p.1 { s with nextObject := p.2 } := by
      rw [allocating, hact]
    exact .answers hrun (Store.Framed.frames rfl) trivial
  | error f =>
    have hrun : allocating act s = .error f s := by rw [allocating, hact]
    exact .fails hrun (Std.Refl.refl s) trivial

theorem along_located {act : Running α} (h : Along R act) (place : Option Location) :
    Along R (located place act) := .tryCatch h fun _ => .throw _

theorem along_inProcedure {act : Running α} (h : Along R act) (name : String) :
    Along R (inProcedure name act) := .tryCatch h fun _ => .throw _

theorem along_frame (address : Nat) : Along R (frame address) := by
  refine .bind .get fun s => ?_
  cases s.frames[address]? with
  | none => exact .throw _
  | some f => exact .pure f

theorem along_getRegister (address register : Nat) : Along R (getRegister address register) := by
  refine .bind (along_frame address) fun f => ?_
  cases f.registers[register]? with
  | none => exact .throw _
  | some v => exact .pure v

theorem along_setRegister {address register : Nat} {v : Value}
    (h : ∀ s : Store, R s (s.set address register v)) :
    Along R (setRegister address register v) := by
  refine .bind (along_frame address) fun f => ?_
  split
  · exact ⟨fun s => .answers (a := ()) (t := s.set address register v) rfl (h s) trivial⟩
  · exact .throw _

theorem along_checkSlice (address first past : Nat) :
    Along R (checkSlice address first past) := by
  refine .bind (along_frame address) fun f => ?_
  split
  · exact .pure ()
  · exact .throw _

theorem along_newClosure (t : Template) (parent : Option Nat) : Along R (newClosure t parent) :=
  along_of_frames fun _ => ⟨_, _, rfl, rfl⟩

theorem along_literalValue (t : Template) (index : Nat) : Along R (literalValue t index) := by
  unfold literalValue
  split
  · exact .pure _
  · exact .pure _
  · exact .throw _

theorem along_globalName (t : Template) (index : Nat) : Along R (globalName t index) := by
  unfold globalName
  split
  · exact .pure _
  · exact .throw _

theorem along_cell (name : String) : Along R (cell name) :=
  along_of_frames fun _ => ⟨_, _, rfl, rfl⟩

theorem along_cache (c : Closure) : Along R (cache c) :=
  along_of_frames fun _ => ⟨_, _, rfl, rfl⟩

theorem along_updateCache (c : Closure) (f : Cache → Cache) : Along R (updateCache c f) :=
  along_of_frames fun _ => ⟨(), _, rfl, rfl⟩

theorem along_globalCell (caching : Bool) (c : Closure) (index : Nat) :
    Along R (globalCell caching c index) := by
  have hname : Along R (globalName c.template index) := along_globalName c.template index
  cases caching with
  | false =>
    simp only [globalCell, Bool.false_eq_true, if_false, pure_bind]
    exact hname.bind fun name => (along_cell name).bind fun _ => .pure _
  | true =>
    simp only [globalCell, if_true, pure_bind]
    refine (along_cache c).bind fun known => ?_
    split
    · exact .pure _
    · exact hname.bind fun name => (along_cell name).bind fun _ =>
        (along_updateCache _ _).bind fun _ => .pure _

theorem along_outward (n : Nat) (address : Option Nat) : Along R (outward n address) := by
  induction n generalizing address with
  | zero => exact .pure _
  | succ n ih =>
    cases address with
    | none => exact .pure _
    | some address => exact (along_frame address).bind fun f => ih _

theorem along_owner (caching : Bool) (c : Closure) (slot distance : Nat) :
    Along R (owner caching c slot distance) := by
  have houtward : Along R (outward (distance - 1) c.parent) := along_outward _ _
  cases caching with
  | false =>
    simp only [owner, Bool.false_eq_true, if_false, pure_bind]
    refine houtward.bind fun address => ?_
    split
    · exact .throw _
    · exact .pure _
  | true =>
    simp only [owner, if_true, pure_bind]
    refine (along_cache c).bind fun known => ?_
    split
    · exact .pure _
    · refine houtward.bind fun address => ?_
      split
      · exact .throw _
      · exact (along_updateCache _ _).bind fun _ => .pure _

theorem along_capturedPlace (caching : Bool) (c : Closure) (slot : Nat) :
    Along R (capturedPlace caching c slot) := by
  unfold capturedPlace
  split
  · exact (along_owner _ _ _ _).bind fun _ => .pure _
  · exact .throw _
  · exact .throw _

theorem along_operand (here : Activation) (half : Nat) : Along R (operand here half) := by
  unfold operand
  split
  · exact along_getRegister _ _
  · exact along_literalValue _ _

theorem along_clear {address first n : Nat}
    (h : ∀ q ∈ List.range' first n, Along R (setRegister address q .nil)) :
    Along R (clear address first n) := by
  induction n generalizing first with
  | zero => exact .pure ()
  | succ n ih =>
    obtain ⟨hfirst, hmore⟩ := List.forall_mem_cons.mp h
    exact hfirst.bind fun _ => ih hmore

theorem along_registersFrom (address first n : Nat) :
    Along R (registersFrom address first n) := by
  induction n generalizing first with
  | zero => exact .pure []
  | succ n ih =>
    exact (along_getRegister _ _).bind fun _ => (ih _).bind fun _ => .pure _

theorem along_slice (address first past : Nat) : Along R (slice address first past) :=
  (along_checkSlice _ _ _).bind fun _ => along_registersFrom _ _ _

theorem along_deal (c : Closure) (args : List Value) : Along R (deal c args) := by
  unfold deal
  dsimp only
  split
  · exact .throw _
  · split
    · exact .throw _
    · exact .pure _

/-- An instruction does what it does by writing its registers, those of captured variables, and by
calls. -/
theorem along_step {i : Instruction} (hcall : ∀ callee args, Along R (call callee args))
    (hset : ∀ q ∈ i.writes, ∀ v, Along R (setRegister here.address q v))
    (hcaptured : i.opcode = .setCaptured → ∀ a q v, Along R (setRegister a q v)) :
    Along R (step caching call here i) := by
  have hget (r : Nat) : Along R (getRegister here.address r) := along_getRegister _ _
  have hnext (skip : Bool) : Along R (proceed skip) := .pure _
  have hcell : Along R (globalCell caching here.closure i.field) := along_globalCell _ _ _
  have hplace : Along R (capturedPlace caching here.closure i.b) := along_capturedPlace _ _ _
  have hleft : Along R (operand here i.b) := along_operand _ _
  have hright : Along R (operand here i.c) := along_operand _ _
  have hput (ha : i.a.val ∈ i.writes) (v : Value) (skip : Bool) : Along R (do
      setRegister here.address i.a v
      proceed skip) := (hset _ ha v).bind fun _ => hnext skip
  unfold Instruction.writes at hset hput
  unfold step
  cases ho : i.opcode with
  | move => exact (hget _).bind fun v => hput (by simp [ho]) v false
  | loadConstant => exact (along_literalValue _ _).bind fun v => hput (by simp [ho]) v false
  | loadBoolean => exact hput (by simp [ho]) _ _
  | loadNil =>
    rw [ho] at hset
    exact (along_checkSlice _ _ _).bind fun _ =>
      (along_clear fun q hq => hset q hq _).bind fun _ => hnext _
  | getCaptured =>
    exact hplace.bind fun p => (along_getRegister p.1 p.2).bind fun v => hput (by simp [ho]) v false
  | setCaptured =>
    exact hplace.bind fun p => (hget _).bind fun v => (hcaptured ho _ _ _).bind fun _ => hnext _
  | getGlobal =>
    have hread (address : Nat) : Along R (readCell address) :=
      along_of_frames fun _ => ⟨_, _, rfl, rfl⟩
    exact hcell.bind fun address => (hread address).bind fun v => hput (by simp [ho]) v false
  | setGlobal =>
    have hwrite (address : Nat) (v : Value) : Along R (writeCell address v) :=
      along_of_frames fun _ => ⟨(), _, rfl, rfl⟩
    exact hcell.bind fun address => (hget _).bind fun v => (hwrite address v).bind fun _ => hnext _
  | add | subtract | multiply | divide | modulo | remainder =>
    exact hleft.bind fun x => hright.bind fun y => (along_ofExcept _).bind fun v =>
      hput (by simp [ho]) v false
  | negate =>
    exact (hget _).bind fun x => (along_ofExcept _).bind fun v => hput (by simp [ho]) v false
  | not => exact (hget _).bind fun v => hput (by simp [ho]) _ false
  | equivalent | equalNumbers | less | lessOrEqual =>
    exact hleft.bind fun x => hright.bind fun y => (along_ofExcept _).bind fun _ => hnext _
  | test => exact (hget _).bind fun _ => hnext _
  | testSet =>
    refine (hget _).bind fun v => ?_
    split
    · exact hput (by simp [ho]) v false
    · exact hnext _
  | jump =>
    dsimp only
    split
    · exact .throw _
    · exact .pure _
  | call =>
    refine (hget _).bind fun callee => (along_slice _ _ _).bind fun args =>
      (hcall callee args).bind fun v => ?_
    split
    · exact hput (by simp [ho]) v false
    · exact hnext _
  | «return» =>
    dsimp only
    split
    · exact (hget _).bind fun _ => .pure _
    · exact .pure _
  | closure =>
    exact (along_ofExcept _).bind fun t => (along_newClosure t _).bind fun c =>
      hput (by simp [ho]) _ false
  | cons =>
    exact hleft.bind fun x => hright.bind fun y => (along_allocating _).bind fun v =>
      hput (by simp [ho]) v false
  | car | cdr =>
    exact (hget _).bind fun v => (along_ofExcept _).bind fun _ => hput (by simp [ho]) _ false

theorem along_exec {code : List Line}
    (hstep : ∀ line ∈ code, Along R (step caching call here line.instruction)) (skip : Nat) :
    Along R (exec caching call here code skip) := by
  induction code generalizing skip with
  | nil => exact .throw _
  | cons line rest ih =>
    obtain ⟨hline, hrest⟩ := List.forall_mem_cons.mp hstep
    cases skip with
    | succ skip => exact ih hrest skip
    | zero =>
      refine (along_located hline _).bind fun next => ?_
      cases next with
      | done v => exact .pure v
      | skip lines => exact ih hrest lines

end Running

end RegisterScheme
