import RegisterScheme.Proofs.Machine.Frames

/-! What a run leaves of the store it starts from: whatever happens in it, and also when it fails,
the registers of the frames that were there still are. -/

namespace RegisterScheme

variable {α : Type}

/-- The registers of a store are still there. -/
structure Store.Retains (s t : Store) : Prop where
  registers : ∀ a i, (s.register? a i).isSome → (t.register? a i).isSome

namespace Store

theorem Retains.refl (s : Store) : s.Retains s := ⟨fun _ _ h => h⟩

theorem Retains.trans {s t u : Store} (h : s.Retains t) (h' : t.Retains u) : s.Retains u :=
  ⟨fun a i hs => h'.registers a i (h.registers a i hs)⟩

instance : Framed Retains where
  frames h := ⟨fun a i hs => by rwa [register?, h]⟩
  trans := Retains.trans

theorem retains_set (s : Store) (a i : Nat) (v : Value) : s.Retains (s.set a i v) where
  registers b j h := by
    by_cases hne : b ≠ a ∨ j ≠ i
    · rwa [register?_set_of_ne hne]
    · rw [not_or, not_not, not_not] at hne
      obtain ⟨rfl, rfl⟩ := hne
      rw [register?_set h]
      rfl

theorem lt_of_register? {s : Store} {a i : Nat} (h : (s.register? a i).isSome) :
    a < s.frames.size := by
  obtain ⟨v, hv⟩ := Option.isSome_iff_exists.mp h
  obtain ⟨fr, hf, -⟩ := register?_eq_some.mp hv
  exact (Array.getElem?_eq_some_iff.mp hf).1

theorem retains_enter (s : Store) (c : Closure) : s.Retains (s.enter c) where
  registers a i h := by rwa [register?_enter (lt_of_register? h)]

end Store

open Store

/-- A computation that leaves the registers of the store there. -/
abbrev Retaining (act : Running α) : Prop := Along Retains act

namespace Running

variable {caching : Bool} {call : Value → List Value → Running Value} {here : Activation}

theorem retaining_newFrame (c : Closure) : Retaining (newFrame c) :=
  ⟨fun s => .answers (a := s.frames.size) (t := s.enter c) rfl (s.retains_enter c) trivial⟩

theorem retaining_setRegister (address register : Nat) (v : Value) :
    Retaining (setRegister address register v) :=
  along_setRegister fun s => s.retains_set address register v

/-- What is called may be anything that leaves the registers there. -/
theorem retaining_exec (hcall : ∀ callee args, Retaining (call callee args)) (code : List Line)
    (skip : Nat) : Retaining (exec caching call here code skip) :=
  along_exec (fun _ _ => along_step hcall (fun _ _ _ => retaining_setRegister _ _ _)
    fun _ _ _ _ => retaining_setRegister _ _ _) skip

theorem retaining_fill (address : Nat) (values : List (Register × Value)) :
    Retaining (fill address values) := by
  induction values with
  | nil => exact .pure ()
  | cons p values ih => exact (retaining_setRegister _ _ _).bind fun _ => ih

theorem retaining_fillRest (address : Nat) (rest : Option (Register × List Value)) :
    Retaining (fillRest address rest) := by
  cases rest with
  | none => exact .pure ()
  | some p => exact (along_allocating _).bind fun v => retaining_setRegister _ _ _

theorem retaining_fillDefaults {run : Closure → Running Value} (hrun : ∀ c, Retaining (run c))
    (here : Activation) (defaults : List (Register × Nat)) :
    Retaining (fillDefaults run here defaults) := by
  induction defaults with
  | nil => exact .pure ()
  | cons p defaults ih =>
    exact (along_ofExcept _).bind fun t => (along_newClosure t _).bind fun c =>
      (hrun c).bind fun v => (retaining_setRegister _ _ _).bind fun _ => ih

theorem retaining_bindArguments {run : Closure → Running Value} (hrun : ∀ c, Retaining (run c))
    (here : Activation) (args : List Value) : Retaining (bindArguments run here args) := by
  rw [bindArguments_eq]
  exact (along_deal _ _).bind fun _ => (retaining_fill _ _).bind fun _ =>
    (retaining_fillRest _ _).bind fun _ => retaining_fillDefaults hrun _ _

end Running

namespace Machine

open Running

variable (m : Machine)

theorem retaining_callClosure (remaining : Nat) (c : Closure) (args : List Value) :
    Retaining (m.callClosure remaining c args) := by
  induction remaining generalizing c args with
  | zero =>
    unfold callClosure
    cases m.callLimit with
    | some limit => exact .throw _
    | none => exact .throw _
  | succ remaining ih =>
    have hcall (callee : Value) (args : List Value) :
        Retaining (m.applyWith (m.callClosure remaining) callee args) := by
      cases callee with
      | closure c => exact ih c args
      | native n => exact along_allocating _
      | atom | unspecified | pair | vector | template => exact .throw _
    unfold callClosure
    refine along_inProcedure (.bind (retaining_newFrame c) fun address => ?_) _
    exact (retaining_bindArguments (fun c => ih c []) _ args).bind fun _ =>
      retaining_exec hcall _ 0

end Machine

end RegisterScheme
