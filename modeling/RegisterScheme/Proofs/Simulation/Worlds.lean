import RegisterScheme.Proofs.Evaluation.World
import RegisterScheme.Proofs.Expr.Scoped
import RegisterScheme.Proofs.Value.Natives

/-! Worlds as evaluation leaves them: every closure belongs to a procedure that was compiled for the
activations around it, and values are built from such closures. Activations and closures are only
added. -/

namespace RegisterScheme

namespace World

/-- The activation so many closures further out than a given one. -/
def ancestor (w : World) : Nat → Option Nat → Option Nat
  | 0, address => address
  | _ + 1, none => none
  | n + 1, some address => w.environments[address]?.bind fun e => w.ancestor n e.closure.parent

/-- The scopes of an activation and of those around it, innermost first. -/
inductive Encloses (w : World) : Option Nat → List Scope → Prop
  | outermost : Encloses w none []
  | inside {address : Nat} {e : Environment} {f : Function} {outer : List Scope}
      (environment : w.environments[address]? = some e)
      (procedure : w.procedures[e.closure.address]? = some (f, e.closure.parent))
      (valid : f.scope.Valid) (around : Encloses w e.closure.parent outer) :
      Encloses w (some address) (f.scope :: outer)

/-- A closure of a procedure that was compiled for the place where the closure was made. -/
structure KnownAs (w : World) (c : Closure) (f : Function) (outer : List Scope) : Prop where
  procedure : w.procedures[c.address]? = some (f, c.parent)
  template : f.template = .ok c.template
  around : w.Encloses c.parent outer
  function_scoped : f.Scoped outer

def Known (w : World) (c : Closure) : Prop := ∃ f outer, w.KnownAs c f outer

/-- A world with perhaps more activations and closures. -/
structure Grows (w w' : World) : Prop where
  environments : ∀ (i : Nat) e, w.environments[i]? = some e →
    ∃ e', w'.environments[i]? = some e' ∧ e'.closure = e.closure
  procedures : ∀ (i : Nat) p, w.procedures[i]? = some p → w'.procedures[i]? = some p

theorem Grows.refl (w : World) : w.Grows w := ⟨fun _ e h => ⟨e, h, rfl⟩, fun _ _ h => h⟩

theorem Grows.trans {w w' w'' : World} (h : w.Grows w') (h' : w'.Grows w'') : w.Grows w'' where
  environments i e he := by
    obtain ⟨e', he', hc⟩ := h.environments i e he
    obtain ⟨e'', he'', hc'⟩ := h'.environments i e' he'
    exact ⟨e'', he'', hc'.trans hc⟩
  procedures i p hp := h'.procedures i p (h.procedures i p hp)

theorem Encloses.grows {w w' : World} {address : Option Nat} {scopes : List Scope}
    (h : w.Encloses address scopes) (hg : w.Grows w') : w'.Encloses address scopes := by
  induction h with
  | outermost => exact .outermost
  | inside he hp hv _ ih =>
    obtain ⟨e', he', hc⟩ := hg.environments _ _ he
    rw [← hc] at hp ih
    exact .inside he' (hg.procedures _ _ hp) hv ih

theorem KnownAs.grows {w w' : World} {c : Closure} {f : Function} {outer : List Scope}
    (h : w.KnownAs c f outer) (hg : w.Grows w') : w'.KnownAs c f outer :=
  ⟨hg.procedures _ _ h.procedure, h.template, h.around.grows hg, h.function_scoped⟩

theorem Known.grows {w w' : World} {c : Closure} (h : w.Known c) (hg : w.Grows w') :
    w'.Known c := by
  obtain ⟨f, outer, h⟩ := h
  exact ⟨f, outer, h.grows hg⟩

/-- The values of a world are built from its closures and the natives of the host. -/
structure Valid (w : World) (N : Nat → Prop) : Prop where
  closures : ∀ (i : Nat) e, w.environments[i]? = some e → w.Known e.closure
  values : ∀ (i : Nat) e r, w.environments[i]? = some e → (e.values r).BuiltFrom w.Known N
  globals : ∀ name v, w.globals name = some v → v.BuiltFrom w.Known N

/-- The scope so many further out belongs to the activation so many further out. -/
theorem Encloses.ancestor {w : World} {address : Option Nat} {scopes : List Scope}
    (h : w.Encloses address scopes) {d : Nat} {s : Scope} (hs : scopes[d]? = some s) :
    ∃ a e f, w.ancestor d address = some a ∧ w.environments[a]? = some e ∧
      w.procedures[e.closure.address]? = some (f, e.closure.parent) ∧ f.scope = s ∧ s.Valid := by
  induction h generalizing d with
  | outermost => cases hs
  | @inside address e f outer he hp hv _ ih =>
    cases d with
    | zero =>
      cases hs
      exact ⟨address, e, f, rfl, he, hp, rfl, hv⟩
    | succ d =>
      obtain ⟨a, e', f', ha, h'⟩ := ih hs
      exact ⟨a, e', f', by rw [World.ancestor, he, Option.bind_some, ha], h'⟩

end World

namespace World

variable {w w' : World} {N : Nat → Prop}

theorem ancestor_grows (hg : w.Grows w') {d : Nat} {address : Option Nat} {a : Nat}
    (h : w.ancestor d address = some a) : w'.ancestor d address = some a := by
  induction d generalizing address with
  | zero => exact h
  | succ d ih =>
    cases address with
    | none => cases h
    | some i =>
      rw [ancestor, Option.bind_eq_some_iff] at h
      obtain ⟨e, he, h⟩ := h
      obtain ⟨e', he', hc⟩ := hg.environments i e he
      rw [ancestor, he', Option.bind_some, hc]
      exact ih h

/-- The same world with another value of a variable. -/
def set (w : World) (address : Nat) (r : Register) (v : Value) : World :=
  { w with
    environments := w.environments.modify address fun e =>
      { e with values := fun q => if q = r then v else e.values q } }

/-- The same world with another value of a global. -/
def setGlobal (w : World) (name : String) (v : Value) : World :=
  { w with globals := fun n => if n = name then some v else w.globals n }

/-- The same world with one more activation. -/
def enter (w : World) (c : Closure) : World :=
  { w with environments := w.environments.push ⟨c, fun _ => .nil⟩ }

/-- The same world with one more closure. -/
def addClosure (w : World) (f : Function) (parent : Option Nat) : World :=
  { w with procedures := w.procedures.push (f, parent) }

theorem set_environments (w : World) (a : Nat) (r : Register) (v : Value) (i : Nat) :
    (w.set a r v).environments[i]? = if a = i then w.environments[i]?.map fun e =>
      { e with values := fun q => if q = r then v else e.values q } else w.environments[i]? :=
  Array.getElem?_modify

theorem set_self {w : World} {a : Nat} {e : Environment} (he : w.environments[a]? = some e)
    (r : Register) : w.set a r (e.values r) = w := by
  have henv : (w.set a r (e.values r)).environments = w.environments := by
    refine Array.ext_getElem? fun i => ?_
    rw [set_environments]
    split
    · rename_i hai
      have hvalues : (fun q => if q = r then e.values r else e.values q) = e.values := by
        funext q
        split
        · rename_i hqr
          rw [hqr]
        · rfl
      rw [← hai, he, Option.map_some, hvalues]
    · rfl
  exact congrArg (fun environments => { w with environments := environments }) henv

theorem enter_environments (w : World) (c : Closure) (i : Nat) :
    (w.enter c).environments[i]? =
      if i = w.environments.size then some ⟨c, fun _ => .nil⟩ else w.environments[i]? :=
  Array.getElem?_push

theorem addClosure_procedures (w : World) (f : Function) (parent : Option Nat) (i : Nat) :
    (w.addClosure f parent).procedures[i]? =
      if i = w.procedures.size then some (f, parent) else w.procedures[i]? :=
  Array.getElem?_push

theorem grows_set (w : World) (a : Nat) (r : Register) (v : Value) : w.Grows (w.set a r v) where
  environments i e he := by
    rw [set_environments]
    split
    · exact ⟨_, congrArg _ he, rfl⟩
    · exact ⟨e, he, rfl⟩
  procedures _ _ h := h

theorem grows_setGlobal (w : World) (name : String) (v : Value) : w.Grows (w.setGlobal name v) :=
  ⟨fun _ e h => ⟨e, h, rfl⟩, fun _ _ h => h⟩

theorem grows_enter (w : World) (c : Closure) : w.Grows (w.enter c) where
  environments i e he := by
    rw [enter_environments, if_neg (Nat.ne_of_lt (Array.getElem?_eq_some_iff.mp he).1)]
    exact ⟨e, he, rfl⟩
  procedures _ _ h := h

theorem grows_addClosure (w : World) (f : Function) (parent : Option Nat) :
    w.Grows (w.addClosure f parent) where
  environments _ e h := ⟨e, h, rfl⟩
  procedures i p hp := by
    rw [addClosure_procedures, if_neg (Nat.ne_of_lt (Array.getElem?_eq_some_iff.mp hp).1)]
    exact hp

theorem grows_nextObject (w : World) (n : Nat) : w.Grows { w with nextObject := n } :=
  ⟨fun _ e h => ⟨e, h, rfl⟩, fun _ _ h => h⟩

theorem Valid.set (h : w.Valid N) {a : Nat} {r : Register} {v : Value}
    (hv : v.BuiltFrom w.Known N) : (w.set a r v).Valid N where
  closures i e he := by
    rw [set_environments] at he
    split at he
    · rw [Option.map_eq_some_iff] at he
      obtain ⟨e', he', rfl⟩ := he
      exact (h.closures i e' he').grows (grows_set ..)
    · exact (h.closures i e he).grows (grows_set ..)
  values i e q he := by
    rw [set_environments] at he
    refine Value.BuiltFrom.mono (P := w.Known) (fun _ hc => hc.grows (grows_set ..)) ?_
    split at he
    · rw [Option.map_eq_some_iff] at he
      obtain ⟨e', he', rfl⟩ := he
      dsimp only
      split
      · exact hv
      · exact h.values i e' q he'
    · exact h.values i e q he
  globals name u hu := (h.globals name u hu).mono fun _ hc => hc.grows (grows_set ..)

theorem Valid.setGlobal (h : w.Valid N) {name : String} {v : Value}
    (hv : v.BuiltFrom w.Known N) : (w.setGlobal name v).Valid N where
  closures i e he := (h.closures i e he).grows (grows_setGlobal ..)
  values i e r he := (h.values i e r he).mono fun _ hc => hc.grows (grows_setGlobal ..)
  globals n u hu := by
    refine Value.BuiltFrom.mono (P := w.Known) (fun _ hc => hc.grows (grows_setGlobal ..)) ?_
    change (if n = name then some v else w.globals n) = some u at hu
    split at hu
    · cases hu
      exact hv
    · exact h.globals n u hu

theorem Valid.enter (h : w.Valid N) {c : Closure} (hc : w.Known c) : (w.enter c).Valid N where
  closures i e he := by
    rw [enter_environments] at he
    split at he
    · cases he
      exact hc.grows (grows_enter ..)
    · exact (h.closures i e he).grows (grows_enter ..)
  values i e r he := by
    rw [enter_environments] at he
    split at he
    · cases he
      exact trivial
    · exact (h.values i e r he).mono fun _ hc => hc.grows (grows_enter ..)
  globals n u hu := (h.globals n u hu).mono fun _ hc => hc.grows (grows_enter ..)

theorem Valid.addClosure (h : w.Valid N) (f : Function) (parent : Option Nat) :
    (w.addClosure f parent).Valid N where
  closures i e he := (h.closures i e he).grows (grows_addClosure ..)
  values i e r he := (h.values i e r he).mono fun _ hc => hc.grows (grows_addClosure ..)
  globals n u hu := (h.globals n u hu).mono fun _ hc => hc.grows (grows_addClosure ..)

theorem Valid.nextObject (h : w.Valid N) (n : Nat) : World.Valid { w with nextObject := n } N where
  closures i e he := (h.closures i e he).grows (grows_nextObject ..)
  values i e r he := (h.values i e r he).mono fun _ hc => hc.grows (grows_nextObject ..)
  globals n u hu := (h.globals n u hu).mono fun _ hc => hc.grows (grows_nextObject ..)

/-- A new closure is known if its template was compiled for the place where it is made. -/
theorem known_addClosure {f : Function} {parent : Option Nat} {outer : List Scope} {t : Template}
    (ht : f.template = .ok t) (ho : w.Encloses parent outer) (hf : f.Scoped outer) :
    (w.addClosure f parent).Known ⟨w.procedures.size, t, parent⟩ :=
  ⟨f, outer, by rw [addClosure_procedures, if_pos rfl], ht, ho.grows (grows_addClosure ..), hf⟩

/-- The activation of a known closure lies inside those around the closure. -/
theorem KnownAs.encloses {c : Closure} {f : Function} {outer : List Scope}
    (h : w.KnownAs c f outer) {a : Nat} {e : Environment} (he : w.environments[a]? = some e)
    (hc : e.closure = c) : w.Encloses (some a) (f.scope :: outer) := by
  subst hc
  cases h.function_scoped with
  | intro valid => exact .inside he h.procedure valid h.around

end World

end RegisterScheme
