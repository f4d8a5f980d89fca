import RegisterScheme.Proofs.Generation.Formals
import RegisterScheme.Proofs.Machine.Dealing
import RegisterScheme.Proofs.Machine.Growth

/-! The frame of a call before its body: first it holds what the arguments give, and then one
default after the other is evaluated and put into its register. -/

namespace RegisterScheme

/-- A store in which other registers of one frame are filled, and objects may be new. -/
structure Store.FillsFrame (s : Store) (a : Nat) (t : Store) : Prop where
  size : t.frames.size = s.frames.size
  closure : t.frames[a]?.map Frame.closure = s.frames[a]?.map Frame.closure
  others : ∀ b, b ≠ a → t.frames[b]? = s.frames[b]?
  globals : t.globals = s.globals
  caches : t.caches = s.caches

/-- A store in which a call has begun: its frame is new, and its parameters are as the arguments
assign them, nil without a value. The pairs of the rest are new, too. -/
structure Store.Begins {δ : Type} (s : Store) (c : Closure) (F : Formals δ) (args : List Value)
    (t : Store) : Prop where
  frames : ∀ b, b < s.frames.size → t.frames[b]? = s.frames[b]?
  size : t.frames.size = s.frames.size + 1
  closure : t.frames[s.frames.size]?.map Frame.closure = some c
  globals : t.globals = s.globals
  caches : t.caches = s.caches
  given : ∀ q ∈ F.assign args, t.register? s.frames.size q.1.register = some (q.2.getD .nil)
  rest : ∀ r ∈ F.rest,
    t.register? s.frames.size r = some (.listFrom s.nextObject .nil (F.extra args))

namespace Store

variable {s t u : Store} {a i : Nat}

theorem FillsFrame.refl (s : Store) (a : Nat) : s.FillsFrame a s :=
  ⟨rfl, rfl, fun _ _ => rfl, rfl, rfl⟩

theorem FillsFrame.trans (h : s.FillsFrame a t) (h' : t.FillsFrame a u) : s.FillsFrame a u where
  size := h'.size.trans h.size
  closure := h'.closure.trans h.closure
  others b hb := (h'.others b hb).trans (h.others b hb)
  globals := h'.globals.trans h.globals
  caches := h'.caches.trans h.caches

theorem fillsFrame_set (s : Store) (a i : Nat) (v : Value) : s.FillsFrame a (s.set a i v) where
  size := Array.size_modify
  closure := by
    rw [set_frames, if_pos rfl, Option.map_map]
    rfl
  others b hb := by rw [set_frames, if_neg hb.symm]
  globals := rfl
  caches := rfl

/-- The same store with values in registers of a frame. -/
def fill (s : Store) (a : Nat) : List (Register × Value) → Store
  | [] => s
  | (r, v) :: rest => (s.set a r v).fill a rest

theorem fillsFrame_fill (s : Store) (a : Nat) (values : List (Register × Value)) :
    s.FillsFrame a (s.fill a values) := by
  induction values generalizing s with
  | nil => exact .refl s a
  | cons p values ih => exact (s.fillsFrame_set a p.1 p.2).trans (ih _)

theorem retains_fill (s : Store) (a : Nat) (values : List (Register × Value)) :
    s.Retains (s.fill a values) := by
  induction values generalizing s with
  | nil => exact .refl s
  | cons p values ih => exact (s.retains_set a p.1 p.2).trans (ih _)

theorem register?_fill_of_ne {values : List (Register × Value)} (h : ∀ p ∈ values, i ≠ p.1) :
    (s.fill a values).register? a i = s.register? a i := by
  induction values generalizing s with
  | nil => rfl
  | cons p values ih =>
    obtain ⟨hp, hrest⟩ := List.forall_mem_cons.mp h
    rw [fill, ih hrest, register?_set_of_ne (.inr hp)]

/-- A register that is filled holds its value, if there is only one for it. -/
theorem register?_fill {values : List (Register × Value)} {r : Register} {v : Value}
    (hs : (s.register? a r).isSome) (h : (r, v) ∈ values) (hv : ∀ w, (r, w) ∈ values → w = v) :
    (s.fill a values).register? a r = some v := by
  induction values generalizing s with
  | nil => cases h
  | cons p values ih =>
    obtain ⟨q, w⟩ := p
    rw [fill]
    by_cases hmem : ∃ w, (r, w) ∈ values
    · obtain ⟨w', hw'⟩ := hmem
      obtain rfl := hv w' (List.mem_cons_of_mem _ hw')
      exact ih ((s.retains_set a q w).registers a r hs) hw'
        fun w hw => hv w (List.mem_cons_of_mem _ hw)
    · obtain heq | h := List.mem_cons.mp h
      · cases heq
        rw [register?_fill_of_ne fun p hp hrp => hmem ⟨p.2, ?_⟩, register?_set hs]
        rwa [Fin.ext hrp]
      · exact absurd ⟨v, h⟩ hmem

theorem fill_eq {values : List (Register × Value)}
    (h : ∀ p ∈ values, (s.register? a p.1).isSome) :
    Running.fill a values s = .ok () (s.fill a values) := by
  induction values generalizing s with
  | nil => rfl
  | cons p values ih =>
    obtain ⟨hp, hrest⟩ := List.forall_mem_cons.mp h
    rw [Running.fill, bind_of_ok (Running.setRegister_eq hp p.2)]
    exact ih fun q hq => (s.retains_set a p.1 p.2).registers a q.1 (hrest q hq)

theorem nextObject_fill (s : Store) (a : Nat) (values : List (Register × Value)) :
    (s.fill a values).nextObject = s.nextObject := by
  induction values generalizing s with
  | nil => rfl
  | cons p values ih => exact ih _

/-- The same store with a new list in a register of a frame. -/
def fillRest (s : Store) (a : Nat) : Option (Register × List Value) → Store
  | none => s
  | some (r, items) =>
    { s with nextObject := s.nextObject + items.length }.set a r (.listFrom s.nextObject .nil items)

theorem fillsFrame_fillRest (s : Store) (a : Nat) (rest : Option (Register × List Value)) :
    s.FillsFrame a (s.fillRest a rest) := by
  cases rest with
  | none => exact .refl s a
  | some p =>
    have hset := Store.fillsFrame_set { s with nextObject := s.nextObject + p.2.length } a p.1
      (.listFrom s.nextObject .nil p.2)
    exact ⟨hset.size, hset.closure, hset.others, rfl, rfl⟩

theorem fillRest_eq {rest : Option (Register × List Value)}
    (h : ∀ p ∈ rest, (s.register? a p.1).isSome) :
    Running.fillRest a rest s = .ok () (s.fillRest a rest) := by
  cases rest with
  | none => rfl
  | some p =>
    have hlist : Running.allocating (Allocating.list p.2) s =
        .ok (.listFrom s.nextObject .nil p.2)
          { s with nextObject := s.nextObject + p.2.length } := rfl
    rw [Running.fillRest, bind_of_ok hlist]
    exact Running.setRegister_eq (s := { s with nextObject := s.nextObject + p.2.length })
      (h p rfl) _

theorem register?_fillRest_of_ne {rest : Option (Register × List Value)}
    (h : ∀ p ∈ rest, i ≠ p.1) : (s.fillRest a rest).register? a i = s.register? a i := by
  cases rest with
  | none => rfl
  | some p => exact register?_set_of_ne (.inr (h p rfl)) _

theorem register?_fillRest {r : Register} {items : List Value}
    (hs : (s.register? a r).isSome) : (s.fillRest a (some (r, items))).register? a r =
      some (.listFrom s.nextObject .nil items) :=
  register?_set (s := { s with nextObject := s.nextObject + items.length }) hs _

theorem register?_enter_self {c : Closure} (h : i < c.template.frameSize) :
    (s.enter c).register? s.frames.size i = some .nil := by
  rw [register?, enter_frames, if_pos rfl, Option.bind_some, Array.getElem?_replicate, if_pos h]

end Store

section

variable {δ : Type} {F : Formals δ} {args : List Value} {c : Closure} {x : Dealing δ}

/-- A new frame, filled with what is dealt out. -/
def Store.begin (s : Store) (c : Closure) (x : Dealing δ) : Store :=
  ((s.enter c).fill s.frames.size x.values).fillRest s.frames.size x.rest

theorem Formals.Deals.registers_lt (hx : F.Deals args x) {bound : Nat} (hw : F.Within bound) :
    (∀ q ∈ F.assign args, q.1.register.val < bound) ∧ (∀ p ∈ x.values, p.1.val < bound) ∧
      ∀ p ∈ x.rest, p.1.val < bound := by
  have hassign (q : Formal δ × Option Value) (hq : q ∈ F.assign args) :
      q.1.register.val < bound := by
    have hmem := List.mem_map_of_mem (f := Prod.fst) hq
    rw [Formals.assign_fst] at hmem
    exact (List.mem_append.mp hmem).elim (hw.positional _) (hw.keys _)
  refine ⟨hassign, fun p hp => ?_, fun p hp => ?_⟩
  · obtain ⟨formal, hmem, hr⟩ := Formals.mem_given.mp ((hx.values p).mp hp)
    exact hr ▸ hassign _ hmem
  · rw [hx.rest] at hp
    obtain ⟨r, hr, rfl⟩ := Option.map_eq_some_iff.mp hp
    exact hw.rest r hr

theorem Store.begins (hd : F.Distinct) (hw : F.Within c.template.frameSize)
    (hx : F.Deals args x) (s : Store) : s.Begins c F args (s.begin c x) := by
  obtain ⟨hassign, hvalues, hrest⟩ := hx.registers_lt hw
  set A := s.frames.size
  have hfills : (s.enter c).FillsFrame A (s.begin c x) :=
    (Store.fillsFrame_fill _ _ _).trans (Store.fillsFrame_fillRest _ _ _)
  have hretains := Store.retains_fill (s.enter c) A x.values
  refine ⟨fun b hb => ?_, ?_, ?_, hfills.globals, hfills.caches, fun q hq => ?_, fun r hr => ?_⟩
  · rw [hfills.others b (Nat.ne_of_lt hb), Store.enter_frames, if_neg (Nat.ne_of_lt hb)]
  · rw [hfills.size]
    exact Array.size_push _
  · rw [hfills.closure, Store.enter_frames, if_pos rfl]
    rfl
  · have hregister : (s.enter c).register? A q.1.register = some .nil :=
      Store.register?_enter_self (hassign q hq)
    have hne : ∀ p ∈ x.rest, q.1.register.val ≠ p.1 := fun p hp heq => by
      rw [hx.rest] at hp
      obtain ⟨r, hr, rfl⟩ := Option.map_eq_some_iff.mp hp
      exact hd.rest_ne hq hr (Fin.ext heq)
    rw [Store.begin, Store.register?_fillRest_of_ne hne]
    obtain ⟨p, v⟩ := q
    -- what goes into the register was assigned to its parameter
    have hassigned {u : Value} (hu : (p.register, u) ∈ x.values) : some u = v := by
      obtain ⟨p', hp', hr⟩ := Formals.mem_given.mp ((hx.values _).mp hu)
      exact congrArg Prod.snd (hd.assign_unique hp' hq hr)
    cases v with
    | some v =>
      refine Store.register?_fill (hregister ▸ rfl) ((hx.values _).mpr ?_) fun u hu =>
        Option.some.inj (hassigned hu)
      exact Formals.mem_given.mpr ⟨p, hq, rfl⟩
    | none =>
      rw [Store.register?_fill_of_ne, hregister]
      · rfl
      · rintro ⟨r, u⟩ hu heq
        obtain rfl : p.register = r := Fin.ext heq
        cases hassigned hu
  · have hxrest : x.rest = some (r, F.extra args) := by
      rw [hx.rest, Option.mem_def.mp hr]
      rfl
    have hregister : ((s.enter c).register? A r).isSome := by
      rw [Store.register?_enter_self (hw.rest r hr)]
      rfl
    rw [Store.begin, hxrest, Store.register?_fillRest (hretains.registers _ _ hregister),
      Store.nextObject_fill]
    rfl

theorem Store.begin_eq (hw : F.Within c.template.frameSize) (hx : F.Deals args x) (s : Store) :
    Running.fill s.frames.size x.values (s.enter c) =
        .ok () ((s.enter c).fill s.frames.size x.values) ∧
      Running.fillRest s.frames.size x.rest ((s.enter c).fill s.frames.size x.values) =
        .ok () (s.begin c x) := by
  obtain ⟨-, hvalues, hrest⟩ := hx.registers_lt hw
  have hregister {i : Nat} (hi : i < c.template.frameSize) :
      ((s.enter c).register? s.frames.size i).isSome := by
    rw [Store.register?_enter_self hi]
    rfl
  refine ⟨Store.fill_eq fun p hp => hregister (hvalues p hp), Store.fillRest_eq fun p hp => ?_⟩
  exact (Store.retains_fill _ _ _).registers _ _ (hregister (hrest p hp))

end

/-- The evaluation of a default, for the register of its parameter: the store before it, its value
and the store that it leaves. -/
structure Evaluation where
  register : Register
  before : Store
  value : Value
  after : Store

/-- An evaluation leaves a register of a frame as it is. -/
def Evaluation.Keeps (e : Evaluation) (a i : Nat) : Prop :=
  e.after.register? a i = e.before.register? a i

/-- Defaults are evaluated one after the other, each by a call of a new closure inside an
activation, and the value goes into the register before the next one. -/
inductive Evaluations (run : Closure → Running Value) (a : Nat) :
    List (Register × Function) → Store → List Evaluation → Store → Prop
  | nil (s : Store) : Evaluations run a [] s [] s
  | cons {r : Register} {d : Function} {due : List (Register × Function)} {u : Template}
      {s t s' : Store} {v : Value} {es : List Evaluation} (template : d.template = .ok u)
      (value : run ⟨s.caches.size, u, some a⟩ s.addClosure = .ok v t)
      (more : Evaluations run a due (t.set a r v) es s') :
      Evaluations run a ((r, d) :: due) s (⟨r, s, v, t⟩ :: es) s'

/-- A default fails after the defaults in front of it are evaluated. -/
inductive EvaluationFails (run : Closure → Running Value) (a : Nat)
    (due : List (Register × Function)) (s : Store) (e : Failure) (t : Store) : Prop
  | intro {done later : List (Register × Function)} {r : Register} {d : Function} {u : Template}
      {es : List Evaluation} {s' : Store} (split : due = done ++ (r, d) :: later)
      (evaluated : Evaluations run a done s es s') (template : d.template = .ok u)
      (failure : run ⟨s'.caches.size, u, some a⟩ s'.addClosure = .error e t)

/-- A call of a new closure leaves the registers there. -/
theorem Retaining.addClosure_of_ok {act : Running Value} (h : Retaining act) {s t : Store}
    {v : Value} (hact : act s.addClosure = .ok v t) : s.Retains t :=
  ⟨((h.keeps s.addClosure).of_ok hact).1.registers⟩

namespace Evaluations

variable {run : Closure → Running Value} {a i : Nat} {due : List (Register × Function)}
  {s s' : Store} {es : List Evaluation}

/-- A register that is none of those with defaults, and that no evaluation changes. -/
theorem register?_eq (h : Evaluations run a due s es s') (hne : ∀ p ∈ due, i ≠ p.1.val)
    (hkeeps : ∀ e ∈ es, e.Keeps a i) : s'.register? a i = s.register? a i := by
  induction h with
  | nil => rfl
  | cons _ _ _ ih =>
    obtain ⟨hp, hne⟩ := List.forall_mem_cons.mp hne
    obtain ⟨hkept, hkeeps⟩ := List.forall_mem_cons.mp hkeeps
    rw [ih hne hkeeps, Store.register?_set_of_ne (.inr hp)]
    exact hkept

/-- A register holds the value of its default if no later evaluation changes it. -/
theorem register?_value (hrun : ∀ c, Retaining (run c)) (h : Evaluations run a due s es s')
    (hdue : due.Pairwise fun p q => p.1 ≠ q.1) (hs : ∀ p ∈ due, (s.register? a p.1).isSome)
    {before after : List Evaluation} {e : Evaluation} (hes : es = before ++ e :: after)
    (hkeeps : ∀ e' ∈ after, e'.Keeps a e.register) :
    s'.register? a e.register = some e.value := by
  induction h generalizing before with
  | nil => simp at hes
  | @cons r d due u s t s' v es _ hvalue hmore ih =>
    obtain ⟨hne, hdue⟩ := List.pairwise_cons.mp hdue
    obtain ⟨hr, hs⟩ := List.forall_mem_cons.mp hs
    have hretains := Retaining.addClosure_of_ok (hrun _) hvalue
    cases before with
    | nil =>
      obtain ⟨rfl, rfl⟩ := List.cons.inj hes
      rw [hmore.register?_eq (fun p hp heq => hne p hp (Fin.ext heq)) hkeeps]
      exact Store.register?_set (hretains.registers a r hr) v
    | cons e' before =>
      refine ih hdue (fun p hp => ?_) (List.cons.inj hes).2
      exact (hretains.trans (t.retains_set a r v)).registers a p.1 (hs p hp)

end Evaluations

namespace Running

variable {run : Closure → Running Value} {f : Function} {outer : List Scope}

/-- The machine evaluates the defaults that are due, unless one fails. -/
theorem fillDefaults_cases (hrun : ∀ c, Retaining (run c)) (here : Activation)
    {due : List (Register × Function)} {indices : List (Register × Nat)}
    (h : List.Forall₂ (fun a b => b.1 = a.1 ∧
      f.DefaultAt outer here.closure.template.literals b.2 a.2) due indices) {s : Store}
    (hs : ∀ p ∈ due, (s.register? here.address p.1).isSome) :
    (∃ es t, Evaluations run here.address due s es t ∧
      fillDefaults run here indices s = .ok () t) ∨
    ∃ e t, EvaluationFails run here.address due s e t ∧
      fillDefaults run here indices s = .error e t := by
  induction h generalizing s with
  | nil => exact .inl ⟨[], s, .nil s, rfl⟩
  | @cons p q due indices hpq _ ih =>
    obtain ⟨r, d⟩ := p
    obtain ⟨r', index⟩ := q
    obtain ⟨rfl, ⟨u, hu, hd⟩, -⟩ := hpq
    obtain ⟨hr, hs⟩ := List.forall_mem_cons.mp hs
    have hnested : ofExcept ((here.closure.template.nested index).mapError .fault) s = .ok u s := by
      rw [Template.nested, hu]
      rfl
    have hclosure : newClosure u (some here.address) s =
        .ok ⟨s.caches.size, u, some here.address⟩ s.addClosure := rfl
    rw [fillDefaults, bind_of_ok hnested, bind_of_ok hclosure]
    cases hv : run ⟨s.caches.size, u, some here.address⟩ s.addClosure with
    | error e t =>
      refine .inr ⟨e, t, .intro (List.nil_append _).symm (.nil s) hd hv, ?_⟩
      rw [bind_of_error hv]
    | ok v t =>
      have hretains := Retaining.addClosure_of_ok (hrun _) hv
      rw [bind_of_ok hv, bind_of_ok (setRegister_eq (hretains.registers _ _ hr) v)]
      have hset := hretains.trans (t.retains_set here.address r' v)
      obtain ⟨es, t', hes, heq⟩ | ⟨e, t', hfails, heq⟩ :=
        ih fun p hp => hset.registers _ _ (hs p hp)
      · exact .inl ⟨_, t', .cons hd hv hes, heq⟩
      · obtain ⟨rfl, hevaluated, htemplate, hfailure⟩ := hfails
        exact .inr ⟨e, t', .intro (List.cons_append ..).symm (.cons hd hv hevaluated) htemplate
          hfailure, heq⟩

end Running

end RegisterScheme
