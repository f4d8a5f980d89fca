import RegisterScheme.Proofs.Correctness.Calls
import RegisterScheme.Proofs.Expr.Forms

/-! Whole programs, one after the other over the same globals. The machine and evaluation start from
globals without closures and do the same from then on. -/

namespace RegisterScheme

/-- The value or the failure that a computation ends with. -/
def answer {σ α : Type} : EStateM.Result Failure σ α → Except Failure α
  | .ok a _ => .ok a
  | .error e _ => .error e

/-- The state that a computation leaves behind. -/
def remains {σ α : Type} : EStateM.Result Failure σ α → σ
  | .ok _ s => s
  | .error _ s => s

def World.ofGlobals (g : Globals) : World := ⟨#[], g.find?, #[], 0⟩

/-- The globals are built from data and natives. -/
def Globals.WithoutClosures (g : Globals) (N : Nat → Prop) : Prop :=
  ∀ name v, g.find? name = some v → v.BuiltFrom (fun _ => False) N

theorem Store.agrees_ofGlobals {g : Globals} {N : Nat → Prop} (h : g.WithoutClosures N) :
    (Store.ofGlobals g).Agrees N (World.ofGlobals g) where
  valid := ⟨fun _ _ he => (nomatch he), fun _ _ _ he => (nomatch he),
    fun name v hv => (h name v hv).mono fun _ hc => hc.elim⟩
  frames_size := rfl
  frames _ _ he := nomatch he
  globals _ := rfl
  caches_size := rfl
  caches _ _ _ _ _ hk := nomatch hk
  nextObject := rfl

theorem Store.Agrees.define {s : Store} {w : World} {N : Nat → Prop} (h : s.Agrees N w)
    {v : Value} (hv : v.BuiltFrom w.Known N) (name : String) :
    Store.Agrees N { s with globals := s.globals.set name v } (w.setGlobal name v) :=
  (h.touch name).setGlobal (Globals.address?_touch s.globals name) hv

theorem Simulates.answer_eq {α : Type} {m : Machine} {N : Nat → Prop} {K : Nat → Nat → Prop}
    {w : World} {s : Store} {x : Evaluating α} {y : Running α}
    {Q : α → α → World → Store → Prop} (h : Simulates m N K w s x y Q)
    (hq : ∀ a b w' s', Q a b w' s' → b = a) :
    answer (y s) = answer (x w) ∧ (remains (y s)).Agrees N (remains (x w)) := by
  obtain ⟨a, w', b, s', hx, hy, hm, hQ⟩ | ⟨e, w', s', hx, hy, ha, -⟩ := h.cases
  · rw [hx, hy, hq a b w' s' hQ]
    exact ⟨rfl, hm.agrees⟩
  · rw [hx, hy]
    exact ⟨rfl, ha⟩

/-- The failure of a simulated computation is one that programs can have. -/
theorem Simulates.earns {α β : Type} {m : Machine} {N : Nat → Prop} {K : Nat → Nat → Prop}
    {w : World} {s s' : Store} {x : Evaluating α} {y : Running β} {e : Failure}
    {Q : α → β → World → Store → Prop} (h : Simulates m N K w s x y Q) (hy : y s = .error e s') :
    m.Earns e := by
  obtain ⟨a, w', b, s', -, hy', -⟩ | ⟨e', w', s', -, hy', -, he⟩ := h.cases
  · rw [hy] at hy'
    cases hy'
  · rw [hy] at hy'
    cases hy'
    exact he

theorem Function.ofProgram_ok {primitives : Primitives} {first next : Nat} {forms : List Sexpr}
    {f : Function} (h : Function.ofProgram primitives first forms = .ok (f, next)) :
    f.Scoped [] := by
  have hscoped := Function.ofProgram_scoped primitives first forms
  rwa [h] at hscoped

/-- The stores that runs leave behind, and what evaluation has instead, after any number of
programs, calls and definitions on any machines. Procedures are called with values made of data, of
natives that the host provides and of closures that there are. -/
inductive Store.Reached (N : Nat → Prop) : Store → World → Prop
  | start {g : Globals} (globals : g.WithoutClosures N) :
      Store.Reached N (.ofGlobals g) (.ofGlobals g)
  | quote {s : Store} {w : World} (before : s.Reached N w) (nextObject : Nat) :
      Store.Reached N { s with nextObject } { w with nextObject }
  | define {s : Store} {w : World} (before : s.Reached N w) (name : String) {v : Value}
      (value : v.BuiltFrom w.Known N) :
      Store.Reached N { s with globals := s.globals.set name v } (w.setGlobal name v)
  | execute {s : Store} {w : World} (before : s.Reached N w) {m : Machine}
      (trusted : m.host.Trusted N) {primitives : Primitives} {first next : Nat}
      {forms : List Sexpr} {f : Function} {t : Template}
      (program : Function.ofProgram primitives first forms = .ok (f, next))
      (template : f.template = .ok t) :
      Store.Reached N (remains (m.execute t s)) (remains (m.evaluate f w))
  | apply {s : Store} {w : World} (before : s.Reached N w) {m : Machine}
      (trusted : m.host.Trusted N) {callee : Value} {args : List Value}
      (procedure : callee.BuiltFrom w.Known N) (arguments : ∀ v ∈ args, v.BuiltFrom w.Known N) :
      Store.Reached N (remains (m.apply callee args s)) (remains (m.evaluateCall callee args w))

theorem Store.Reached.agrees {s : Store} {N : Nat → Prop} {w : World} (h : s.Reached N w) :
    s.Agrees N w := by
  induction h with
  | start hg => exact Store.agrees_ofGlobals hg
  | quote _ n ih => exact ih.withNextObject n
  | define _ name hv ih => exact ih.define hv name
  | execute _ hm hf ht ih =>
    exact ((Machine.execute_simulates hm ih (Function.ofProgram_ok hf) ht).answer_eq
      fun _ _ _ _ hq => hq.1).2
  | apply _ hm hcallee hargs ih =>
    exact ((Machine.apply_simulates hm ih hcallee hargs).answer_eq fun _ _ _ _ hq => hq.1).2

namespace Machine

variable {m : Machine} {N : Nat → Prop} {s : Store} {w : World}

/-- The template of a program does what the program means: on the machine it ends with the same
value or the same failure, and leaves the same values in all globals. -/
theorem execute_eq_evaluate (hm : m.host.Trusted N) (hs : s.Reached N w)
    {primitives : Primitives} {first next : Nat} {forms : List Sexpr} {f : Function}
    {t : Template} (hf : Function.ofProgram primitives first forms = .ok (f, next))
    (ht : f.template = .ok t) :
    answer (m.execute t s) = answer (m.evaluate f w) ∧
      ∀ name, (remains (m.execute t s)).globals.find? name =
        (remains (m.evaluate f w)).globals name := by
  have h := (execute_simulates hm hs.agrees (Function.ofProgram_ok hf) ht).answer_eq
    fun _ _ _ _ hq => hq.1
  exact ⟨h.1, h.2.globals⟩

/-- A machine whose natives all give their arguments as a list. -/
def collecting (callLimit : Option Nat) : Machine :=
  ⟨fun _ args => Allocating.list args, callLimit, true⟩

theorem collecting_trusted (callLimit : Option Nat) :
    (collecting callLimit).host.Trusted fun _ => True :=
  fun _ _ _ _ hargs => Allocating.gives_list hargs

/-- The only global is `tuple`, a native. -/
def tupleGlobals : Globals := ⟨#[("tuple", some (.native (.host 0 "tuple" .any)))]⟩

theorem tupleGlobals_withoutClosures : tupleGlobals.WithoutClosures fun _ => True := by
  intro name v hv
  obtain ⟨address, -, hread⟩ := Option.bind_eq_some_iff.mp hv
  obtain ⟨cell, hcell, hvalue⟩ := Option.bind_eq_some_iff.mp hread
  obtain rfl : cell = ("tuple", some (.native (.host 0 "tuple" .any))) :=
    List.mem_singleton.mp (Array.mem_toList_iff.mpr (Array.mem_of_getElem? hcell))
  cases hvalue
  trivial

/-- `((lambda (x) (set! y x) (tuple x (+ x 1))) 5)` -/
def tupleForms : List Sexpr :=
  let x : Sexpr := .identifier "x" none
  [.list [.list [.identifier "lambda" none, .list [x] none,
      .list [.identifier "set!" none, .identifier "y" none, x] none,
      .list [.identifier "tuple" none, x,
        .list [.identifier "+" none, x, .literal (.integer 1) none] none] none] none,
    .literal (.integer 5) none] none]

theorem tupleForms_template : ∃ f next t,
    Function.ofProgram .standard 0 tupleForms = .ok (f, next) ∧ f.template = .ok t := by
  have hok : (Function.ofProgram .standard 0 tupleForms >>= fun p => p.1.template).isOk := by
    decide +kernel
  obtain ⟨t, hok⟩ := ok_of_isOk hok
  obtain ⟨p, hf, ht⟩ := ok_of_bind hok
  exact ⟨p.1, p.2, t, hf, ht⟩

theorem execute_eq_evaluate_tupleForms : ∃ f next t,
    Function.ofProgram .standard 0 tupleForms = .ok (f, next) ∧ f.template = .ok t ∧
      let m := collecting (some 2)
      let start := m.execute t (.ofGlobals tupleGlobals)
      let meaning := m.evaluate f (.ofGlobals tupleGlobals)
      answer start = answer meaning ∧
        ∀ name, (remains start).globals.find? name = (remains meaning).globals name := by
  obtain ⟨f, next, t, hf, ht⟩ := tupleForms_template
  exact ⟨f, next, t, hf, ht, execute_eq_evaluate (collecting_trusted _)
    (.start tupleGlobals_withoutClosures) hf ht⟩

end Machine

end RegisterScheme
