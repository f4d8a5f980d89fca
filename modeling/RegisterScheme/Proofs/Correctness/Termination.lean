import RegisterScheme.Proofs.Correctness.Safety
import RegisterScheme.Proofs.Machine.Loop

/-! Every run under a call limit ends. The loop, which may jump anywhere and has nothing but the
limit to stop it, does what the machine does, and the lines that an activation comes by ascend. -/

namespace RegisterScheme

open Filter

namespace Running

/-- The lines that the loop comes by in one activation, from a line on, or the first of them. -/
inductive Visits (caching : Bool) (call : Value → List Value → Running Value) (here : Activation) :
    Int → Store → List Int → Prop
  | none (line : Int) (s : Store) : Visits caching call here line s []
  /-- The turn may end the activation, with a value or a failure. -/
  | last {line : Int} {s : Store} {l : Line} (at_line : here.closure.template.line? line = some l) :
      Visits caching call here line s [line]
  | go {line next : Int} {s s' : Store} {l : Line} {lines : List Int}
      (at_line : here.closure.template.line? line = some l)
      (goes : located l.location (turn caching call here line l.instruction) s = .ok (.goto next) s')
      (rest : Visits caching call here next s' lines) :
      Visits caching call here line s (line :: lines)

variable {caching : Bool} {call : Value → List Value → Running Value} {here : Activation}
  {line next : Int} {s s' : Store} {lines : List Int}

/-- Code whose jumps lead forward. -/
def Forward (code : List Line) : Prop :=
  ∀ l ∈ code, l.instruction.opcode = .jump → 0 ≤ l.instruction.displacement

theorem located_eq_ok {α : Type} {place : Option Location} {x : Running α} {a : α}
    (h : located place x s = .ok a s') : x s = .ok a s' := by
  cases hx : x s with
  | ok b t =>
    rw [located, tryCatch_of_ok hx] at h
    exact h
  | error e t =>
    rw [located, tryCatch_of_error hx] at h
    cases h

/-- A turn goes on further down. -/
theorem turn_ascends {i : Instruction} (hi : i.opcode = .jump → 0 ≤ i.displacement)
    (h : turn caching call here line i s = .ok (.goto next) s') : line < next := by
  unfold turn at h
  by_cases ho : i.opcode = .jump
  · rw [if_pos ho] at h
    cases h
    have := hi ho
    omega
  · rw [if_neg ho] at h
    obtain ⟨k, t, -, hk⟩ := answers_of_bind h
    cases k with
    | done v => cases hk
    | skip lines =>
      cases hk
      omega

theorem line?_eq_some {t : Template} {l : Line} (h : t.line? line = some l) :
    0 ≤ line ∧ line < t.code.length ∧ l ∈ t.code := by
  unfold Template.line? at h
  split at h
  · cases h
  · rename_i hline
    obtain ⟨hlt, -⟩ := List.getElem?_eq_some_iff.mp h
    exact ⟨Int.not_lt.mp hline, by omega, List.mem_of_getElem? h⟩

/-- Each line comes after those before, so none comes twice. -/
theorem Visits.ascending (h : Visits caching call here line s lines)
    (hf : Forward here.closure.template.code) :
    (∀ l ∈ lines, line ≤ l ∧ 0 ≤ l ∧ l < here.closure.template.code.length) ∧
      lines.Pairwise (· < ·) := by
  induction h with
  | none => exact ⟨by simp, .nil⟩
  | last hat =>
    obtain ⟨hfirst, hlast, -⟩ := line?_eq_some hat
    exact ⟨by simp [hfirst, hlast], List.pairwise_singleton _ _⟩
  | @go line next s s' l lines hat hgoes _ ih =>
    obtain ⟨hfirst, hlast, hmem⟩ := line?_eq_some hat
    obtain ⟨hlines, hascending⟩ := ih
    have hnext := turn_ascends (hf l hmem) (located_eq_ok hgoes)
    refine ⟨List.forall_mem_cons.mpr ⟨⟨Int.le_refl line, hfirst, hlast⟩, fun l' hl' => ?_⟩,
      List.pairwise_cons.mpr ⟨fun l' hl' => ?_, hascending⟩⟩
    · obtain ⟨hle, hbounds⟩ := hlines l' hl'
      exact ⟨Int.le_trans (Int.le_of_lt hnext) hle, hbounds⟩
    · exact Int.lt_of_lt_of_le hnext (hlines l' hl').1

end Running

/-- A template lies in another, at any depth. -/
inductive Template.Contains : Template → Template → Prop
  | self (t : Template) : Template.Contains t t
  | literal {t u v : Template} {i : Nat} (literal : t.literals[i]? = some (.template u))
      (inside : Template.Contains u v) : Template.Contains t v

theorem Template.Sound.forward {t u : Template} {around : List Template} (h : t.Sound around)
    (hu : t.Contains u) : Running.Forward u.code := by
  induction hu generalizing around with
  | self =>
    cases h with
    | intro fits => exact fun l hl => (fits.lines l hl).forward
  | literal hl _ ih =>
    cases h with
    | intro _ _ _ _ _ _ nested => exact ih (nested _ _ hl)

namespace Machine

variable {m : Machine} {N : Nat → Prop} {s : Store} {w : World}

/-- Under a limit no run is cut off. -/
theorem Earns.isError {limit : Nat} (hl : m.callLimit = some limit) {e : Failure}
    (h : m.Earns e) : e.IsError := by
  refine h.resolve_right ?_
  rintro ⟨-, hnone⟩
  rw [hl] at hnone
  cases hnone

theorem ended_of_simulates {α β : Type} {limit : Nat} (hl : m.callLimit = some limit)
    {K : Nat → Nat → Prop} {x : Evaluating α} {y : Running β} {Q : α → β → World → Store → Prop}
    (h : Simulates m N K w s x y Q) : Ended (y s) := by
  obtain ⟨a, w', b, s', -, hy, -⟩ | ⟨e, w', s', -, hy, -, he⟩ := h.cases
  · rw [hy]
    trivial
  · rw [hy]
    exact he.isError hl

/-- Calling a procedure ends, and so do the loops that do the call. -/
theorem apply_ends {limit : Nat} (hl : m.callLimit = some limit) (hm : m.host.Trusted N)
    (hs : s.Reached N w) {callee : Value} {args : List Value} (hcallee : callee.BuiltFrom w.Known N)
    (hargs : ∀ v ∈ args, v.BuiltFrom w.Known N) :
    (∀ᶠ clock in atTop, m.loopApply clock callee args s = m.apply callee args s) ∧
      Ended (m.apply callee args s) := by
  have hended := ended_of_simulates hl (apply_simulates hm hs.agrees hcallee hargs)
  have hdepth : 0 + m.depth = limit := by rw [depth, hl, Option.getD_some, Nat.zero_add]
  exact ⟨applyWith_approaches (loopClosure_approaches hl hdepth) callee args s hended, hended⟩

/-- Running the template of a resolved program ends, and so do the loops that run it. -/
theorem execute_ends {limit : Nat} (hl : m.callLimit = some limit) (hm : m.host.Trusted N)
    (hs : s.Reached N w) {f : Function} {t : Template} (hf : f.Scoped [])
    (ht : f.template = .ok t) :
    (∀ᶠ clock in atTop, m.loopExecute clock t s = m.execute t s) ∧ Ended (m.execute t s) := by
  have hended := ended_of_simulates hl (execute_simulates hm hs.agrees hf ht)
  have hdepth : 0 + m.depth = limit := by rw [depth, hl, Option.getD_some, Nat.zero_add]
  have hloops : Approaches (fun clock => m.loopExecute clock t) (m.execute t) :=
    .bind (.const _) fun c => loopClosure_approaches hl hdepth c []
  exact ⟨hloops s hended, hended⟩

end Machine

/-- Under a call limit the template of a program runs to an end, as does every later call of a
procedure, and in no activation of its templates is a line come by twice. -/
theorem Program.ofText_ends {options : ReadOptions} {primitives : Primitives} {first : Nat}
    {origin text : String} {p : Program}
    (hp : Program.ofText options primitives first origin text = .ok p) {m : Machine} {limit : Nat}
    (hl : m.callLimit = some limit) {N : Nat → Prop} (hm : m.host.Trusted N) {s : Store} {w : World}
    (hs : s.Reached N w) :
    ((∀ᶠ clock in atTop, m.loopExecute clock p.template s = m.execute p.template s) ∧
      Ended (m.execute p.template s)) ∧
    (∀ callee args, callee.BuiltFrom w.Known N → (∀ v ∈ args, v.BuiltFrom w.Known N) →
      (∀ᶠ clock in atTop, m.loopApply clock callee args s = m.apply callee args s) ∧
        Ended (m.apply callee args s)) ∧
    ∀ t, p.template.Contains t → ∀ call here line s' lines, here.closure.template = t →
      Running.Visits m.caching call here line s' lines →
        lines.Pairwise (· < ·) ∧ ∀ l ∈ lines, 0 ≤ l ∧ l < t.code.length := by
  obtain ⟨forms, f, next, -, hf, ht⟩ := Program.ofText_eq_ok hp
  have hscoped := Function.ofProgram_ok hf
  have hsound := (hscoped.renders ht).sound hscoped .nil
  refine ⟨Machine.execute_ends hl hm hs hscoped ht, fun callee args hcallee hargs =>
    Machine.apply_ends hl hm hs hcallee hargs, ?_⟩
  rintro t hcontains call here line s' lines rfl hvisits
  obtain ⟨hlines, hascending⟩ := hvisits.ascending (hsound.forward hcontains)
  exact ⟨hascending, fun l hl => (hlines l hl).2⟩

/-- A procedure that only calls itself comes to an end at the limit. -/
theorem Program.ofText_ends_endlessCall : ∃ p,
    Program.ofText .standard .standard 0 "endless" "(define (call) (call)) (call)" = .ok p ∧
      let m := Machine.collecting (some 2)
      let s := Store.ofGlobals Machine.tupleGlobals
      (∀ᶠ clock in atTop, m.loopExecute clock p.template s = m.execute p.template s) ∧
        Ended (m.execute p.template s) := by
  have hok : (Program.ofText .standard .standard 0 "endless"
      "(define (call) (call)) (call)").isOk := by decide +kernel
  cases hp : Program.ofText .standard .standard 0 "endless" "(define (call) (call)) (call)" with
  | error e =>
    rw [hp] at hok
    cases hok
  | ok p =>
    have hm := Machine.collecting_trusted (some 2)
    exact ⟨p, rfl, (Program.ofText_ends hp rfl hm (.start Machine.tupleGlobals_withoutClosures)).1⟩

end RegisterScheme
