import RegisterScheme.Program
import RegisterScheme.Proofs.Correctness.Execution

/-! No broken invariant is ever met: neither while a text becomes a template, nor when the template
runs, nor in later calls of the closures that it leaves behind. -/

namespace RegisterScheme

/-- A template whose code refers only to what there is: to registers of its frames, to literals and
variables of the right kinds, and to registers of the templates around it. Control stays on its
lines. Arguments go to registers of its frames, and there is a mark for every key parameter. The
same holds of the templates inside. -/
inductive Template.Sound : Template → List Template → Prop
  | intro {t : Template} {around : List Template} (fits : Code.Fits t.code 0 t.room)
      (closed : Code.Closed t.code)
      (captured : ∀ v ∈ t.slots, ∀ distance r, v.kind = .captured distance r →
        ∃ u, around[distance - 1]? = some u ∧ r.val < u.frameSize)
      (defaults : ∀ v ∈ t.slots, ∀ index ∈ v.initializer, t.room.Nested index)
      (formals : t.formals.Within t.frameSize)
      (marks : (t.parameters .key).length ≤ t.keys)
      (nested : ∀ (i : Nat) u, t.literals[i]? = some (.template u) → Template.Sound u (t :: around)) :
      Template.Sound t around

/-- Templates are smaller than those that have them as literals. -/
theorem Template.sizeOf_literal_lt {t u : Template} {i : Nat}
    (h : t.literals[i]? = some (.template u)) : sizeOf u < sizeOf t := by
  have hmem := List.sizeOf_lt_of_mem (List.mem_of_getElem? h)
  have hliteral : sizeOf (Literal.template u) = 1 + sizeOf u := rfl
  cases t
  simp only [Template.mk.sizeOf_spec]
  dsimp only at hmem
  omega

/-- Templates around another, by the scopes of their procedures. -/
def Template.HoldScope (u : Template) (o : Scope) : Prop := o.Valid ∧ o.registers ≤ u.frameSize

theorem Function.Scoped.captures {f : Function} {outer : List Scope} (h : f.Scoped outer) :
    f.scope.Captures outer := by
  cases h with
  | intro _ captures => exact captures

theorem Template.Renders.captured {t : Template} {f : Function} {outer : List Scope}
    {around : List Template} (h : t.Renders f outer) (hf : f.Scoped outer)
    (ha : List.Forall₂ Template.HoldScope around outer) {v : Variable} (hv : v ∈ t.slots)
    {distance : Nat} {r : Register} (hk : v.kind = .captured distance r) :
    ∃ u, around[distance - 1]? = some u ∧ r.val < u.frameSize := by
  have hmem : VariableKind.captured distance r ∈ t.slots.map Variable.kind :=
    hk ▸ List.mem_map_of_mem hv
  rw [h.kinds] at hmem
  obtain ⟨b, hb, hkind⟩ := List.mem_map.mp hmem
  obtain ⟨k, hbk⟩ := hf.valid.kinds b hb
  rw [Binding.variableKind, hbk] at hkind
  subst hkind
  have hb' : ⟨b.name, .variable (.captured distance r)⟩ ∈ f.scope.bindings := hbk ▸ hb
  obtain ⟨d, o, rfl, ho, hholds⟩ := hf.captures b.name distance r hb'
  obtain ⟨u, hu, hvalid, hsize⟩ := forall₂_getElem? ha.flip ho
  exact ⟨u, hu, Nat.lt_of_lt_of_le (hvalid.holds_lt hholds) hsize⟩

/-- The template of a scoped procedure is sound, with all templates inside it. -/
theorem Template.Renders.sound {t : Template} {f : Function} {outer : List Scope}
    {around : List Template} (hf : f.Scoped outer) (h : t.Renders f outer)
    (ha : List.Forall₂ Template.HoldScope around outer) : t.Sound around := by
  refine .intro h.fits h.closed (fun v hv distance r hk => h.captured hf ha hv hk) h.defaults
    (h.within.mono h.tempBase_le) h.marks fun i u hu => ?_
  obtain ⟨g, hg, htemplate⟩ := h.nested i u hu
  have hsize : f.scope.registers ≤ t.frameSize := h.tempBase ▸ h.tempBase_le
  have hlt := Template.sizeOf_literal_lt hu
  exact (hg.renders htemplate).sound hg (.cons ⟨hf.valid, hsize⟩ ha)
termination_by sizeOf t

namespace Program

variable {options : ReadOptions} {primitives : Primitives} {first : Nat} {origin text : String}

theorem isError_malformedFailure {α : Type} {r : Except Malformed α} {e : Failure}
    (h : malformedFailure r = .error e) : e.IsError := by
  cases r with
  | ok a => cases h
  | error m =>
    cases h
    trivial

/-- A program is the template of what its text resolves to. -/
theorem ofText_eq_ok {p : Program}
    (h : Program.ofText options primitives first origin text = .ok p) :
    ∃ forms f next, Sexpr.ofText options origin text = .ok forms ∧
      Function.ofProgram primitives first forms = .ok (f, next) ∧ f.template = .ok p.template := by
  obtain ⟨⟨f, next⟩, hprogram, hrest⟩ := ok_of_bind h
  obtain ⟨forms, hforms, hf⟩ := ok_of_bind hprogram
  obtain ⟨t, ht, hp⟩ := ok_of_bind hrest
  cases hp
  exact ⟨forms, f, next, hforms, hf, ht⟩

/-- A text that is not a program is refused with an error. -/
theorem isError_ofText {e : Failure}
    (h : Program.ofText options primitives first origin text = .error e) : e.IsError := by
  rcases error_of_bind h with hprogram | ⟨⟨f, next⟩, hprogram, hrest⟩
  · rcases error_of_bind hprogram with hforms | ⟨forms, -, hf⟩
    · exact isError_malformedFailure hforms
    · have hscoped := Function.ofProgram_scoped primitives first forms
      rw [hf] at hscoped
      exact hscoped
  · obtain ⟨forms, -, hf⟩ := ok_of_bind hprogram
    have hscoped := Function.ofProgram_scoped primitives first forms
    rw [hf] at hscoped
    rcases error_of_bind hrest with ht | ⟨t, -, hp⟩
    · exact hscoped.template_error ht
    · cases hp

end Program

namespace Machine

variable {m : Machine} {N : Nat → Prop} {s : Store} {w : World}

theorem Earns.ne_fault {e : Failure} (h : m.Earns e) (fault : Fault) : e ≠ .fault fault := by
  rintro rfl
  exact h.elim (fun h => h) fun h => nomatch h.1

theorem execute_ne_fault (hm : m.host.Trusted N) (hs : s.Reached N w) {f : Function}
    {t : Template} (hf : f.Scoped []) (ht : f.template = .ok t) (fault : Fault) :
    answer (m.execute t s) ≠ .error (.fault fault) := by
  intro h
  cases hrun : m.execute t s with
  | ok v s' =>
    rw [hrun] at h
    cases h
  | error e s' =>
    rw [hrun] at h
    have hearns := (execute_simulates hm hs.agrees hf ht).earns hrun
    exact hearns.ne_fault fault (Except.error.inj h)

theorem apply_ne_fault (hm : m.host.Trusted N) (hs : s.Reached N w) {callee : Value}
    {args : List Value} (hcallee : callee.BuiltFrom w.Known N)
    (hargs : ∀ v ∈ args, v.BuiltFrom w.Known N) (fault : Fault) :
    answer (m.apply callee args s) ≠ .error (.fault fault) := by
  intro h
  cases hrun : m.apply callee args s with
  | ok v s' =>
    rw [hrun] at h
    cases h
  | error e s' =>
    rw [hrun] at h
    have hearns := (apply_simulates hm hs.agrees hcallee hargs).earns hrun
    exact hearns.ne_fault fault (Except.error.inj h)

end Machine

/-- A text either is refused with an error or becomes a sound template. Neither that nor any
closure that there is after it ran meets a broken invariant, on any machine and over any globals. -/
theorem Program.ofText_sound (options : ReadOptions) (primitives : Primitives) (first : Nat)
    (origin text : String) :
    match Program.ofText options primitives first origin text with
    | .error e => e.IsError
    | .ok p => p.template.Sound [] ∧
      ∀ (m : Machine) (N : Nat → Prop) (s : Store) (w : World), m.host.Trusted N →
        s.Reached N w →
          (∀ fault, answer (m.execute p.template s) ≠ .error (.fault fault)) ∧
          (∃ w', (remains (m.execute p.template s)).Reached N w') ∧
          ∀ callee args, callee.BuiltFrom w.Known N → (∀ v ∈ args, v.BuiltFrom w.Known N) →
            ∀ fault, answer (m.apply callee args s) ≠ .error (.fault fault) := by
  cases h : Program.ofText options primitives first origin text with
  | error e => exact Program.isError_ofText h
  | ok p =>
    obtain ⟨forms, f, next, -, hf, ht⟩ := Program.ofText_eq_ok h
    have hscoped := Function.ofProgram_ok hf
    refine ⟨(hscoped.renders ht).sound hscoped .nil, fun m N s w hm hs => ⟨fun fault => ?_,
      ⟨_, hs.execute hm hf ht⟩, fun callee args hcallee hargs fault => ?_⟩⟩
    · exact Machine.execute_ne_fault hm hs hscoped ht fault
    · exact Machine.apply_ne_fault hm hs hcallee hargs fault

end RegisterScheme
