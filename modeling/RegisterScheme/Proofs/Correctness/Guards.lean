import RegisterScheme.Proofs.Correctness.Termination
import RegisterScheme.Proofs.Generation.Guards

/-! Tests keep their jumps in all templates of a program. -/

namespace RegisterScheme

/-- Every template inside that of a procedure is the template of a procedure. -/
theorem Template.Contains.compiled {t u : Template} (hu : t.Contains u) {f : Function}
    {outer : List Scope} (hf : f.Scoped outer) (ht : f.template = .ok t) :
    ∃ scopes, u.CompiledIn scopes := by
  induction hu generalizing f outer with
  | self => exact ⟨outer, f, hf, ht⟩
  | literal hl _ ih =>
    obtain ⟨g, hg, htemplate⟩ := (hf.renders ht).nested _ _ hl
    exact ih hg htemplate

theorem Template.contains_nested {t u : Template} {index : Nat} (h : t.nested index = .ok u) :
    t.Contains u := by
  unfold nested at h
  split at h
  · rename_i hl
    cases h
    exact .literal hl (.self _)
  · cases h
  · cases h

/-- In every template of a resolved program, those of procedures and defaults included, each test
and comparison is followed by a jump. No jump and no boolean that skips a line leads to such a jump
or out of the code, jumps never lead back, and the last line is the only return. -/
theorem Function.ofProgram_guarded {primitives : Primitives} {first next : Nat}
    {forms : List Sexpr} {f : Function} {t u : Template}
    (hf : Function.ofProgram primitives first forms = .ok (f, next)) (ht : f.template = .ok t)
    (hu : t.Contains u) : Code.Guarded u.code := by
  obtain ⟨scopes, g, -, htemplate⟩ := hu.compiled (Function.ofProgram_ok hf) ht
  exact Function.template_guarded htemplate

/-- `(lambda (x) (cond ((< 0 x 9)) ((if x (and x 1) 2) 3)))` -/
def choosingForms : List Sexpr :=
  let form (items : List Sexpr) : Sexpr := .list items none
  let name (s : String) : Sexpr := .identifier s none
  let digit (n : Int64) : Sexpr := .literal (.integer n) none
  [form [name "lambda", form [name "x"], form [name "cond",
    form [form [name "<", digit 0, name "x", digit 9]],
    form [form [name "if", name "x", form [name "and", name "x", digit 1], digit 2], digit 3]]]]

/-- The procedure of these forms, with tests of all kinds in its 21 lines. -/
theorem Function.ofProgram_guarded_choosing : ∃ f next t u,
    Function.ofProgram .standard 0 choosingForms = .ok (f, next) ∧ f.template = .ok t ∧
      t.Contains u ∧ u.code.length = 21 ∧ Code.Guarded u.code := by
  have hlength : ((Function.ofProgram .standard 0 choosingForms).toOption.bind fun p =>
      p.1.template.toOption.bind fun t => (t.nested 0).toOption.map (·.code.length)) = some 21 := by
    decide +kernel
  obtain ⟨⟨f, next⟩, hf, hlength⟩ := Option.bind_eq_some_iff.mp hlength
  obtain ⟨t, ht, hlength⟩ := Option.bind_eq_some_iff.mp hlength
  obtain ⟨u, hu, hlength⟩ := Option.map_eq_some_iff.mp hlength
  have hcontains := Template.contains_nested (ok_of_toOption hu)
  have hf := ok_of_toOption hf
  have ht := ok_of_toOption ht
  exact ⟨f, next, t, u, hf, ht, hcontains, hlength, ofProgram_guarded hf ht hcontains⟩

end RegisterScheme
