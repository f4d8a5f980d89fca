import RegisterScheme.Proofs.Evaluation.Natives
import RegisterScheme.Proofs.Evaluation.Units
import RegisterScheme.Session

/-! Texts that are evaluated one after the other, and as the lines of one text. -/

namespace RegisterScheme

namespace Session

theorem ok_of_compile {s : Session} {origin text : String} {t : Template}
    (h : (s.compile origin text).1 = .ok t) : ∃ forms f next,
      Sexpr.ofText s.options origin text = .ok forms ∧
      Function.ofProgram s.primitives s.store.nextObject forms = .ok (f, next) ∧
      f.template = .ok t ∧
      s.compile origin text = (.ok t, { s with
        primitives := f.scope.shadowed.foldl Primitives.erase s.primitives
        store := { s.store with nextObject := next } }) := by
  unfold compile at h ⊢
  cases hp : Program.ofText s.options s.primitives s.store.nextObject origin text with
  | error e =>
    rw [hp] at h
    cases h
  | ok p =>
    obtain ⟨⟨f, next⟩, hf, hrest⟩ := ok_of_bind hp
    obtain ⟨template, ht, hrest⟩ := ok_of_bind hrest
    obtain ⟨forms, hforms, hf⟩ := ok_of_bind hf
    cases hrest
    rw [hp] at h
    cases h
    exact ⟨forms, f, next, hforms, hf, ht, rfl⟩

/-- What comes of a text is what its program means in a world that the store agrees with. -/
structure Evaluates (s : Session) (w : World) (text : String) (forms : List Sexpr) (f : Function)
    (next : Nat) : Prop where
  read : Sexpr.ofText s.options evaluationOrigin text = .ok forms
  program : Function.ofProgram s.primitives w.nextObject forms = .ok (f, next)
  template : ∃ t, f.template = .ok t
  result : (s.eval text).1 = answer (s.machine.evaluate f { w with nextObject := next })
  store : (s.eval text).2.store.Agrees (fun _ => False)
    (remains (s.machine.evaluate f { w with nextObject := next }))
  options : (s.eval text).2.options = s.options
  machine : (s.eval text).2.machine = s.machine
  primitives : (s.eval text).2.primitives = f.scope.shadowed.foldl Primitives.erase s.primitives

theorem execute_eq (s : Session) (t : Template) : s.execute t =
    (answer (s.machine.execute t s.store),
      { s with store := remains (s.machine.execute t s.store) }) := by
  unfold execute run
  cases s.machine.execute t s.store <;> rfl

theorem eval_eq {s s' : Session} {text : String} {t : Template}
    (h : s.compile evaluationOrigin text = (.ok t, s')) : s.eval text = s'.execute t := by
  rw [eval, h]

theorem evaluates {s : Session} {w : World} (hs : s.store.Agrees (fun _ => False) w) {text : String}
    (h : (s.compile evaluationOrigin text).1.isOk) :
    ∃ forms f next, s.Evaluates w text forms f next := by
  obtain ⟨t, h⟩ := ok_of_isOk h
  obtain ⟨forms, f, next, hforms, hf, ht, hcompile⟩ := ok_of_compile h
  have htrusted : s.machine.host.Trusted fun _ => False := fun _ hn => hn.elim
  obtain ⟨hresult, hstore⟩ := (Machine.execute_simulates htrusted (hs.withNextObject next)
    (Function.ofProgram_ok hf) ht).answer_eq fun _ _ _ _ hq => hq.1
  have heval := (eval_eq hcompile).trans (execute_eq _ t)
  exact ⟨forms, f, next, hforms, hs.nextObject ▸ hf, ⟨t, ht⟩, by rw [heval]; exact hresult,
    by rw [heval]; exact hstore, by rw [heval], by rw [heval], by rw [heval]⟩

theorem compile_isOk_of_eval {s : Session} {text : String} (h : (s.eval text).1.isOk) :
    (s.compile evaluationOrigin text).1.isOk := by
  unfold eval at h
  split at h
  · rename_i t s' hcompile
    rw [hcompile]
    rfl
  · cases h

theorem eq_ok_of_answer {σ α : Type} {r : EStateM.Result Failure σ α} {x : α}
    (h : answer r = .ok x) : r = .ok x (remains r) := by
  cases r with
  | ok y s =>
    cases h
    rfl
  | error e s => cases h

/-- Of the primitives that the second text mentions, the first makes none a global without defining
it. -/
def Separable (options : ReadOptions) (a b : String) : Prop :=
  match Sexpr.ofText options evaluationOrigin a, Sexpr.ofText options evaluationOrigin b with
  | .ok fs, .ok gs => ∀ name ∈ Sexpr.namesOfItems gs, (Primitives.standard.find? name).isSome →
      name ∈ (Outline.ofProgram .standard fs).globals →
      name ∈ (Outline.ofProgram .standard fs).defined
  | _, _ => True

instance (options : ReadOptions) (a b : String) : Decidable (Separable options a b) :=
  match hfs : Sexpr.ofText options evaluationOrigin a,
    hgs : Sexpr.ofText options evaluationOrigin b with
  | .ok fs, .ok gs => decidable_of_iff (∀ name ∈ Sexpr.namesOfItems gs,
      (Primitives.standard.find? name).isSome → name ∈ (Outline.ofProgram .standard fs).globals →
      name ∈ (Outline.ofProgram .standard fs).defined) (by simp only [Separable, hfs, hgs])
  | .ok _, .error _ => isTrue (by simp only [Separable, hfs, hgs])
  | .error _, _ => isTrue (by simp only [Separable, hfs])

/-- Sessions with stores of worlds that are alike. -/
def Alike (κ : Correspondence) (s s' : Session) : Prop :=
  ∃ w w', s.store.Agrees (fun _ => False) w ∧ s'.store.Agrees (fun _ => False) w' ∧
    w.Alike (fun _ => False) κ w'

theorem Alike.lookup {κ : Correspondence} {s s' : Session} (h : s.Alike κ s') (name : String) :
    Option.Rel (Value.Alike κ) (s.lookup name) (s'.lookup name) := by
  obtain ⟨w, w', hs, hs', hw⟩ := h
  rw [Session.lookup, Session.lookup, hs.globals, hs'.globals]
  exact hw.globals name

variable {options : ReadOptions} {machine : Machine} {a b : String}

theorem start_agrees (options : ReadOptions) (machine : Machine) :
    (start options machine).store.Agrees (fun _ => False) (World.ofGlobals .standard) := by
  refine Store.agrees_ofGlobals fun name v hv => ?_
  obtain ⟨n, rfl⟩ := Globals.native_of_find?_standard hv
  trivial

/-- Texts that are evaluated one after the other leave the same values in the globals as one text of
both, and the second has the value of the whole or fails as the whole does. Values are the same up to
the identities of their objects and closures. A text without forms has no value of its own. -/
theorem eval_units
    (hwhole : ((start options machine).compile evaluationOrigin (a ++ "\n" ++ b)).1.isOk)
    (hfirst : ((start options machine).eval a).1.isOk)
    (hsecond : (((start options machine).eval a).2.compile evaluationOrigin b).1.isOk)
    (hseparable : Separable options a b) :
    let whole := (start options machine).eval (a ++ "\n" ++ b)
    let second := ((start options machine).eval a).2.eval b
    ∃ κ : Correspondence, κ.OneToOne ∧ second.2.Alike κ whole.2 ∧
      (∀ name, Option.Rel (Value.Alike κ) (second.2.lookup name) (whole.2.lookup name)) ∧
      (Sexpr.ofText options evaluationOrigin b ≠ .ok [] →
        Agree (Value.Alike κ) second.1 whole.1) := by
  obtain ⟨hs, h, last, hh⟩ := evaluates (start_agrees options machine) hwhole
  obtain ⟨fs, f, next, hf⟩ := evaluates (start_agrees options machine) (compile_isOk_of_eval hfirst)
  obtain ⟨gs, g, next', hg⟩ := evaluates hf.store hsecond
  have hread : Sexpr.ofText options evaluationOrigin a = .ok fs := hf.read
  have hread' := hg.read
  have hprogram := hg.program
  have hresult := hg.result
  have hstore := hg.store
  rw [hf.options] at hread'
  rw [hf.primitives] at hprogram
  rw [hf.machine] at hresult hstore
  -- what the texts are resolved to
  obtain ⟨fs', gs', rfl, hfs, hgs⟩ := Sexpr.ofText_lines hread hread' hh.read
  replace hread' : Sexpr.ofText options evaluationOrigin b = .ok gs := hread'
  simp only [Separable, hread, hread'] at hseparable
  obtain ⟨es, es', ds, ds', m, n, hfes, hgds, hhes, hlength, hlength', hnext, rfl, rfl, hes,
    hds⟩ := Function.ofProgram_units hfs hgs hf.program hprogram hh.program hseparable
  obtain ⟨t, ht⟩ := hf.template
  obtain ⟨u, hu⟩ := hg.template
  obtain ⟨x, hx⟩ := hh.template
  obtain rfl : m = next := hnext.symm ▸ (Nat.zero_add m).symm
  obtain ⟨v, hv⟩ := ok_of_isOk hfirst
  have hvalue := eq_ok_of_answer (hf.result.symm.trans hv)
  obtain ⟨κ, hworlds, hanswers⟩ := Machine.evaluate_units
    (fun _ _ => Globals.native_of_find?_standard) hfes hgds hhes ht hu hx hes hds hvalue
  have halike : Alike κ (((start options machine).eval a).2.eval b).2
    ((start options machine).eval (a ++ "\n" ++ b)).2 := ⟨_, _, hstore, hh.store, hworlds⟩
  refine ⟨κ, hworlds.oneToOne, halike, halike.lookup, fun hforms => ?_⟩
  have hne : ds' ≠ [] := by
    rintro rfl
    obtain rfl : gs = [] := List.length_eq_zero_iff.mp hlength'.symm
    exact hforms hread'
  exact hresult ▸ hh.result ▸ hanswers hne

/-- A definition of an operator counts in both texts. -/
theorem eval_units_definition :
    let s := start .standard .standard
    let a := "(define car cdr)"
    let b := "(car '(1 2))"
    let whole := s.eval (a ++ "\n" ++ b)
    let second := (s.eval a).2.eval b
    ∃ κ : Correspondence, κ.OneToOne ∧ second.2.Alike κ whole.2 ∧
      (∀ name, Option.Rel (Value.Alike κ) (second.2.lookup name) (whole.2.lookup name)) ∧
      Agree (Value.Alike κ) second.1 whole.1 := by
  intro s a b whole second
  have hconditions : (s.compile evaluationOrigin (a ++ "\n" ++ b)).1.isOk ∧ (s.eval a).1.isOk ∧
      ((s.eval a).2.compile evaluationOrigin b).1.isOk ∧ Separable .standard a b ∧
      (Sexpr.ofText .standard evaluationOrigin b).toOption.map List.isEmpty = some false := by
    decide +kernel
  obtain ⟨hwhole, hfirst, hsecond, hseparable, hempty⟩ := hconditions
  have hforms : Sexpr.ofText .standard evaluationOrigin b ≠ .ok [] := by
    intro h
    rw [h] at hempty
    cases hempty
  obtain ⟨κ, hκ, hsessions, hglobals, hvalues⟩ := eval_units hwhole hfirst hsecond hseparable
  exact ⟨κ, hκ, hsessions, hglobals, hvalues hforms⟩

/-- An assignment of an operator counts in its own text alone. -/
theorem eval_assignment :
    let s := start .standard .standard
    let a := "(set! car cdr)"
    let b := "(car '(1 2))"
    let whole := s.eval (a ++ "\n" ++ b)
    let second := (s.eval a).2.eval b
    (s.compile evaluationOrigin (a ++ "\n" ++ b)).1.isOk ∧ (s.eval a).1.isOk ∧
      ((s.eval a).2.compile evaluationOrigin b).1.isOk ∧
      whole.1.toOption.map Value.text = some "(2)" ∧
      second.1.toOption.map Value.text = some "1" ∧
      ∀ κ : Correspondence, ¬ Agree (Value.Alike κ) second.1 whole.1 := by
  intro s a b whole second
  have houtcomes : (s.compile evaluationOrigin (a ++ "\n" ++ b)).1.isOk ∧ (s.eval a).1.isOk ∧
      ((s.eval a).2.compile evaluationOrigin b).1.isOk ∧
      whole.1.toOption.map Value.text = some "(2)" ∧
      second.1.toOption.map Value.text = some "1" := by
    decide +kernel
  obtain ⟨hwhole, hfirst, hsecond, htext, htext'⟩ := houtcomes
  refine ⟨hwhole, hfirst, hsecond, htext, htext', fun κ h => ?_⟩
  generalize whole.1 = x, second.1 = y at htext htext' h
  cases h with
  | error => cases htext
  | ok h =>
    have hsame : some "(2)" = some "1" :=
      htext.symm.trans ((congrArg some h.text_eq).trans htext')
    exact absurd hsame (by decide)

end Session

end RegisterScheme
