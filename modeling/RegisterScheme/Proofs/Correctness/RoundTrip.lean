import RegisterScheme.Proofs.Expr.Forms
import RegisterScheme.Proofs.Sexpr.Reading
import RegisterScheme.Proofs.Simulation.Fragment
import RegisterScheme.Proofs.Value.Datum

/-! Printed data reads back. The text of a value that is a datum is read as this datum, and a quote
mark in front of it makes a program whose value is an equal one. -/

namespace RegisterScheme

variable {d : Datum} {s : Sexpr} {place : Option Location} {primitives : Primitives} {first : Nat}

/-- A procedure without parameters that answers a quotation. -/
def Function.quotation (q : Quotation) (place : Option Location) : Function :=
  ⟨none, .none, .empty, .literal q place, place⟩

namespace Resolving

/-- A quotation takes new objects for its datum. -/
theorem expandWith_quote {expand : Expand} {c : ScopeChain}
    (hc : c.primitive? "quote" = some (.form .quote)) :
    expandWith expand (.list [.identifier "quote" place, s] place) c =
      .ok (.literal ⟨c.nextObject, s.toDatum⟩ place)
        { c with nextObject := c.nextObject + s.toDatum.objects } := by
  rw [expandWith_form hc]
  rfl

theorem program_quote (hq : primitives.find? "quote" = some (.form .quote)) :
    program [.list [.identifier "quote" place, s] place] (.start primitives first) =
      .ok (Function.quotation ⟨first, s.toDatum⟩ place)
        ⟨primitives, [], first + s.toDatum.objects⟩ := by
  have hbody (height : Nat) : sequence (expandWithin (height + 1))
      [.list [.identifier "quote" place, s] place] place ⟨primitives, [.empty], first⟩ =
        .ok (.literal ⟨first, s.toDatum⟩ place)
          ⟨primitives, [.empty], first + s.toDatum.objects⟩ :=
    expandWith_quote hq
  have hheight : Sexpr.heightOfItems [.list [.identifier "quote" place, s] place] =
      Sexpr.heightOfItems [.identifier "quote" place, s] + 1 :=
    Nat.max_zero _
  have hscope (height : Nat) : inScope (sequence (expandWithin (height + 1))
      [.list [.identifier "quote" place, s] place] place) (.start primitives first) =
        .ok (.literal ⟨first, s.toDatum⟩ place, .empty)
          ⟨primitives, [], first + s.toDatum.objects⟩ :=
    inScope_of_ok (c := .start primitives first)
      (d := ⟨primitives, [.empty], first + s.toDatum.objects⟩) (hbody height) rfl
  rw [program, hheight]
  exact bind_of_ok (hscope _)

end Resolving

/-- The program of a quotation. -/
theorem Function.ofProgram_quote (hq : primitives.find? "quote" = some (.form .quote)) :
    Function.ofProgram primitives first [.list [.identifier "quote" place, s] place] =
      .ok (.quotation ⟨first, s.toDatum⟩ place, first + s.toDatum.objects) := by
  rw [Function.ofProgram, Resolving.program_quote hq]

/-- Returns what the first register holds. -/
def Instruction.returning : Instruction := ⟨.return, .zero, ⟨1024, by decide⟩⟩

/-- The template that loads a value into its only register and returns it. -/
def Template.loading (load : Instruction) (literals : List (Literal Template))
    (place : Option Location) : Template :=
  ⟨none, [⟨load, place⟩, ⟨.returning, place⟩], literals, [], 0, 0, 0, none, 1, 0⟩

/-- What the instruction does that loads a value in such a template, over a store where the frame
has its register. -/
def Template.Loads (t : Template) (load : Instruction) (v : Value) : Prop :=
  ∀ caching call here s, here.closure.template = t → (s.register? here.address 0).isSome →
    Running.step caching call here load s = (do
      Running.setRegister here.address 0 v
      Running.proceed false : Running Continuation) s

/-- The template of a quotation, given the instruction that loads it. -/
theorem Function.template_of_loadQuotation {q : Quotation} {load : Instruction}
    {literals : Array (Literal Template)}
    (h : Lowering.loadQuotation 0 q place ⟨#[], [], none, 1, 1⟩ =
      .ok [⟨load, place⟩] ⟨literals, [], none, 1, 1⟩) :
    (Function.quotation q place).template =
      .ok (.loading load literals.toList place) := by
  have hallocate : Generating.allocate (.start 0) =
      .ok 0 (⟨#[], [], none, 1, 1⟩ : Builder) := rfl
  have htemporary : (Lowering.within 1).toTemporary .empty (.literal q place) (.start 0) =
      .ok ([⟨load, place⟩], 0) ⟨literals, [], none, 1, 1⟩ := by
    have hinto : (Lowering.within 1).into .empty 0 (.literal q place) ⟨#[], [], none, 1, 1⟩ =
        .ok [⟨load, place⟩] ⟨literals, [], none, 1, 1⟩ := h
    rw [Lowering.toTemporary, bind_of_ok hallocate, bind_of_ok hinto]
    rfl
  have hbody : (Lowering.within 1).procedureBody .empty (.quotation q place) (.start 0) =
      .ok [⟨load, place⟩, ⟨.returning, place⟩] ⟨literals, [], none, 1, 1⟩ :=
    bind_of_ok htemporary
  have hheight : (Function.quotation q place).height = 2 := by
    simp [Function.quotation, Function.height, Function.heightOfDefaults, Expr.height,
      Parameters.none]
  rw [Function.template, hheight]
  change Lowering.lowerFunction _ _ = _
  rw [Lowering.lowerFunction]
  split
  · rename_i hfailed
    cases hfailed.symm.trans ((bind_of_ok rfl).trans ((bind_of_ok rfl).trans (bind_of_ok hbody)))
  · rename_i hbuilt
    cases hbuilt.symm.trans ((bind_of_ok rfl).trans ((bind_of_ok rfl).trans (bind_of_ok hbody)))
    rfl

theorem Template.loads_constant {q : Quotation} {literals : List (Literal Template)}
    (h : literals[0]? = some (.quotation q)) :
    (Template.loading ⟨.loadConstant, 0, 0⟩ literals place).Loads ⟨.loadConstant, 0, 0⟩
      (.ofQuotation q) := by
  intro caching call here s ht _
  have hvalue : Running.literalValue here.closure.template 0 = pure (.ofQuotation q) := by
    rw [Running.literalValue, ht, Template.loading, h]
  change (do
    let v ← Running.literalValue here.closure.template 0
    Running.setRegister here.address 0 v
    Running.proceed false : Running Continuation) s = _
  rw [hvalue, pure_bind]

theorem Template.loads_nil {literals : List (Literal Template)} :
    (Template.loading ⟨.loadNil, 0, 0⟩ literals place).Loads ⟨.loadNil, 0, 0⟩ .nil := by
  intro caching call here s _ hregister
  have hcheck : Running.checkSlice here.address 0 1 s = .ok () s :=
    Running.checkSlice_eq hregister (Nat.zero_le _)
  change (do
    Running.checkSlice here.address 0 1
    Running.clear here.address 0 1
    Running.proceed false : Running Continuation) s = _
  rw [bind_of_ok hcheck, Running.clear, bind_assoc]
  rfl

theorem Generating.literal_empty (q : Quotation) :
    Generating.literal q ⟨#[], [], none, 1, 1⟩ = .ok 0 ⟨#[.quotation q], [], none, 1, 1⟩ := by
  have hget : (get : Generating Builder) ⟨#[], [], none, 1, 1⟩ =
      .ok ⟨#[], [], none, 1, 1⟩ ⟨#[], [], none, 1, 1⟩ := rfl
  rw [Generating.literal, bind_of_ok hget, Array.findIdx?_empty]
  rfl

/-- A quotation becomes a template that loads its value. -/
theorem Function.template_quotation (q : Quotation) (place : Option Location) :
    ∃ load literals, (Function.quotation q place).template = .ok (.loading load literals place) ∧
      (Template.loading load literals place).Loads load (.ofQuotation q) := by
  have hconstant (h : Lowering.loadQuotation 0 q place = (do
      Generating.emit place (Instruction.abx .loadConstant 0 (← Generating.literal q)))) :
      ∃ load literals, (Function.quotation q place).template =
          .ok (.loading load literals place) ∧
        (Template.loading load literals place).Loads load (.ofQuotation q) := by
    refine ⟨⟨.loadConstant, 0, 0⟩, [.quotation q], template_of_loadQuotation ?_,
      Template.loads_constant rfl⟩
    rw [h, bind_of_ok (Generating.literal_empty q)]
    rfl
  obtain ⟨first, d⟩ := q
  cases d with
  | atom a =>
    cases a with
    | nil => exact ⟨_, _, template_of_loadQuotation rfl, Template.loads_nil⟩
    | boolean b =>
      cases b with
      | false =>
        exact ⟨⟨.loadBoolean, 0, 0⟩, _, template_of_loadQuotation rfl, fun _ _ _ _ _ _ => rfl⟩
      | true =>
        exact ⟨⟨.loadBoolean, 0, 512⟩, _, template_of_loadQuotation rfl, fun _ _ _ _ _ _ => rfl⟩
    | _ => exact hconstant rfl
  | _ => exact hconstant rfl

/-- Running such a template gives the value, as long as one call may be active. -/
theorem Machine.execute_loading {m : Machine} (hm : 0 < m.depth) {load : Instruction}
    {literals : List (Literal Template)} {v : Value}
    (h : (Template.loading load literals place).Loads load v) (s : Store) :
    ∃ s', m.execute (.loading load literals place) s = .ok v s' := by
  obtain ⟨n, hn⟩ := Nat.exists_eq_succ_of_ne_zero (Nat.ne_of_gt hm)
  let c : Closure := ⟨s.caches.size, .loading load literals place, none⟩
  let here : Activation := ⟨s.frames.size, c⟩
  let s₁ : Store := { s with caches := s.caches.push .empty }
  let s₂ : Store := { s₁ with frames := s.frames.push ⟨c, Array.replicate 1 .nil⟩ }
  let s₃ : Store := s₂.set here.address 0 v
  have hclosure : Running.newClosure (.loading load literals place) none s = .ok c s₁ := rfl
  have hframe : Running.newFrame c s₁ = .ok here.address s₂ := rfl
  have hregister : (s₂.register? here.address 0).isSome := by
    simp [Store.register?, s₂, here]
  have hload (call) : Running.step m.caching call here load s₂ = .ok (.skip 0) s₃ := by
    rw [h _ _ here s₂ rfl hregister, bind_of_ok (Running.setRegister_eq hregister v)]
    rfl
  have hback (call) : Running.step m.caching call here .returning s₃ = .ok (.done v) s₃ :=
    bind_of_ok (Running.getRegister_eq (Store.register?_set hregister v))
  have hexec (call) : Running.exec m.caching call here c.template.code 0 s₂ = .ok v s₃ :=
    (bind_of_ok (Running.located_of_ok (hload call) place)).trans
      (bind_of_ok (Running.located_of_ok (hback call) place))
  have hbind (run) : Running.bindArguments run here [] s₂ = .ok () s₂ := rfl
  have hbody : (do
      let address ← Running.newFrame c
      Running.bindArguments (m.callClosure n · []) ⟨address, c⟩ []
      Running.exec m.caching (m.applyWith (m.callClosure n)) ⟨address, c⟩ c.template.code 0) s₁ =
        .ok v s₃ :=
    (bind_of_ok hframe).trans ((bind_of_ok (hbind _)).trans (hexec _))
  refine ⟨s₃, ?_⟩
  rw [execute, hn, bind_of_ok hclosure]
  exact tryCatch_of_ok hbody

variable {v : Value} {options : ReadOptions}

/-- The text of a value that is a datum is read as the datum, if it does not lie too deep for a
reader. Behind a quote mark, where it lies one deeper, it is a program that gives an equal value. -/
theorem Value.Shows.reads_back (hv : v.Shows d) (hd : d.Readable)
    (hdepth : d.depth < options.maxDepth) (origin : String) :
    (∃ s, Sexpr.ofText options origin v.text = .ok [s] ∧ s.toDatum = d ∧
      ∀ first, (ofDatum first s.toDatum).equal v) ∧
    (d.depth + 1 < options.maxDepth → ∀ primitives : Primitives,
      primitives.find? "quote" = some (.form .quote) → ∀ first,
        ∃ p, Program.ofText options primitives first origin ("'" ++ v.text) = .ok p ∧
          ∀ (m : Machine) (s : Store), 0 < m.depth →
            ∃ u s', m.execute p.template s = .ok u s' ∧ u.Shows d ∧ u.equal v) := by
  rw [hv.text_eq]
  refine ⟨?_, fun hquoted primitives hq first => ?_⟩
  · obtain ⟨s, hs, rfl⟩ := Sexpr.ofText_text hd hdepth origin
    exact ⟨s, hs, rfl, fun first => (shows_ofDatum first s.toDatum).equal hv hd⟩
  · obtain ⟨s, place, hs, rfl⟩ := Sexpr.ofText_quoted hd hquoted origin
    obtain ⟨load, literals, htemplate, hloads⟩ :=
      Function.template_quotation ⟨first, s.toDatum⟩ place
    refine ⟨⟨.loading load literals place, [], first + s.toDatum.objects⟩, ?_, ?_⟩
    · rw [Program.ofText, Function.ofText, hs]
      change (Function.ofProgram primitives first _ >>= fun _ => _) = _
      rw [Function.ofProgram_quote hq]
      change (Function.template _ >>= fun _ => _) = _
      rw [htemplate]
      rfl
    · intro m store hm
      obtain ⟨store', hrun⟩ := Machine.execute_loading hm hloads store
      have hshows : (ofQuotation ⟨first, s.toDatum⟩).Shows s.toDatum := shows_ofDatum _ _
      exact ⟨_, store', hrun, hshows, hshows.equal hv hd⟩

/-- A list of a symbol, a vector of a string, a keyword, and a character behind the dot. -/
def Value.mixedList : Value :=
  .pair 0 (.atom (.symbol "x")) (.pair 1 (.vector 2 [.atom (.string "\"")])
    (.pair 3 (.atom (.symbol ":k")) (.atom (.character ' '))))

theorem Value.Shows.reads_back_mixedList : ∃ d, Value.mixedList.Shows d ∧
    (∃ s, Sexpr.ofText .standard "data" Value.mixedList.text = .ok [s] ∧ s.toDatum = d ∧
      ∀ first, (ofDatum first s.toDatum).equal Value.mixedList) ∧
    ∃ p, Program.ofText .standard .standard 0 "data" ("'" ++ Value.mixedList.text) = .ok p ∧
      ∀ (m : Machine) (s : Store), 0 < m.depth →
        ∃ u s', m.execute p.template s = .ok u s' ∧ u.Shows d ∧ u.equal Value.mixedList := by
  let d : Datum := .pair (.atom (.symbol "x")) (.pair (.vector [.atom (.string "\"")])
    (.pair (.atom (.symbol ":k")) (.atom (.character ' '))))
  have hshows : Value.mixedList.Shows d := by simp [mixedList, d, Shows, AllShow]
  have hx : Lexer.Nameable "x" :=
    Lexer.nameable_of_atom (c := 'x') rfl (by decide) (by decide) rfl (.inl rfl)
  have hk : Lexer.Nameable ":k" :=
    Lexer.nameable_of_atom (c := ':') rfl (by decide) (by decide) rfl (.inr rfl)
  have hd : d.Readable := by
    simp [d, Datum.Readable, Datum.ReadableItems, Atom.Readable, hx, hk]
  have hdepth : d.depth < ReadOptions.standard.maxDepth := by decide
  obtain ⟨hread, hquoted⟩ := hshows.reads_back hd hdepth "data"
  exact ⟨d, hshows, hread, hquoted (by decide) .standard rfl 0⟩

/-- A blank in front of a name is lost, though one token stands behind it; and at the deepest place
where a datum may lie there is none for a quoted one. -/
theorem Value.Shows.reads_back_limits :
    (∃ t s, tokenize .standard "data" " a" = .ok [t] ∧ t.kind = .identifier "a" ∧
      Sexpr.ofText .standard "data" (Value.atom (.symbol " a")).text = .ok [s] ∧
      s.toDatum ≠ .atom (.symbol " a")) ∧
    (∃ s, Sexpr.ofText ⟨true, 1⟩ "data" (Value.integer 5).text = .ok [s] ∧
      s.toDatum = .atom (.integer 5)) ∧
    ∃ e, Program.ofText ⟨true, 1⟩ .standard 0 "data" ("'" ++ (Value.integer 5).text) = .error e := by
  refine ⟨?_, Sexpr.ofText_text (d := .atom (.integer 5)) trivial (by decide) "data", ?_⟩
  · have hlexes : Lexer.Lexes .standard "data" " a".toList [] (Atom.symbol "a").kinds :=
      (Lexer.Lexes.space (Lexer.atToken_of_isAtomChar (by decide) (by decide))).trans
        (Lexer.lexes_atom 'a' [] (by decide) (by decide) (by simp) rfl rfl (by simp))
    obtain ⟨tokens, htokens, hkinds⟩ := hlexes.tokenize
    obtain ⟨s, hs, hdatum⟩ := Sexpr.readAll_kinds (d := .atom (.symbol "a")) hkinds
      (show 0 < ReadOptions.standard.maxDepth by decide)
    obtain ⟨t, ts, rfl, ht, hts⟩ := List.map_eq_cons_iff.mp hkinds
    obtain rfl := List.map_eq_nil_iff.mp hts
    refine ⟨t, s, htokens, ht, ?_, by rw [hdatum]; simp⟩
    have htext : (Value.atom (.symbol " a")).text = " a" := by decide
    rw [htext, Sexpr.ofText, htokens]
    exact congrArg malformedFailure hs
  · have hok : (Program.ofText ⟨true, 1⟩ .standard 0 "data"
        ("'" ++ (Value.integer 5).text)).isOk = false := by decide +kernel
    cases hp : Program.ofText ⟨true, 1⟩ .standard 0 "data" ("'" ++ (Value.integer 5).text) with
    | error e => exact ⟨e, rfl⟩
    | ok p =>
      rw [hp] at hok
      cases hok

end RegisterScheme
