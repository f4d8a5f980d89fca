import RegisterScheme.Proofs.Correctness.Execution
import RegisterScheme.Proofs.Evaluation.Natives

/-! The code of an operator form does what the standard native of its name does. -/

namespace RegisterScheme

namespace Evaluating

/-- There are as many values as expressions. -/
theorem values_length {call : Value → List Value → Evaluating Value} {here : Nat} {scope : Scope}
    {es : List Expr} {w w' : World} {vs : List Value}
    (h : values call here scope es w = .ok vs w') : vs.length = es.length := by
  induction es generalizing w w' vs with
  | nil =>
    cases h
    rfl
  | cons e es ih =>
    rw [values] at h
    obtain ⟨u, v, -, hrest⟩ := answers_of_bind h
    obtain ⟨us, v', hes, hvs⟩ := answers_of_bind hrest
    cases hvs
    rw [List.length_cons, List.length_cons, ih hes]

end Evaluating

namespace Lowering

variable {n : Nat} {scope : Scope} {outer : List Scope} {σ : Setting scope outer} {b c : Builder}
  {code : Code} {op : Operator} {es : List Expr} {location : Option Location} {r : Register}
  {w w' : World} {s t : Store} {vs : List Value}

/-- The code of an operator form leaves in its register what the standard native of the same name
gives for the values of the operands, or it fails as that does, at the place of the form. -/
theorem operation_eq_native (hs : scope.Valid) (hb : b.Valid scope outer)
    (hheight : (Expr.operation op es location).height ≤ n + 1)
    (hsc : (Expr.operation op es location).Scoped (scope :: outer))
    (ht : scope.registers ≤ r.val) (hr : r.val < b.free)
    (hcode : (within n).operation scope r op es location b = .ok code c)
    (hroom : (c.room scope).Within σ.room) (hw : σ.Ready w s)
    (hvs : σ.values es w = .ok vs w') (hexact : ∀ v ∈ vs, v.IsExact) (hop : op.hasProcedure)
    (hnext : t.nextObject = w'.nextObject) :
    ∃ native, Globals.standard.find? op.name = some (.native native) ∧
      match σ.machine.apply (.native native) vs t with
      | .ok v t' => ∃ s', σ.run code 0 s = .ok (.skip 0) s' ∧ σ.Holds s' r v ∧
          s'.nextObject = t'.nextObject
      | .error e _ => ∃ s', σ.run code 0 s = .error (e.located location) s' := by
  obtain ⟨native, hnative⟩ := Operator.native?_isSome hop
  have harity : op.arity.accepts vs.length := by
    rw [Evaluating.values_length hvs]
    cases hsc with
    | operation harity _ => exact harity
  have hmade := (operation_made (correct_within n) hs hb hheight hsc ht hr).of_ok hcode
  have hruns := hmade.2.works.runs σ hroom w s hw
  have hmeaning : σ.evaluate true (.operation op es location) w =
      Evaluating.located location
        (Evaluating.allocating ((Native.standard native).call σ.machine.host vs)) w' := by
    rw [σ.evaluate_operation (by rintro rfl; cases hop) (by rintro rfl; cases hop),
      Setting.operation, bind_of_ok hvs,
      Evaluating.operate_eq_native hnative harity hexact σ.machine.host]
  have happly : σ.machine.apply (.native (.standard native)) vs t =
      Running.allocating ((Native.standard native).call σ.machine.host vs) t := rfl
  refine ⟨.standard native, ?_, ?_⟩
  · rw [← Operator.native?_name hnative]
    exact Globals.find?_standard native
  rw [happly, Running.allocating, hnext]
  rw [Evaluating.located] at hmeaning
  cases hcall : ((Native.standard native).call σ.machine.host vs).run w'.nextObject with
  | ok p =>
    have hallocating : Evaluating.allocating ((Native.standard native).call σ.machine.host vs) w' =
        .ok p.1 { w' with nextObject := p.2 } := by
      rw [Evaluating.allocating, hcall]
    rw [tryCatch_of_ok hallocating] at hmeaning
    obtain ⟨v, w'', k, s', hv, hrun, hm, j, rfl, rfl, hh, -⟩ | ⟨e, w'', s', he, -⟩ := hruns.cases
    · rw [hmeaning] at hv
      cases hv
      exact ⟨s', hrun, hh, hm.agrees.nextObject⟩
    · rw [hmeaning] at he
      cases he
  | error e =>
    have hallocating : Evaluating.allocating ((Native.standard native).call σ.machine.host vs) w' =
        .error e w' := by
      rw [Evaluating.allocating, hcall]
    rw [tryCatch_of_error hallocating] at hmeaning
    obtain ⟨v, w'', k, s', hv, -⟩ | ⟨e', w'', s', he, hrun, -⟩ := hruns.cases
    · rw [hmeaning] at hv
      cases hv
    · rw [hmeaning] at he
      cases he
      exact ⟨s', hrun⟩

/-- `7`, `2` and `"3"` -/
def differenceOperands : List Expr :=
  [.literal ⟨0, .atom (.integer 7)⟩ none, .literal ⟨0, .atom (.integer 2)⟩ none,
    .literal ⟨0, .atom (.string "3")⟩ none]

/-- `(- 7 2 "3")` -/
def difference : Function :=
  ⟨none, .none, .empty, .operation .subtract differenceOperands none, none⟩

theorem difference_scoped : difference.Scoped [] := by
  have hprogram : Function.ofProgram .standard 0 [.list [.identifier "-" none,
      .literal (.integer 7) none, .literal (.integer 2) none, .literal (.string "3") none] none] =
      .ok (difference, 0) := by with_unfolding_all rfl
  exact Function.ofProgram_ok hprogram

/-- The code of the form, behind a temporary for its value. -/
theorem difference_compiled : ∃ t code c, difference.template = .ok t ∧
    (within 1).operation .empty 0 .subtract differenceOperands none
      { Builder.start 0 with free := 1, used := 1 } = .ok code c ∧
      (c.room .empty).Within t.room := by
  refine ⟨_, _, _, by with_unfolding_all rfl, by with_unfolding_all rfl, ?_, ⟨[], ?_⟩, ?_⟩
  · with_unfolding_all decide
  · with_unfolding_all rfl
  · with_unfolding_all rfl

/-- The string in it counts as the integer that it reads as. -/
theorem operation_eq_native_difference : ∃ (σ : Setting .empty []) (s : Store) (code : Code)
    (c : Builder),
    (within 1).operation .empty 0 .subtract differenceOperands none
      { Builder.start 0 with free := 1, used := 1 } = .ok code c ∧
    ∃ native, Globals.standard.find? "-" = some (.native native) ∧
      match σ.machine.apply (.native native) [.integer 7, .integer 2, .atom (.string "3")] s with
      | .ok v t => ∃ s', σ.run code 0 s = .ok (.skip 0) s' ∧ σ.Holds s' 0 v ∧
          s'.nextObject = t.nextObject
      | .error e _ => ∃ s', σ.run code 0 s = .error (e.located none) s' := by
  obtain ⟨t, code, c, ht, hcode, hroom⟩ := difference_compiled
  have hrenders := difference_scoped.renders ht
  let closure : Closure := ⟨0, t, none⟩
  let w := ((World.ofGlobals Machine.tupleGlobals).addClosure difference none).enter closure
  let s := (Store.ofGlobals Machine.tupleGlobals).addClosure.enter closure
  have hclosed := (Store.agrees_ofGlobals Machine.tupleGlobals_withoutClosures).addClosure
    difference none
  have hknown : ((World.ofGlobals Machine.tupleGlobals).addClosure difference none).KnownAs closure
      difference [] := ⟨rfl, ht, .outermost, difference_scoped⟩
  let σ : Setting .empty [] := Machine.bodySetting (Machine.collecting (some 1))
    (Machine.collecting_trusted _) (c := closure) hrenders 0
    (Machine.callClosure_simulates (Machine.collecting_trusted _) 0)
  have hw : σ.Ready w s :=
    ⟨hclosed.enter ⟨_, _, hknown⟩ hrenders.tempBase_le,
      ⟨difference, hknown.grows (World.grows_enter ..), rfl⟩, ⟨_, rfl, rfl⟩⟩
  have hbuilder : Builder.Valid .empty [] { Builder.start 0 with free := 1, used := 1 } :=
    ⟨by decide, by decide, by decide, by simp [Builder.start], by simp [Builder.start],
      by simp [Builder.start]⟩
  have hexact : ∀ v ∈ [Value.integer 7, .integer 2, .atom (.string "3")], v.IsExact := by
    have hinteger (n : Int64) : (Value.integer n).IsExact := fun _ h => by cases h
    have hstring : (Value.atom (.string "3")).toNumber = .ok (.integer 3) := by
      with_unfolding_all rfl
    simp only [List.forall_mem_cons]
    refine ⟨hinteger 7, hinteger 2, fun x h => ?_, List.forall_mem_nil _⟩
    rw [hstring] at h
    cases h
  refine ⟨σ, s, code, c, hcode, operation_eq_native difference_scoped.valid hbuilder (by decide)
    difference_scoped.body (by decide) (by decide) hcode hroom hw rfl hexact rfl rfl⟩

end Lowering

end RegisterScheme
