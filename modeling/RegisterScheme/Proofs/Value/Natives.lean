import RegisterScheme.Proofs.Value.BuiltFrom

/-! Native procedures give values built from their arguments or fail with an error; for those of a
host this is taken on trust. -/

namespace RegisterScheme

open Allocating

variable {P : Closure → Prop} {N : Nat → Prop}

/-- What is expected of a host: its natives of the given numbers neither make closures nor natives
that are not known, and they fail only with errors. -/
def Host.Trusted (host : Host) (N : Nat → Prop) : Prop :=
  ∀ number, N number → ∀ (P : Closure → Prop) (args : List Value),
    (∀ v ∈ args, v.BuiltFrom P N) → (host number args).Gives fun v => v.BuiltFrom P N

namespace StandardNative

theorem gives_fold (op : Arithmetic) {first : Value} (hf : first.BuiltFrom P N)
    (rest : List Value) : (fold op first rest).Gives fun v => v.BuiltFrom P N := by
  refine Gives.lift ?_
  induction rest generalizing first with
  | nil => exact hf
  | cons v vs ih => exact (op.gives_apply first v).bind fun w hw => ih hw

theorem gives_comparison (op : Comparison) (swap : Bool) (args : List Value) :
    (comparison op swap args).Gives fun v => v.BuiltFrom P N := by
  have hchain (first : Value) (rest : List Value) :
      Except.Gives (chain op swap first rest) fun _ => True := by
    induction rest generalizing first with
    | nil => trivial
    | cons v vs ih =>
      unfold chain
      refine Except.Gives.bind (Q := fun _ => True) ?_ fun holds _ => ?_
      · split
        · exact op.gives_holds v first
        · exact op.gives_holds first v
      · split
        · exact ih v
        · trivial
  unfold comparison
  split
  · exact .pure trivial
  · exact .bind (.lift (hchain _ _)) fun _ _ => .pure trivial

theorem gives_appendLists {args : List Value} (h : ∀ v ∈ args, v.BuiltFrom P N) :
    (appendLists args).Gives fun v => v.BuiltFrom P N := by
  have hitems (vs : List Value) (hv : ∀ v ∈ vs, v.BuiltFrom P N) :
      (vs.mapM fun v => (liftM v.toListItems : Allocating (List Value))).Gives fun lists =>
        ∀ l ∈ lists, ∀ v ∈ l, v.BuiltFrom P N := by
    induction vs with
    | nil =>
      rw [List.mapM_nil]
      exact .pure (by simp)
    | cons v vs ih =>
      obtain ⟨hv, hvs⟩ := List.forall_mem_cons.mp hv
      rw [List.mapM_cons]
      exact .bind (.lift (Value.gives_toListItems hv)) fun l hl =>
        .bind (ih hvs) fun ls hls => .pure (List.forall_mem_cons.mpr ⟨hl, hls⟩)
  unfold appendLists
  split
  · exact .pure trivial
  · rename_i last hlast
    refine .bind (hitems args.dropLast fun v hv => h v ((List.dropLast_sublist args).subset hv)) ?_
    intro lists hl
    refine gives_listWithTail (fun v hv => ?_) (h last (List.mem_of_getLast? hlast))
    obtain ⟨l, hm, hv⟩ := List.mem_flatten.mp hv
    exact hl l hm v hv

theorem gives_itemOrError {item? : Option Value}
    (h : ∀ w ∈ item?, w.BuiltFrom P N) (cause : RuntimeError.Cause) :
    Gives (match item? with
      | some item => return item
      | none => Allocating.raise cause) fun w => w.BuiltFrom P N := by
  cases item? with
  | some item => exact .pure (h item rfl)
  | none => exact .fail True.intro

theorem gives_vectorItem {v : Value} (h : v.BuiltFrom P N) (index : Value) :
    (vectorItem v index).Gives fun w => w.BuiltFrom P N := by
  refine .bind (.lift (Value.gives_toItems h)) fun items hi =>
    .bind (.lift (Value.gives_toInteger index)) fun i _ => ?_
  refine gives_itemOrError (fun w hw => hi w ?_) _
  split at hw
  · cases hw
  · exact List.mem_of_getElem? hw

/-- A standard procedure makes its value from its arguments. -/
theorem gives_run (n : StandardNative) {args : List Value} (h : ∀ v ∈ args, v.BuiltFrom P N) :
    (n.run args).Gives fun v => v.BuiltFrom P N := by
  unfold run
  split
  case h_1 => exact gives_fold _ (Value.builtFrom_atom _) _
  case h_2 => exact gives_fold _ (Value.builtFrom_atom _) _
  case h_3 => exact .lift (Arithmetic.gives_negate _)
  case h_4 => exact gives_fold _ (h _ List.mem_cons_self) _
  case h_5 => exact .lift (Arithmetic.gives_apply _ _ _)
  case h_6 => exact gives_fold _ (h _ List.mem_cons_self) _
  case h_7 => exact .lift (Arithmetic.gives_apply _ _ _)
  case h_8 => exact .lift (Arithmetic.gives_apply _ _ _)
  case h_14 =>
    exact .bind (.lift (Value.gives_toPair (h _ List.mem_cons_self))) fun p hp => .pure hp.1
  case h_15 =>
    exact .bind (.lift (Value.gives_toPair (h _ List.mem_cons_self))) fun p hp => .pure hp.2
  case h_16 => exact gives_cons (h _ List.mem_cons_self) (h _ (by simp))
  case h_17 => exact gives_list h
  case h_18 => exact gives_appendLists h
  case h_19 =>
    exact .bind (.lift (Value.gives_toListItems (h _ List.mem_cons_self))) fun _ _ => .pure trivial
  case h_32 => exact gives_vector h
  case h_33 => exact gives_vectorItem (h _ List.mem_cons_self) _
  case h_34 =>
    exact .bind (.lift (Value.gives_toItems (h _ List.mem_cons_self))) fun _ _ => .pure trivial
  case h_35 =>
    exact .bind (.lift (Value.gives_toListItems (h _ List.mem_cons_self))) fun _ hi =>
      gives_vector hi
  case h_36 =>
    exact .bind (.lift (Value.gives_toItems (h _ List.mem_cons_self))) fun _ hi => gives_list hi
  case h_37 => exact .fail True.intro
  case h_38 => exact .fail True.intro
  -- the comparisons and the predicates
  all_goals first
    | exact gives_comparison _ _ _
    | exact .pure trivial

/-- Equivalence never fails. -/
theorem chain_equivalent (v u : Value) : chain .equivalent false v [u] = .ok (v.eqv u) := by
  change (do if v.eqv u then .ok true else return false : Except Failure Bool) = _
  cases v.eqv u <;> rfl

end StandardNative

/-- A native whose procedure is known, as all standard ones are. -/
theorem Native.gives_call {host : Host} (hh : host.Trusted N) {n : Native}
    (hn : (Value.native n).BuiltFrom P N) {args : List Value}
    (h : ∀ v ∈ args, v.BuiltFrom P N) :
    (n.call host args).Gives fun v => v.BuiltFrom P N := by
  unfold call
  split
  · cases n with
    | standard n => exact n.gives_run h
    | host number name arity => exact hh number hn P args h
  · exact .fail True.intro

end RegisterScheme
