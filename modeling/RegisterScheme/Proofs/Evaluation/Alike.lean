import RegisterScheme.Proofs.Evaluation.AlikeWorlds
import RegisterScheme.Proofs.Evaluation.Evaluate

/-! Expressions that are alike have values that are, in worlds that are. -/

namespace RegisterScheme

namespace Evaluating

variable {reserved : Nat → Prop} {κ : Correspondence}

/-- What is shown of a computation may use that different things stand for different things. -/
theorem alike_of_oneToOne {α β : Type} {x : Evaluating α} {y : Evaluating β}
    {Q : Correspondence → α → β → Prop} (h : κ.OneToOne → Alike reserved κ x y Q) :
    Alike reserved κ x y Q :=
  ⟨fun w w' hw => (h hw.oneToOne).outcome w w' hw⟩

/-- What comes of values without touching the world. -/
theorem alike_answer {x y : Except Failure Value} (h : Agree (Value.Alike κ) x y) :
    Alike reserved κ (ofExcept x) (ofExcept y) Value.Alike :=
  (alike_ofExcept h).mono fun _ _ _ hle hv => hv.mono hle

theorem alike_fold (op : Arithmetic) {x x' : Value} {xs xs' : List Value} (hx : x.Alike κ x')
    (hxs : List.Forall₂ (Value.Alike κ) xs xs') :
    Alike reserved κ (ofExcept (xs.foldlM op.apply x)) (ofExcept (xs'.foldlM op.apply x'))
      Value.Alike :=
  alike_answer (Agree.foldlM hxs (fun _ _ _ _ h h' => op.agree_apply h h') hx)

theorem alike_compare (op : Comparison) (swap : Bool) {x x' : Value} {xs xs' : List Value}
    (hx : x.Alike κ x') (hxs : List.Forall₂ (Value.Alike κ) xs xs') :
    Alike reserved κ (do return .boolean (← ofExcept (StandardNative.chain op swap x xs)))
      (do return .boolean (← ofExcept (StandardNative.chain op swap x' xs'))) Value.Alike := by
  refine alike_of_oneToOne fun hκ => ?_
  refine (alike_ofExcept (StandardNative.agree_chain hκ op swap hx hxs)).bind ?_
  rintro _ b _ _ rfl
  exact .pure (.atom _)

/-- An operator does the same for operands that are alike, also for too few or too many of them. -/
theorem alike_operate (op : Operator) {vs vs' : List Value}
    (h : List.Forall₂ (Value.Alike κ) vs vs') :
    Alike reserved κ (operate op vs) (operate op vs') Value.Alike := by
  cases op with
  | add | multiply =>
    rcases h with _ | ⟨hx, _ | ⟨hy, hrest⟩⟩
    · exact .pure (.atom _)
    · exact alike_fold _ (.atom _) (.cons hx .nil)
    · exact alike_fold _ hx (.cons hy hrest)
  | subtract =>
    rcases h with _ | ⟨hx, _ | ⟨hy, hrest⟩⟩
    · exact .throw _ _
    · exact alike_answer (Arithmetic.agree_negate hx)
    · exact alike_fold .subtract hx (.cons hy hrest)
  | divide =>
    rcases h with _ | ⟨hx, _ | ⟨hy, hrest⟩⟩
    · exact .throw _ _
    · exact alike_fold .divide (.atom _) (.cons hx .nil)
    · exact alike_fold .divide hx (.cons hy hrest)
  | modulo | remainder =>
    rcases h with _ | ⟨hx, _ | ⟨hy, _ | _⟩⟩
    · exact .throw _ _
    · exact .throw _ _
    · exact alike_fold _ hx (.cons hy .nil)
    · exact .throw _ _
  | equalNumbers | equivalent | less | lessOrEqual | greater | greaterOrEqual =>
    rcases h with _ | ⟨hx, hxs⟩
    · exact .throw _ _
    · exact alike_compare _ _ hx hxs
  | cons =>
    rcases h with _ | ⟨hx, _ | ⟨hy, _ | _⟩⟩
    · exact .throw _ _
    · exact .throw _ _
    · exact alike_allocating (.cons hx hy)
    · exact .throw _ _
  | car =>
    rcases h with _ | ⟨hx, _ | _⟩
    · exact .throw _ _
    · exact (alike_ofExcept hx.toPair).bind fun _ _ _ hle hp => .pure (hp.1.mono hle)
    · exact .throw _ _
  | cdr =>
    rcases h with _ | ⟨hx, _ | _⟩
    · exact .throw _ _
    · exact (alike_ofExcept hx.toPair).bind fun _ _ _ hle hp => .pure (hp.2.mono hle)
    · exact .throw _ _
  | isNull =>
    rcases h with _ | ⟨hx, _ | _⟩
    · exact .throw _ _
    · refine alike_of_oneToOne fun hκ => ?_
      unfold operate
      dsimp only
      rw [Value.Alike.eqv_eq hκ hx (.atom _)]
      exact .pure (.atom _)
    · exact .throw _ _
  | not =>
    rcases h with _ | ⟨hx, _ | _⟩
    · exact .throw _ _
    · unfold operate
      dsimp only
      rw [hx.isTruthy_eq]
      exact .pure (.atom _)
    · exact .throw _ _
  | and | or => exact .throw _ _

/-- Two activations for expressions that are alike. -/
structure Abreast (κ : Correspondence) (r : Renumbering) (n here here' : Nat)
    (s s' : Scope) : Prop where
  objects : ∀ i j, r.objects i j → κ.objects i j
  scopes : s.Alike r n s'
  around : κ.Encloses n (some here) (some here')

variable {r : Renumbering} {n here here' : Nat} {s s' : Scope}

theorem Abreast.mono (h : Abreast κ r n here here' s s') {μ : Correspondence} (hle : κ ≤ μ) :
    Abreast μ r n here here' s s' :=
  ⟨fun i j hij => hle.1 i j (h.objects i j hij), h.scopes, h.around.mono hle⟩

theorem junction_cons (call : Value → List Value → Evaluating Value) (here : Nat) (s : Scope)
    (stop : Bool) (e f : Expr) (es : List Expr) : junction call here s stop (e :: f :: es) = (do
      let v ← evaluate call here s true e
      if v.isTruthy == stop then return v else junction call here s stop (f :: es)) := by
  rw [junction]
  simp

/-- Two ways to call procedures that do alike for procedures and arguments that are alike. -/
def AlikeCalls (reserved : Nat → Prop) (call call' : Value → List Value → Evaluating Value) :
    Prop :=
  ∀ κ f f' vs vs', f.Alike κ f' → List.Forall₂ (Value.Alike κ) vs vs' →
    Alike reserved κ (call f vs) (call' f' vs') Value.Alike

variable {call call' : Value → List Value → Evaluating Value}

mutual

theorem alike_evaluate (hcall : AlikeCalls reserved call call') (wanted : Bool)
    {κ : Correspondence} (h : Abreast κ r n here here' s s') : (e : Expr) → {e' : Expr} →
    e.Alike r n e' → Alike reserved κ (evaluate call here s wanted e)
      (evaluate call' here' s' wanted e') Value.Alike
  | .literal _ _, _, .literal hq => by
    rw [evaluate, evaluate]
    cases wanted with
    | true => exact .pure (.ofQuotation hq h.objects)
    | false => exact .pure .unspecified
  | .reference _ _, _, .reference hv => by
    rw [evaluate, evaluate]
    cases wanted with
    | true => exact (alike_place hv h.scopes h.around).bind fun _ _ _ _ hp => alike_read hp
    | false => exact .pure .unspecified
  | .assignment _ e _, _, .assignment hv he => by
    rw [evaluate, evaluate]
    refine (alike_evaluate hcall true h e he).bind fun μ x x' hle hx => ?_
    refine (alike_place hv h.scopes (h.mono hle).around).bind fun ν p p' hle' hp => ?_
    exact (alike_write hp (hx.mono hle')).bind fun _ _ _ _ _ => .pure .unspecified
  | .branch test consequent alternative _, _, .branch ht hc ha => by
    rw [evaluate, evaluate]
    refine (alike_evaluate hcall true h test ht).bind fun μ x x' hle hx => ?_
    rw [hx.isTruthy_eq]
    split
    · exact alike_evaluate hcall true (h.mono hle) consequent hc
    · exact alike_alternative hcall (h.mono hle) alternative ha
  | .cond cs otherwise _, _, .cond hcs ho => by
    rw [evaluate, evaluate]
    exact alike_clauses hcall
      (fun _ hle => alike_alternative hcall (h.mono hle) otherwise ho) h cs hcs
  | .operation op es _, .operation _ es' _, .operation hes => by
    have hoperate (place place' : Option Location) : Alike reserved κ
        (do
          let vs ← values call here s es
          located place (operate op vs))
        (do
          let vs ← values call' here' s' es'
          located place' (operate op vs)) Value.Alike :=
      (alike_values hcall h es hes).bind fun _ _ _ _ hvs => alike_located (alike_operate op hvs) _ _
    cases op
    case and =>
      rw [evaluate, evaluate]
      exact alike_junction hcall false h es hes
    case or =>
      rw [evaluate, evaluate]
      exact alike_junction hcall true h es hes
    all_goals
      rw [evaluate, evaluate]
      · exact hoperate _ _
      all_goals simp
  | .call e es _, _, .call he hes => by
    rw [evaluate, evaluate]
    refine (alike_evaluate hcall true h e he).bind fun μ f f' hle hf => ?_
    refine (alike_values hcall (h.mono hle) es hes).bind fun ν vs vs' hle' hvs => ?_
    exact alike_located (hcall ν f f' vs vs' (hf.mono hle') hvs) _ _
  | .lambda _ _, _, .lambda hf => by
    rw [evaluate, evaluate]
    cases wanted with
    | true =>
      exact (alike_newClosure hf h.objects h.around).bind
        fun _ _ _ _ hc => .pure (.closure hc.1 hc.2)
    | false => exact .pure .unspecified
  | .sequence es _, _, .sequence hes => by
    rw [evaluate, evaluate]
    exact alike_sequence hcall wanted h es hes
termination_by structural e => e

theorem alike_values (hcall : AlikeCalls reserved call call') {κ : Correspondence}
    (h : Abreast κ r n here here' s s') : (es : List Expr) → {es' : List Expr} →
    Exprs.Alike r n es es' → Alike reserved κ (values call here s es) (values call' here' s' es')
      fun κ => List.Forall₂ (Value.Alike κ)
  | [], _, .nil => by
    rw [values, values]
    exact .pure .nil
  | e :: es, _, .cons he hes => by
    rw [values, values]
    refine (alike_evaluate hcall true h e he).bind fun μ v v' hle hv => ?_
    exact (alike_values hcall (h.mono hle) es hes).bind fun ν vs vs' hle' hvs =>
      .pure (.cons (hv.mono hle') hvs)
termination_by structural es => es

theorem alike_alternative (hcall : AlikeCalls reserved call call') {κ : Correspondence}
    (h : Abreast κ r n here here' s s') : (o : Option Expr) → {o' : Option Expr} →
    OptionalExpr.Alike r n o o' → Alike reserved κ (alternativeValue call here s o)
      (alternativeValue call' here' s' o') Value.Alike
  | none, _, .none => by
    rw [alternativeValue, alternativeValue]
    exact .pure (.atom _)
  | some e, _, .some he => by
    rw [alternativeValue, alternativeValue]
    exact alike_evaluate hcall true h e he
termination_by structural o => o

theorem alike_clauses (hcall : AlikeCalls reserved call call') {κ : Correspondence}
    {otherwise otherwise' : Evaluating Value}
    (ho : ∀ μ, κ ≤ μ → Alike reserved μ otherwise otherwise' Value.Alike)
    (h : Abreast κ r n here here' s s') : (cs : List (Clause Expr)) →
    {cs' : List (Clause Expr)} → Clauses.Alike r n cs cs' →
    Alike reserved κ (clausesValue call here s otherwise cs)
      (clausesValue call' here' s' otherwise' cs') Value.Alike
  | [], _, .nil => by
    rw [clausesValue, clausesValue]
    exact ho κ (le_refl κ)
  | ⟨test, none⟩ :: cs, ⟨test', body'⟩ :: cs', .cons ht hb hcs => by
    cases hb
    rw [clausesValue, clausesValue]
    refine (alike_evaluate hcall true h test ht).bind fun μ v v' hle hv => ?_
    rw [hv.isTruthy_eq]
    split
    · exact .pure hv
    · exact alike_clauses hcall (fun ν hle' => ho ν (le_trans hle hle')) (h.mono hle) cs hcs
  | ⟨test, some body⟩ :: cs, ⟨test', body'⟩ :: cs', .cons ht hb hcs => by
    cases hb with
    | some hb =>
      rw [clausesValue, clausesValue]
      refine (alike_evaluate hcall true h test ht).bind fun μ v v' hle hv => ?_
      rw [hv.isTruthy_eq]
      split
      · exact alike_evaluate hcall true (h.mono hle) body hb
      · exact alike_clauses hcall (fun ν hle' => ho ν (le_trans hle hle')) (h.mono hle) cs hcs
termination_by structural cs => cs

theorem alike_junction (hcall : AlikeCalls reserved call call') (stop : Bool)
    {κ : Correspondence} (h : Abreast κ r n here here' s s') : (es : List Expr) →
    {es' : List Expr} → Exprs.Alike r n es es' → Alike reserved κ
      (junction call here s stop es) (junction call' here' s' stop es') Value.Alike
  | [], _, .nil => by
    rw [junction, junction]
    exact .pure (.atom _)
  | [e], _, .cons he .nil => by
    rw [junction, junction]
    exact alike_evaluate hcall true h e he
  | e :: f :: es, _, .cons he (.cons hf hes) => by
    rw [junction_cons, junction_cons]
    refine (alike_evaluate hcall true h e he).bind fun μ v v' hle hv => ?_
    rw [hv.isTruthy_eq]
    split
    · exact .pure hv
    · exact alike_junction hcall stop (h.mono hle) (f :: es) (.cons hf hes)
termination_by structural es => es

theorem alike_sequence (hcall : AlikeCalls reserved call call') (wanted : Bool)
    {κ : Correspondence} (h : Abreast κ r n here here' s s') : (es : List Expr) →
    {es' : List Expr} → Exprs.Alike r n es es' → Alike reserved κ
      (sequence call here s wanted es) (sequence call' here' s' wanted es') Value.Alike
  | [], _, .nil => by
    rw [sequence, sequence]
    exact .pure .unspecified
  | [e], _, .cons he .nil => by
    rw [sequence, sequence]
    exact alike_evaluate hcall wanted h e he
  | e :: f :: es, _, .cons he (.cons hf hes) => by
    rw [sequence_cons, sequence_cons]
    exact (alike_evaluate hcall false h e he).bind fun μ _ _ hle _ =>
      alike_sequence hcall wanted (h.mono hle) (f :: es) (.cons hf hes)
termination_by structural es => es

end

end Evaluating

end RegisterScheme
