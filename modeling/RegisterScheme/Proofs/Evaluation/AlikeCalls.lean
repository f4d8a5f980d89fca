import RegisterScheme.Proofs.Evaluation.Alike
import RegisterScheme.Proofs.Simulation.Arguments

/-! Procedures that are alike take alike arguments alike, and answer alike. -/

namespace RegisterScheme

variable {κ : Correspondence} {r : Renumbering} {n : Nat} {δ : Type}

/-! ### Arguments -/

/-- Arguments dealt out to the same registers. -/
structure Dealing.Alike (κ : Correspondence) (x y : Dealing δ) : Prop where
  values : List.Forall₂ (fun a b => a.1 = b.1 ∧ a.2.Alike κ b.2) x.values y.values
  rest : Option.Rel (fun a b => a.1 = b.1 ∧ List.Forall₂ (Value.Alike κ) a.2 b.2) x.rest y.rest
  defaults : x.defaults = y.defaults

namespace Dealing

variable {args args' : List Value}

theorem alike_positional (ps : List (Formal δ)) (h : List.Forall₂ (Value.Alike κ) args args') :
    List.Forall₂ (fun a b => a.1 = b.1 ∧ a.2.Alike κ b.2) (positional ps args).1
        (positional ps args').1 ∧
      (positional ps args).2.1 = (positional ps args').2.1 ∧
      List.Forall₂ (Value.Alike κ) (positional ps args).2.2 (positional ps args').2.2 := by
  induction ps generalizing args args' with
  | nil => exact ⟨.nil, rfl, h⟩
  | cons p ps ih =>
    cases h with
    | nil =>
      obtain ⟨hv, hd, he⟩ := ih .nil
      exact ⟨hv, rfl, he⟩
    | cons hx hxs =>
      obtain ⟨hv, hd, he⟩ := ih hxs
      exact ⟨.cons ⟨rfl, hx⟩ hv, hd, he⟩

theorem alike_keyed (keys : List (Formal δ)) (h : List.Forall₂ (Value.Alike κ) args args') :
    Agree (List.Forall₂ fun a b => a.1 = b.1 ∧ a.2.Alike κ b.2) (keyed keys args)
      (keyed keys args') := by
  induction args using keyed.induct keys generalizing args' with
  | case1 =>
    cases h
    exact .ok .nil
  | case2 k =>
    rcases h with _ | ⟨-, _ | _⟩
    exact .error
  | case3 k v rest hk =>
    rcases h with _ | ⟨hkey, _ | ⟨hv, hrest⟩⟩
    rw [keyed, keyed, hkey.keyword?_eq, hk]
    exact .error
  | case4 k v rest name hk hp =>
    rcases h with _ | ⟨hkey, _ | ⟨hv, hrest⟩⟩
    rw [keyed, keyed, hkey.keyword?_eq, hk]
    dsimp only
    rw [hp]
    exact .error
  | case5 k v rest name hk p hp ih =>
    rcases h with _ | ⟨hkey, _ | ⟨hv, hrest⟩⟩
    rw [keyed, keyed, hkey.keyword?_eq, hk]
    dsimp only
    rw [hp]
    exact (ih hrest).bind fun _ _ h => .ok (.cons ⟨rfl, hv⟩ h)

theorem alike_firstValues {given given' : List (Register × Value)}
    (h : List.Forall₂ (fun a b => a.1 = b.1 ∧ a.2.Alike κ b.2) given given') :
    List.Forall₂ (fun a b => a.1 = b.1 ∧ a.2.Alike κ b.2) (firstValues given)
      (firstValues given') := by
  induction h with
  | nil => exact .nil
  | @cons a b _ _ hab _ ih =>
    obtain ⟨q, v⟩ := a
    obtain ⟨_, v'⟩ := b
    obtain ⟨rfl, hv⟩ := hab
    refine .cons ⟨rfl, hv⟩ (List.rel_filter ?_ ih)
    rintro ⟨p, u⟩ ⟨_, u'⟩ ⟨rfl, -⟩
    exact Iff.rfl

/-- Which defaults are missing is told by the registers alone. -/
theorem missing_congr (keys : List (Formal δ)) {given given' : List (Register × Value)}
    (h : List.Forall₂ (fun a b => a.1 = b.1 ∧ a.2.Alike κ b.2) given given') :
    missing keys given = missing keys given' := by
  have hany (q : Register) :
      (given.any fun g => g.1 == q) = given'.any fun g => g.1 == q := by
    induction h with
    | nil => rfl
    | cons hab _ ih => rw [List.any_cons, List.any_cons, ih, hab.1]
  simp only [missing, hany]

theorem alike_ofArguments (F : Formals δ) (h : List.Forall₂ (Value.Alike κ) args args') :
    Agree (Dealing.Alike κ) (ofArguments F args) (ofArguments F args') := by
  obtain ⟨hv, hd, he⟩ := alike_positional F.positional h
  have hrest : Option.Rel (fun a b => a.1 = b.1 ∧ List.Forall₂ (Value.Alike κ) a.2 b.2)
      (F.rest.map fun q => (q, (positional F.positional args).2.2))
      (F.rest.map fun q => (q, (positional F.positional args').2.2)) := by
    cases F.rest with
    | none => exact .none
    | some q => exact .some ⟨rfl, he⟩
  have hempty : (positional F.positional args).2.2.isEmpty =
      (positional F.positional args').2.2.isEmpty := by
    generalize (positional F.positional args).2.2 = extra at he
    generalize (positional F.positional args').2.2 = extra' at he
    cases he <;> rfl
  rw [ofArguments_eq, ofArguments_eq, h.length_eq, he.length_eq, hempty]
  split
  · exact .error
  · split
    · split
      · exact .error
      · refine (alike_keyed F.keys he).map fun given given' hgiven => ⟨?_, hrest, ?_⟩
        · exact List.rel_append hv (alike_firstValues hgiven)
        · exact congrArg₂ (· ++ ·) hd (missing_congr F.keys (alike_firstValues hgiven))
    · split
      · exact .error
      · exact .ok ⟨hv, hrest, hd⟩

end Dealing

theorem Defaults.Alike.matches {ps ps' : List (OptionalParameter Function)}
    (h : Defaults.Alike r n ps ps') : List.Forall₂ (Formal.Matches (Function.Alike r n))
      (ps.map fun p => ⟨p.name, p.register, p.default⟩)
      (ps'.map fun p => ⟨p.name, p.register, p.default⟩) := by
  induction ps generalizing ps' with
  | nil =>
    cases h
    exact .nil
  | cons p ps ih =>
    cases h with
    | none hs => exact .cons ⟨rfl, rfl, .none⟩ (ih hs)
    | some hf hs => exact .cons ⟨rfl, rfl, .some hf⟩ (ih hs)

theorem Function.Alike.formals {f f' : Function} (h : f.Alike r n f') :
    f.formals.Matches (Function.Alike r (n + 1)) f'.formals := by
  cases h with
  | intro name scope captures required rest optional keys body =>
    have hempty : f.parameters.keys.isEmpty = f'.parameters.keys.isEmpty := by
      generalize f.parameters.keys = ps, f'.parameters.keys = ps' at keys
      cases keys <;> rfl
    refine ⟨required.symm, ?_, congrArg (!·) hempty, keys.matches, rest.symm⟩
    dsimp only [Function.formals]
    rw [scope]
    refine List.rel_append ?_ optional.matches
    refine List.forall₂_same.mpr fun p hp => ⟨rfl, rfl, ?_⟩
    -- required parameters have no defaults
    obtain ⟨b, -, hb⟩ := List.mem_filterMap.mp hp
    split at hb
    · cases hb
      exact .none
    · cases hb

theorem Function.Alike.scopes {f f' : Function} (h : f.Alike r (n + 1) f') :
    f.scope.Alike r (n + 1) f'.scope := by
  cases h with
  | intro name scope captures => exact ⟨scope, captures⟩

theorem Function.Alike.body {f f' : Function} (h : f.Alike r n f') : f.body.Alike r n f'.body := by
  cases h with
  | intro name scope captures required rest optional keys body => exact body

/-- What is dealt out to two procedures. -/
structure Dealing.Across (κ : Correspondence) (r : Renumbering) (n : Nat)
    (x y : Dealing Function) : Prop where
  values : List.Forall₂ (fun a b => a.1 = b.1 ∧ a.2.Alike κ b.2) x.values y.values
  rest : Option.Rel (fun a b => a.1 = b.1 ∧ List.Forall₂ (Value.Alike κ) a.2 b.2) x.rest y.rest
  defaults : List.Forall₂ (fun a b => a.1 = b.1 ∧ Function.Alike r n a.2 b.2) x.defaults y.defaults

theorem Function.Alike.dealing {f f' : Function} (hf : f.Alike r n f') {args args' : List Value}
    (hargs : List.Forall₂ (Value.Alike κ) args args') :
    Agree (Dealing.Across κ r (n + 1)) (Dealing.ofArguments f.formals args)
      (Dealing.ofArguments f'.formals args') := by
  have hfirst := Dealing.alike_ofArguments f.formals hargs
  obtain ⟨e, hx, hy⟩ | ⟨x, y, hx, hy, hxy⟩ := Dealing.ofArguments_matches hf.formals args'
  · rw [hx] at hfirst
    rw [hy]
    generalize Dealing.ofArguments f.formals args = z at hfirst
    cases hfirst with
    | error => exact .error
  · rw [hx] at hfirst
    rw [hy]
    generalize Dealing.ofArguments f.formals args = z at hfirst
    cases hfirst with
    | ok h => exact .ok ⟨hxy.values ▸ h.values, hxy.rest ▸ h.rest, h.defaults ▸ hxy.defaults⟩

/-! ### Calls -/

namespace Evaluating

variable {reserved : Nat → Prop} {here here' : Nat} {p p' : Option Nat}
  {run run' : Closure → Evaluating Value}

theorem alike_fillDefaults {defaults defaults' : List (Register × Function)}
    (h : List.Forall₂ (fun a b => a.1 = b.1 ∧ Function.Alike r (n + 2) a.2 b.2) defaults defaults')
    (hr : ∀ i j, r.objects i j → κ.objects i j) (hhere : κ.environments here p here' p')
    (haround : κ.Encloses n p p')
    (hrun : ∀ μ c c', μ.closures c c' → Alike reserved μ (run c) (run' c') Value.Alike) :
    Alike reserved κ
      (do
        for (q, default) in defaults do
          write (.register here q) (← run (← newClosure default (some here))))
      (do
        for (q, default) in defaults' do
          write (.register here' q) (← run' (← newClosure default (some here'))))
      fun _ _ _ => True := by
  refine (Alongside.forIn h ?_).bind fun _ _ _ _ _ => .pure trivial
  rintro μ ⟨q, default⟩ ⟨_, default'⟩ hle ⟨rfl, hdefault⟩
  have haround' : μ.Encloses (n + 1) (some here) (some here') :=
    .inside (hle.2.2 _ _ _ _ hhere) (haround.mono hle)
  refine (alike_newClosure hdefault (fun i j hij => hle.1 i j (hr i j hij)) haround').bind
    fun ν c c' hle₁ hc => ?_
  refine (hrun ν c c' hc.1).bind fun ξ v v' hle₂ hv => ?_
  have hhere' := (le_trans hle (le_trans hle₁ hle₂)).2.2 _ _ _ _ hhere
  exact (alike_write (.register hhere' q) hv).bind fun _ _ _ _ _ => .pure ⟨rfl, rfl⟩

theorem alike_bindArguments {f f' : Function} (hf : f.Alike r (n + 1) f')
    (hr : ∀ i j, r.objects i j → κ.objects i j) (hhere : κ.environments here p here' p')
    (haround : κ.Encloses n p p')
    (hrun : ∀ μ c c', μ.closures c c' → Alike reserved μ (run c) (run' c') Value.Alike)
    {args args' : List Value} (hargs : List.Forall₂ (Value.Alike κ) args args') :
    Alike reserved κ (bindArguments run here f args) (bindArguments run' here' f' args')
      fun _ _ _ => True := by
  have hdealing := hf.dealing hargs
  unfold bindArguments
  generalize Dealing.ofArguments f.formals args = x, Dealing.ofArguments f'.formals args' = y
    at hdealing
  cases hdealing with
  | error => exact .throw _ _
  | @ok x y hxy =>
    obtain ⟨values, rest, defaults⟩ := x
    obtain ⟨values', rest', defaults'⟩ := y
    obtain ⟨hvalues, hrest, hdefaults⟩ := hxy
    dsimp only at hvalues hrest hdefaults ⊢
    have hfill {ν : Correspondence} (hle : κ ≤ ν) :=
      alike_fillDefaults hdefaults (fun i j hij => hle.1 i j (hr i j hij))
        (hle.2.2 _ _ _ _ hhere) (haround.mono hle) hrun
    refine (Alongside.forIn hvalues ?_).bind fun μ _ _ hle _ => ?_
    · rintro μ ⟨q, v⟩ ⟨_, v'⟩ hle ⟨rfl, hv⟩
      exact (alike_write (.register (hle.2.2 _ _ _ _ hhere) q) (hv.mono hle)).bind
        fun _ _ _ _ _ => .pure ⟨rfl, rfl⟩
    cases hrest with
    | none => exact hfill hle
    | @some a b hab =>
      obtain ⟨q, items⟩ := a
      obtain ⟨_, items'⟩ := b
      obtain ⟨rfl, hitems⟩ := hab
      refine (alike_allocating (.list (hitems.imp fun _ _ h => h.mono hle))).bind
        fun ν v v' hle' hv => ?_
      refine (alike_write (.register ((le_trans hle hle').2.2 _ _ _ _ hhere) q) hv).bind
        fun ξ _ _ hle'' _ => ?_
      exact hfill (le_trans hle (le_trans hle' hle''))

end Evaluating

/-- Natives of every program look at no more than what is alike. -/
theorem StandardNative.alike_call (hκ : κ.OneToOne) (host : Host) (native : StandardNative)
    {args args' : List Value} (h : List.Forall₂ (Value.Alike κ) args args') :
    Allocating.Alike κ ((Native.standard native).call host args)
      ((Native.standard native).call host args') := by
  unfold Native.call
  rw [← h.length_eq]
  split
  · rename_i harity
    exact native.alike_run hκ h harity
  · exact .fail _ _

namespace Machine

open Evaluating

variable {reserved : Nat → Prop} (m : Machine)

theorem alikeCalls_evaluateWith {run run' : Closure → List Value → Evaluating Value}
    (hrun : ∀ μ c c' vs vs', μ.closures c c' → List.Forall₂ (Value.Alike μ) vs vs' →
      Alike reserved μ (run c vs) (run' c' vs') Value.Alike) :
    AlikeCalls reserved (m.evaluateWith run) (m.evaluateWith run') := by
  intro μ f f' vs vs' hf hvs
  cases hf with
  | closure hc _ => exact hrun μ _ _ vs vs' hc hvs
  | native native =>
    exact alike_of_oneToOne fun hμ => alike_allocating (native.alike_call hμ m.host hvs)
  | atom | pair | vector | unspecified => exact .throw _ _

/-- Induction on the number of calls that may still be active. -/
theorem alike_evaluateClosure (remaining : Nat) {c c' : Closure} (hc : κ.closures c c')
    {args args' : List Value} (hargs : List.Forall₂ (Value.Alike κ) args args') :
    Alike reserved κ (m.evaluateClosure remaining c args) (m.evaluateClosure remaining c' args')
      Value.Alike := by
  induction remaining generalizing κ c c' args args' with
  | zero =>
    unfold evaluateClosure
    cases m.callLimit with
    | some limit => exact .throw _ _
    | none => exact .throw _ _
  | succ remaining ih =>
    unfold evaluateClosure
    refine (alike_procedure hc).bind ?_
    rintro μ f f' hμ ⟨r, n, hf, hr, haround⟩
    refine alike_inProcedure ?_ _ _
    refine (alike_enter c c').bind fun ν here here' hν hhere => ?_
    refine (alike_bindArguments hf (fun i j hij => hν.1 i j (hr i j hij)) hhere
      (haround.mono hν) (fun ξ d d' hd => ih hd .nil)
      (hargs.imp fun _ _ h => h.mono (le_trans hμ hν))).bind fun ξ _ _ hξ _ => ?_
    have hle := le_trans hν hξ
    have habreast : Abreast ξ r (n + 1) here here' f.scope f'.scope :=
      ⟨fun i j hij => hle.1 i j (hr i j hij), hf.scopes,
        .inside (hξ.2.2 _ _ _ _ hhere) (haround.mono hle)⟩
    exact alike_evaluate (m.alikeCalls_evaluateWith fun ρ d d' vs vs' hd hvs => ih hd hvs) true
      habreast f.body hf.body

end Machine

end RegisterScheme
