import RegisterScheme.Proofs.Generation.Forms

/-! Code for procedures: the descriptions of their variables, with the templates that compute
defaults, and the body with the return from it. -/

namespace RegisterScheme

/-- A binding as a variable without default. -/
def Binding.variable (b : Binding) : Variable := ⟨b.name, b.variableKind, none⟩

theorem Function.Scoped.valid {f : Function} {outer : List Scope} (h : f.Scoped outer) :
    f.scope.Valid := by
  cases h with
  | intro valid => exact valid

theorem Function.Scoped.declared {f : Function} {outer : List Scope} (h : f.Scoped outer) :
    f.parameters.Declared f.scope := by
  cases h with
  | intro _ _ declared => exact declared

theorem Function.Scoped.body {f : Function} {outer : List Scope} (h : f.Scoped outer) :
    f.body.Scoped (f.scope :: outer) := by
  cases h with
  | intro _ _ _ _ body => exact body

theorem Function.Scoped.default {f : Function} {outer : List Scope} (h : f.Scoped outer)
    {p : OptionalParameter Function} (hp : p ∈ f.parameters.optional ++ f.parameters.keys)
    {d : Function} (hd : p.default = some d) : d.Scoped (f.scope :: outer) := by
  cases h with
  | intro _ _ _ defaults => exact defaults p hp d hd

/-- Code that ends with a return, to which all that is before leads at most. -/
def Code.Closed (code : Code) : Prop :=
  ∃ lines line, code = lines ++ [line] ∧ line.instruction.opcode = .return ∧ Code.Flows 0 lines

namespace Setting

variable {scope : Scope} {outer : List Scope} {σ : Setting scope outer} {first : Nat}
  {r : Register} {x : Evaluating Value} {code : Code} {i : Instruction}

/-- The code of a whole procedure. -/
def Returns (σ : Setting scope outer) (x : Evaluating Value) (code : Code) : Prop :=
  ∀ w s, σ.Ready w s → Simulates σ.machine σ.natives (σ.kept fun _ => False) w s x
    (Running.exec σ.machine.caching σ.call σ.here code 0) fun v u w' _ => u = v ∧ σ.Built w' v

/-- The last line of a procedure. -/
theorem exec_return {location : Option Location} {s : Store} {v : Value}
    (h : Running.step σ.machine.caching σ.call σ.here i s = .ok (.done v) s) :
    Running.exec σ.machine.caching σ.call σ.here [⟨i, location⟩] 0 s = .ok v s := by
  rw [Running.exec, bind_of_ok (Running.located_of_ok h location)]
  rfl

theorem Delivers.returns (location : Option Location) (h : σ.Delivers first r x code)
    (hi : i.opcode = .return ∧ i.a = r ∧ i.b = 2 ∧ i.c = 0) :
    σ.Returns x (code ++ [⟨i, location⟩]) := by
  intro w s hw
  obtain ⟨ho, ha, hb, -⟩ := hi
  rw [Running.exec_append, ← bind_pure x]
  refine Simulates.bind ((h w s hw).mono (fun _ _ hk => hk.elim)
    fun _ _ _ _ _ hq => hq) fun v k w' s' hm hq => ?_
  obtain ⟨n, rfl, rfl, hh, hbuilt⟩ := hq
  refine .of_ok rfl (exec_return ?_) (.refl hm.agrees) ⟨rfl, hbuilt⟩
  simp only [Running.step, ho, ha, hb, beq_self_eq_true, if_true]
  rw [bind_of_ok (getRegister_eq hh)]
  rfl

theorem Effects.returns (location : Option Location) (h : σ.Effects first x code)
    (hi : i.opcode = .return ∧ i.a = 0 ∧ i.b = 1 ∧ i.c = 0) :
    σ.Returns (x >>= fun _ => pure .unspecified) (code ++ [⟨i, location⟩]) := by
  intro w s hw
  obtain ⟨ho, -, hb, -⟩ := hi
  rw [Running.exec_append]
  refine Simulates.bind ((h w s hw).mono (fun _ _ hk => hk.elim)
    fun _ _ _ _ _ hq => hq) fun v k w' s' hm hq => ?_
  obtain ⟨n, rfl, rfl⟩ := hq
  refine .of_ok rfl (exec_return ?_) (.refl hm.agrees) ⟨rfl, trivial⟩
  simp only [Running.step, ho, hb]
  rfl

mutual

/-- The value of what ends in an assignment is unspecified, whether it is wanted or not. -/
theorem evaluate_endsInAssignment (σ : Setting scope outer) : (e : Expr) → e.endsInAssignment →
    σ.evaluate true e = σ.evaluate false e >>= fun _ => pure .unspecified
  | .assignment target value location, _ => by
    simp only [evaluate_assignment, bind_assoc, pure_bind]
  | .sequence items _, h => by
    rw [evaluate, evaluate, Evaluating.evaluate, Evaluating.evaluate]
    exact sequence_endsInAssignment σ items h

theorem sequence_endsInAssignment (σ : Setting scope outer) : (es : List Expr) →
    Expr.lastEndsInAssignment es →
    Evaluating.sequence σ.evaluateCall σ.here.address scope true es =
      Evaluating.sequence σ.evaluateCall σ.here.address scope false es >>= fun _ =>
        pure .unspecified
  | [e], h => by
    rw [Evaluating.sequence, Evaluating.sequence]
    exact evaluate_endsInAssignment σ e h
  | e :: e' :: es, h => by
    rw [Evaluating.sequence_cons, Evaluating.sequence_cons, bind_assoc]
    exact bind_congr fun _ => sequence_endsInAssignment σ (e' :: es) h

end

end Setting

namespace Parameters.Declared

variable {φ : Type} {ps : Parameters φ} {s : Scope} {p : OptionalParameter φ}

theorem optional_binding (h : ps.Declared s) (hp : p ∈ ps.optional) :
    ∃ b, s.bindings[p.slot]? = some b ∧ b.name = p.name ∧
      b.argument? .optional = some p.register :=
  Scope.mem_arguments.mp (h.optional ▸ List.mem_map_of_mem hp)

theorem key_binding (h : ps.Declared s) (hp : p ∈ ps.keys) :
    ∃ b, s.bindings[p.slot]? = some b ∧ b.name = p.name ∧ b.argument? .key = some p.register :=
  Scope.mem_arguments.mp (h.keys ▸ List.mem_map_of_mem hp)

theorem slot_lt (h : ps.Declared s) (hp : p ∈ ps.optional ++ ps.keys) :
    p.slot < s.bindings.length := by
  obtain hp | hp := List.mem_append.mp hp
  · obtain ⟨b, hb, -⟩ := h.optional_binding hp
    exact (List.getElem?_eq_some_iff.mp hb).1
  · obtain ⟨b, hb, -⟩ := h.key_binding hp
    exact (List.getElem?_eq_some_iff.mp hb).1

/-- Parameters with defaults lie in different slots. -/
theorem slots_nodup (h : ps.Declared s) :
    ((ps.optional ++ ps.keys).map OptionalParameter.slot).Nodup := by
  have hslots {l : List (OptionalParameter φ)} {kind : ParameterKind}
      (hl : l.map OptionalParameter.entry = s.arguments kind) :
      (l.map OptionalParameter.slot).Nodup := by
    have hnodup := s.arguments_nodup kind
    rwa [← hl, List.map_map] at hnodup
  rw [List.map_append, List.nodup_append]
  refine ⟨hslots h.optional, hslots h.keys, fun i hi j hj hij => ?_⟩
  obtain ⟨p, hp, rfl⟩ := List.mem_map.mp hi
  obtain ⟨q, hq, rfl⟩ := List.mem_map.mp hj
  obtain ⟨b, hb, -, hoptional⟩ := h.optional_binding hp
  obtain ⟨b', hb', -, hkey⟩ := h.key_binding hq
  obtain rfl : b = b' := Option.some.inj (hb.symm.trans (hij ▸ hb'))
  exact nomatch Binding.argument?_unique hoptional hkey

end Parameters.Declared

namespace Lowering

open Generating

variable {inner : Lowering} {n : Nat} {scope : Scope} {outer : List Scope} {b : Builder}
  {f : Function}

theorem describe_keeps (hs : scope.Valid) :
    Generates b (scope.bindings.mapM describe) fun slots c =>
      c = b ∧ slots = scope.bindings.map Binding.variable := by
  have hmap := Keeps.mapM_forall₂ (R := Builder.Grows) (F := fun f : Failure => f.IsError)
    (f := describe) (l := scope.bindings) (s := b) (I := (· = b))
    (P := fun (x : Binding) (v : Variable) (_ : Builder) => x.variable = v)
    (fun _ _ _ _ h _ => h) rfl ?_
  · refine hmap.mono fun slots c _ h => ⟨h.1, ?_⟩
    have heq := h.2
    rw [← List.forall₂_map_left_iff, List.forall₂_eq_eq_eq] at heq
    exact heq.symm
  · rintro x hx c - rfl
    obtain ⟨k, hk⟩ := hs.kinds x hx
    unfold describe
    rw [hk]
    refine .pure (.refl c) ⟨rfl, ?_⟩
    rw [Binding.variable, Binding.variableKind, hk]

/-- The literal at an index is the template of a procedure. -/
def TemplateAt (literals : List (Literal Template)) (index : Nat) (d : Function) : Prop :=
  ∃ t, literals[index]? = some (.template t) ∧ d.template = .ok t

/-- Variables with the defaults of some parameters. -/
structure Initialized (scope : Scope) (ps : List (OptionalParameter Function))
    (slots : List Variable) (literals : List (Literal Template)) : Prop where
  same : slots.map (fun v => (v.name, v.kind)) =
    scope.bindings.map fun b => (b.name, b.variableKind)
  given : ∀ p ∈ ps, ∃ v, slots[p.slot]? = some v ∧
    Option.Rel (TemplateAt literals) v.initializer p.default
  missing : ∀ i v, slots[i]? = some v → (∀ p ∈ ps, p.slot ≠ i) → v.initializer = none

theorem optionRel_mono {α β : Type} {r r' : α → β → Prop} {x : Option α} {y : Option β}
    (h : Option.Rel r x y) (hr : ∀ a, ∀ b ∈ y, r a b → r' a b) : Option.Rel r' x y := by
  cases h with
  | none => exact .none
  | some h => exact .some (hr _ _ rfl h)

theorem Initialized.length {ps : List (OptionalParameter Function)} {slots : List Variable}
    {literals : List (Literal Template)} (h : Initialized scope ps slots literals) :
    slots.length = scope.bindings.length := by
  simpa using congrArg List.length h.same

theorem Initialized.grows {ps : List (OptionalParameter Function)} {slots : List Variable}
    {literals literals' : List (Literal Template)} (h : Initialized scope ps slots literals)
    (hl : literals <+: literals') : Initialized scope ps slots literals' where
  same := h.same
  given p hp := by
    obtain ⟨v, hv, hd⟩ := h.given p hp
    refine ⟨v, hv, optionRel_mono hd fun index d _ ⟨t, ht, hdt⟩ => ⟨t, ?_, hdt⟩⟩
    exact (List.prefix_iff_getElem?.mp hl _ (List.getElem?_eq_some_iff.mp ht).1).trans
      ((List.getElem?_eq_getElem _).symm.trans ht)
  missing := h.missing

/-- One more parameter, with the default that its variable has by then. -/
theorem Initialized.append {ps : List (OptionalParameter Function)} {slots : List Variable}
    {literals : List (Literal Template)} (h : Initialized scope ps slots literals)
    {p : OptionalParameter Function} (hp : ∀ q ∈ ps, q.slot ≠ p.slot)
    (hlt : p.slot < scope.bindings.length) {default : Option Nat}
    (hd : Option.Rel (TemplateAt literals) default p.default) :
    Initialized scope (ps ++ [p])
      (slots.modify p.slot fun v => { v with initializer := default }) literals where
  same := by
    rw [← h.same]
    refine List.ext_getElem? fun i => ?_
    simp only [List.getElem?_map, List.getElem?_modify, Option.map_eq_map, Option.map_map]
    refine congrArg (Option.map · slots[i]?) (funext fun v => ?_)
    simp only [Function.comp]
    split <;> rfl
  given q hq := by
    obtain hq | hq := List.mem_append.mp hq
    · obtain ⟨v, hv, hd⟩ := h.given q hq
      exact ⟨v, by rw [List.getElem?_modify_ne _ _ (hp q hq).symm, hv], hd⟩
    · obtain rfl := List.mem_singleton.mp hq
      have hlength : q.slot < slots.length := h.length ▸ hlt
      refine ⟨{ slots[q.slot] with initializer := default }, ?_, hd⟩
      rw [List.getElem?_modify_eq, List.getElem?_eq_getElem hlength]
      rfl
  missing i v hv hq := by
    obtain ⟨hps, hp⟩ := List.forall_mem_append.mp hq
    rw [List.getElem?_modify_ne _ _ (hp p List.mem_cons_self)] at hv
    exact h.missing i v hv hps

theorem initializer_keeps (h : inner.Correct n) {ps : List (OptionalParameter Function)}
    {slots : List Variable} {p : OptionalParameter Function} (hb : b.Valid scope outer)
    (hps : Initialized scope ps slots b.literals.toList) (hp : ∀ q ∈ ps, q.slot ≠ p.slot)
    (hlt : p.slot < scope.bindings.length)
    (hd : ∀ d, p.default = some d → d.height ≤ n ∧ d.Scoped (scope :: outer)) :
    Generates b (inner.initializer slots p) fun slots c => c.free = b.free ∧
      c.Valid scope outer ∧ Initialized scope (ps ++ [p]) slots c.literals.toList := by
  unfold initializer
  cases hdefault : p.default with
  | none =>
    have hmodify : slots.modify p.slot (fun v => { v with initializer := none }) = slots := by
      refine List.ext_getElem? fun i => ?_
      by_cases hi : p.slot = i
      · subst hi
        rw [List.getElem?_modify_eq]
        cases hv : slots[p.slot]? with
        | none => rfl
        | some v =>
          rw [← hps.missing p.slot v hv hp]
          rfl
      · rw [List.getElem?_modify_ne _ _ hi]
    refine .pure (.refl b) ⟨rfl, hb, ?_⟩
    have hnone : Option.Rel (TemplateAt b.literals.toList) none p.default := hdefault ▸ .none
    have happend := hps.append hp hlt hnone
    rwa [hmodify] at happend
  | some d =>
    obtain ⟨hheight, hsc⟩ := hd d hdefault
    dsimp only
    cases hf : inner.function d with
    | error e => exact .throw (.refl b) (h.error hheight hsc hf)
    | ok t =>
      have ht := h.template hheight hf
      refine Keeps.bind (pushLiteral_keeps hb (l := .template t) ?_) fun index c hbc hc => ?_
      · rintro _ ⟨⟩
        exact ⟨d, hsc, ht⟩
      obtain ⟨hfree, hv, hl, -⟩ := hc
      rw [if_pos (hps.length ▸ hlt)]
      refine .pure (.refl c) ?_
      refine ⟨hfree, hv, (hps.grows hbc.literals).append hp hlt ?_⟩
      rw [hdefault]
      exact .some ⟨t, Array.getElem?_toList.trans hl, ht⟩

theorem initializers_keeps (h : inner.Correct n) {done rest : List (OptionalParameter Function)}
    {slots : List Variable} (hb : b.Valid scope outer)
    (hdone : Initialized scope done slots b.literals.toList)
    (hnodup : ((done ++ rest).map OptionalParameter.slot).Nodup)
    (hlt : ∀ p ∈ rest, p.slot < scope.bindings.length)
    (hd : ∀ p ∈ rest, ∀ d, p.default = some d → d.height ≤ n ∧ d.Scoped (scope :: outer)) :
    Generates b (rest.foldlM inner.initializer slots) fun slots c => c.free = b.free ∧
      c.Valid scope outer ∧ Initialized scope (done ++ rest) slots c.literals.toList := by
  induction rest generalizing done slots b with
  | nil =>
    rw [List.append_nil]
    exact .pure (.refl b) ⟨rfl, hb, hdone⟩
  | cons p rest ih =>
    obtain ⟨hp, hlt⟩ := List.forall_mem_cons.mp hlt
    obtain ⟨hdp, hd⟩ := List.forall_mem_cons.mp hd
    have hnew : ∀ q ∈ done, q.slot ≠ p.slot := by
      rw [List.map_append, List.nodup_append] at hnodup
      exact fun q hq => hnodup.2.2 _ (List.mem_map_of_mem hq) _ List.mem_cons_self
    rw [List.foldlM_cons]
    refine Keeps.bind (initializer_keeps h hb hdone hnew hp hdp) fun slots c hbc hc => ?_
    obtain ⟨hf, hv, hslots⟩ := hc
    have hsplit : done ++ p :: rest = done ++ [p] ++ rest := by simp
    rw [hsplit] at hnodup ⊢
    rw [← hf]
    exact ih hv hslots hnodup hlt hd

/-- The body of a procedure as code for all of it. -/
theorem procedureBody_made (h : inner.Correct n) (hf : f.Scoped outer)
    (hb : b.Valid f.scope outer) (he : f.body.height ≤ n) :
    Generates b (inner.procedureBody f.scope f) fun code c => c.Valid f.scope outer ∧
      code.Closed ∧ code.Works 0 (c.room f.scope) fun σ : Setting f.scope outer =>
        σ.Returns (σ.evaluate true f.body) code := by
  have hreturn {i : Instruction} {room : Room} (ho : i.opcode = .return)
      (hr : i.b = 2 → i.a.val < room.frameSize) : Code.Fits [⟨i, f.location⟩] 0 room := by
    refine Code.fits_line (Instruction.fits_of_registers (by simp [ho]) fun q hq => ?_)
      (Nat.le_of_eq (Instruction.reach_eq_zero (by simp [ho])))
    unfold Instruction.registers at hq
    rw [ho] at hq
    dsimp only at hq
    split at hq
    · rename_i hb
      exact List.mem_singleton.mp hq ▸ hr hb
    · cases hq
  unfold procedureBody
  split
  · rename_i hends
    refine Keeps.bind (h.effect hf.valid hb he hf.body) fun code c _ hm => ?_
    refine Keeps.bind (emit_keeps f.location _) fun line d _ hline => .pure (.refl d) ?_
    obtain ⟨rfl, i, hi, rfl⟩ := hline
    have hi := Instruction.ab_eq_ok hi
    refine ⟨hm.valid, ⟨code, _, rfl, hi.1, hm.works.fits.flows⟩, hm.works.fits.append
      (hreturn hi.1 fun hb => by simp [hi.2.2.1] at hb) (Nat.zero_le _), fun σ hσ => ?_⟩
    rw [σ.evaluate_endsInAssignment f.body hends]
    exact (hm.works.runs σ hσ).returns f.location hi
  · refine Keeps.bind (toRegister_made h hf.valid hb he hf.body) fun p c _ hp => ?_
    obtain ⟨hl, hw⟩ := hp
    refine Keeps.bind (emit_keeps f.location _) fun line d _ hline => .pure (.refl d) ?_
    obtain ⟨rfl, i, hi, rfl⟩ := hline
    have hi := Instruction.ab_eq_ok hi
    refine ⟨hl.valid, ⟨p.1, _, rfl, hi.1, hw.fits.flows⟩, hw.fits.append (hreturn hi.1 fun _ => ?_)
      (Nat.zero_le _), fun σ hσ => (hw.runs σ hσ).returns f.location hi⟩
    rw [hi.2.1]
    exact Nat.lt_of_lt_of_le hl.lt_free hl.valid.free_le

/-- What the parts of the template of a procedure are. -/
structure PartsMade (f : Function) (outer : List Scope) (slots : List Variable) (code : Code)
    (c : Builder) : Prop where
  valid : c.Valid f.scope outer
  initialized : Initialized f.scope (f.parameters.optional ++ f.parameters.keys) slots
    c.literals.toList
  closed : code.Closed
  works : code.Works 0 (c.room f.scope) fun σ : Setting f.scope outer =>
    σ.Returns (σ.evaluate true f.body) code

theorem procedureParts_made (h : inner.Correct n) (hf : f.Scoped outer)
    (hheight : f.height ≤ n + 1) :
    Generates (.start f.scope.registers) (inner.procedureParts f) fun p c =>
      PartsMade f outer p.1 p.2 c := by
  obtain ⟨hdefaults, hbody⟩ := Function.height_le.mp hheight
  have hstart : (Builder.start f.scope.registers).Valid f.scope outer :=
    Builder.valid_start hf.valid.registers_le outer
  refine Keeps.bind (describe_keeps hf.valid) fun slots c _ hslots => ?_
  obtain ⟨rfl, rfl⟩ := hslots
  have hnone : Initialized f.scope [] (f.scope.bindings.map Binding.variable)
      (Builder.start f.scope.registers).literals.toList := by
    refine ⟨?_, by simp, fun i v hv _ => ?_⟩
    · rw [List.map_map]
      rfl
    · rw [List.getElem?_map, Option.map_eq_some_iff] at hv
      obtain ⟨x, -, rfl⟩ := hv
      rfl
  refine Keeps.bind (initializers_keeps h hstart hnone hf.declared.slots_nodup
    (fun p hp => hf.declared.slot_lt hp)
    fun p hp d hd => ⟨hdefaults p hp d hd, hf.default hp hd⟩) fun slots c _ hslots => ?_
  obtain ⟨-, hv, hinitialized⟩ := hslots
  refine Keeps.bind (procedureBody_made h hf hv hbody) fun code d hcd hcode => .pure (.refl d) ?_
  exact ⟨hcode.1, hinitialized.grows hcd.literals, hcode.2.1, hcode.2.2⟩

/-- Code for expressions of any height. -/
theorem correct_within (n : Nat) : (within n).Correct n := by
  induction n with
  | zero =>
    have hexpr {e : Expr} (he : e.height ≤ 0) : False :=
      Nat.lt_irrefl 0 (Nat.lt_of_lt_of_le e.height_pos he)
    have hfunction {f : Function} (hf : f.height ≤ 0) : False :=
      Nat.lt_irrefl 0 (Nat.lt_of_lt_of_le f.height_pos hf)
    exact ⟨fun _ _ he _ _ _ => (hexpr he).elim, fun _ _ he _ _ _ => (hexpr he).elim,
      fun _ _ he _ => (hexpr he).elim, fun hf _ => (hfunction hf).elim,
      fun hf _ _ => (hfunction hf).elim⟩
  | succ n ih =>
    refine ⟨fun hs hb he hsc ht hr => lowerInto_made ih hs hb he hsc ht hr,
      fun hs hb he hsc hd hr =>
        lowerInto_settles ih hs hb he hsc hd (Nat.lt_of_lt_of_le hr hb.free_le),
      fun hs hb he hsc => lowerEffect_made ih hs hb he hsc, fun hf ht => ?_, fun hf hsc he => ?_⟩
    · rw [← ht, within_function hf]
    · obtain ⟨b, hb⟩ := lowerFunction_eq_error he
      exact ((procedureParts_made ih hsc hf).of_error hb).2

end Lowering

end RegisterScheme
