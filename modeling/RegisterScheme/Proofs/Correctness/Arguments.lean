import RegisterScheme.Proofs.Generation.Template
import RegisterScheme.Proofs.Machine.Binding

/-! How a call begins: arguments go to the variables that the parameters are, and defaults are
computed for those without an argument. -/

namespace RegisterScheme

/-- One step after the other for two lists that correspond. -/
theorem Simulates.forIn {α β : Type} {m : Machine} {N : Nat → Prop} {K : Nat → Nat → Prop}
    {l : List α} {u : List β} {f : α → PUnit → Evaluating (ForInStep PUnit)}
    {g : β → PUnit → Running (ForInStep PUnit)} {R : α → β → Prop} {I : World → Store → Prop}
    (h : List.Forall₂ R l u)
    (hstep : ∀ a b w s, R a b → I w s → Simulates m N K w s (f a ⟨⟩) (g b ⟨⟩) fun x y w' s' =>
      x = .yield ⟨⟩ ∧ y = .yield ⟨⟩ ∧ I w' s')
    (hI : ∀ w s, I w s → s.Agrees N w) {w : World} {s : Store} (hi : I w s) :
    Simulates m N K w s (ForIn.forIn l ⟨⟩ f) (ForIn.forIn u ⟨⟩ g) fun _ _ w' s' => I w' s' := by
  induction h generalizing w s with
  | nil => exact .pure (hI w s hi) hi
  | @cons a b l u hab _ ih =>
    rw [List.forIn_cons, List.forIn_cons]
    refine .bind (hstep a b w s hab hi) fun x y w' s' _ hxy => ?_
    obtain ⟨rfl, rfl, hi'⟩ := hxy
    exact ih hi'

/-- A new closure of a procedure and of its template. -/
theorem newClosure_simulates {m : Machine} {N : Nat → Prop} {K : Nat → Nat → Prop} {w : World}
    {s : Store} (hs : s.Agrees N w) {f : Function} {t : Template} {parent : Option Nat}
    {outer : List Scope} (ht : f.template = .ok t) (ho : w.Encloses parent outer)
    (hf : f.Scoped outer) :
    Simulates m N K w s (Evaluating.newClosure f parent) (Running.newClosure t parent)
      fun c c' w' _ => c' = c ∧ w'.Known c := by
  refine .of_ok (a := ⟨w.procedures.size, t, parent⟩) (v := w.addClosure f parent)
    (t := s.addClosure) (b := ⟨w.procedures.size, t, parent⟩) ?_ ?_
    ⟨hs.addClosure f parent, w.grows_addClosure .., fun _ _ _ _ _ _ => rfl⟩
    ⟨rfl, World.known_addClosure ht ho hf⟩
  · rw [Evaluating.newClosure, ht]
    rfl
  · rw [← hs.caches_size]
    rfl

namespace Setting

variable {scope : Scope} {outer : List Scope} {σ : Setting scope outer} {w : World} {s : Store}
  {r : Register} {v : Value}

/-- Giving a variable a value. -/
theorem write_simulates (hw : σ.Ready w s) (hv : σ.Built w v) (hr : r.val < scope.registers)
    (hsize : r.val < σ.room.frameSize) :
    Simulates σ.machine σ.natives (σ.kept fun _ => False) w s
      (Evaluating.write (.register σ.here.address r) v)
      (Running.setRegister σ.here.address r v) fun _ _ _ _ => True := by
  obtain ⟨w', hx, hset, hm, -⟩ := put_eq hw hv hsize
  rw [settle, if_pos hr] at hx
  obtain ⟨e, he, -⟩ := hw.environment
  have hwrite := Evaluating.write_register_eq he r v
  rw [bind_of_ok hwrite] at hx
  cases hx
  exact .of_ok hwrite hset (hm.mono fun _ _ hk ha hi => (hk ha hi).elim) trivial

/-- Registers below the temporaries are those of variables, and lie in the frame. -/
theorem register_lt {f : Function} {t : Template} {σ : Setting f.scope outer}
    (hr : t.Renders f outer) (hσ : σ.template = t) {q : Register} (hq : q.val < t.tempBase) :
    q.val < f.scope.registers ∧ q.val < σ.room.frameSize := by
  refine ⟨hr.tempBase ▸ hq, ?_⟩
  rw [Setting.room, hσ]
  exact Nat.lt_of_lt_of_le hq hr.tempBase_le

/-- The defaults of missing arguments are computed in turn, each in the frame as it then is. -/
theorem defaults_simulate {f : Function} {t : Template} {σ : Setting f.scope outer}
    (hr : t.Renders f outer) (hσ : σ.template = t)
    {run : Closure → Evaluating Value} {run' : Closure → Running Value}
    (hrun : ∀ w s c, s.Agrees σ.natives w → w.Known c →
      Simulates σ.machine σ.natives (fun _ _ => True) w s (run c) (run' c) fun v u w' _ =>
        u = v ∧ σ.Built w' v)
    {defaults : List (Register × Function)} {indices : List (Register × Nat)}
    (h : List.Forall₂ (fun a b => b ∈ indices ∧ b.1 = a.1 ∧ f.DefaultAt outer t.literals b.2 a.2)
      defaults indices)
    (hwithin : ∀ p ∈ indices, p.1.val < t.tempBase) (hw : σ.Ready w s) :
    Simulates σ.machine σ.natives (σ.kept fun _ => False) w s
      (do
        for (r, default) in defaults do
          Evaluating.write (.register σ.here.address r)
            (← run (← Evaluating.newClosure default (some σ.here.address))))
      (do
        for (r, index) in indices do
          let default ← Running.ofExcept ((t.nested index).mapError .fault)
          Running.setRegister σ.here.address r
            (← run' (← Running.newClosure default σ.here.address)))
      fun _ _ _ _ => True := by
  refine .bind (Simulates.forIn (I := σ.Ready) h ?_ (fun _ _ h => h.agrees) hw)
    fun _ _ w' s' _ h => .pure h.agrees trivial
  rintro ⟨q, default⟩ ⟨q', index⟩ w s ⟨hmem, hq, ⟨u, hu, hdu⟩, hscoped⟩ hw
  obtain rfl : q' = q := hq
  obtain ⟨hreg, hsize⟩ := register_lt hr hσ (hwithin _ hmem)
  have hnested : Running.ofExcept ((t.nested index).mapError .fault) s = .ok u s := by
    rw [Template.nested, hu]
    rfl
  refine .right hnested (.refl hw.agrees) ?_
  refine .bind (newClosure_simulates hw.agrees hdu hw.encloses hscoped) fun c c' w₁ s₁ hm₁ hc => ?_
  obtain ⟨rfl, hknown⟩ := hc
  refine .bind ((hrun w₁ s₁ c' hm₁.agrees hknown).mono (fun _ _ _ => trivial)
    fun _ _ _ _ _ hq => hq) fun v u w₂ s₂ hm₂ hv => ?_
  obtain ⟨rfl, hv⟩ := hv
  have hw₂ := (hw.moves hm₁).moves hm₂
  refine .bind (write_simulates hw₂ hv hreg hsize) fun _ _ w₃ s₃ hm₃ _ => ?_
  exact .pure hm₃.agrees ⟨rfl, rfl, hw₂.moves hm₃⟩

/-- The arguments and the defaults of a call in the variables of a new activation. -/
theorem bindArguments_simulates {f : Function} {t : Template} {σ : Setting f.scope outer}
    (hr : t.Renders f outer) (hσ : σ.template = t) {args : List Value}
    {run : Closure → Evaluating Value} {run' : Closure → Running Value}
    (hrun : ∀ w s c, s.Agrees σ.natives w → w.Known c →
      Simulates σ.machine σ.natives (fun _ _ => True) w s (run c) (run' c) fun v u w' _ =>
        u = v ∧ σ.Built w' v)
    (hw : σ.Ready w s) (hargs : ∀ v ∈ args, σ.Built w v) :
    Simulates σ.machine σ.natives (σ.kept fun _ => False) w s
      (Evaluating.bindArguments run σ.here.address f args)
      (Running.bindArguments run' σ.here args) fun _ _ _ _ => True := by
  obtain rfl : σ.here.closure.template = t := hσ
  unfold Evaluating.bindArguments Running.bindArguments
  dsimp only
  have hk := Template.unmarked?_eq_none hr.marks args
  obtain ⟨e, he, he'⟩ | ⟨x, y, hx, hy, hxy⟩ := Dealing.ofArguments_matches hr.formals args
  · rw [Running.deal_of_error hk he, he', hr.arity, hr.displayName]
    exact .throw hw.agrees (.inl trivial)
  have hwithin := Dealing.ofArguments_within hr.within hx
  have hlt {q : Register} (hq : q.val < σ.here.closure.template.tempBase) := register_lt hr rfl hq
  rw [Running.deal_of_ok hk hx, hy, pure_bind]
  dsimp only
  rw [hxy.values.symm, hxy.rest.symm]
  have hdefaults (w : World) (s : Store) (hw : σ.Ready w s) :=
    defaults_simulate hr rfl hrun (forall₂_mem_right hxy.defaults.flip) hwithin.defaults hw
  refine .bind (Simulates.forIn (R := fun a b => a = b ∧ a ∈ x.values)
    (I := fun w' s' => σ.Ready w' s' ∧ w.Grows w')
    (List.forall₂_same.mpr fun p hp => ⟨rfl, hp⟩) ?_ (fun _ _ h => h.1.agrees)
    ⟨hw, .refl w⟩) fun _ _ w₁ s₁ _ h₁ => ?_
  · rintro ⟨q, v⟩ _ w' s' ⟨rfl, hmem⟩ ⟨hw', hgrows⟩
    obtain ⟨hq, hv⟩ := hwithin.values _ hmem
    obtain ⟨hreg, hsize⟩ := hlt hq
    refine .bind (write_simulates hw' ((hargs v hv).grows hgrows) hreg hsize)
      fun _ _ w₂ s₂ hm₂ _ => ?_
    exact .pure hm₂.agrees ⟨rfl, rfl, hw'.moves hm₂, hgrows.trans hm₂.grows⟩
  obtain ⟨hw₁, hgrows₁⟩ := h₁
  cases hrest : x.rest with
  | none => exact hdefaults w₁ s₁ hw₁
  | some rest =>
    obtain ⟨q, items⟩ := rest
    obtain ⟨hq, hitems⟩ := hwithin.rest _ hrest
    obtain ⟨hreg, hsize⟩ := hlt hq
    have hlist := Simulates.allocating (m := σ.machine) (K := σ.kept fun _ => False) hw₁.agrees
      (Allocating.gives_list fun v hv => (hargs v (hitems v hv)).grows hgrows₁)
    refine .bind hlist fun v u w₂ s₂ hm₂ hv => ?_
    obtain ⟨rfl, hv, -⟩ := hv
    have hw₂ := hw₁.moves hm₂
    refine .bind (write_simulates hw₂ (Setting.Built.grows hv hm₂.grows) hreg hsize) fun _ _ w₃ s₃ hm₃ _ => ?_
    exact hdefaults w₃ s₃ (hw₂.moves hm₃)

end Setting

end RegisterScheme
