import RegisterScheme.Proofs.Simulation.Operands
import RegisterScheme.Proofs.Template.Building
import RegisterScheme.Proofs.Template.Fitting

/-! Code as it is generated: it fits the room there is by then, and does its work in every setting
with at least that room. First the code that loads constants and variables. -/

namespace RegisterScheme

/-- Code that fits and does its work wherever there is as much room. -/
structure Code.Works {scope : Scope} {outer : List Scope} (after : Nat) (room : Room) (code : Code)
    (A : Setting scope outer → Prop) : Prop where
  fits : code.Fits after room
  runs : ∀ σ : Setting scope outer, room.Within σ.room → A σ

/-- Code that was generated without keeping temporaries. -/
structure Builder.Made {scope : Scope} {outer : List Scope} (free after : Nat) (code : Code)
    (A : Setting scope outer → Prop) (b : Builder) : Prop where
  free : b.free = free
  valid : b.Valid scope outer
  works : code.Works after (b.room scope) A

namespace Code.Works

variable {scope : Scope} {outer : List Scope} {n m : Nat} {room : Room} {xs ys : Code}
  {A B C : Setting scope outer → Prop}

theorem grows {b c : Builder} (h : xs.Works n (b.room scope) A) (hg : b.Grows c) :
    xs.Works n (c.room scope) A :=
  ⟨h.fits.mono (hg.within scope), fun σ hσ => h.runs σ ((hg.within scope).trans hσ)⟩

theorem imp (h : xs.Works n room A) (hA : ∀ σ, room.Within σ.room → A σ → B σ) :
    xs.Works n room B :=
  ⟨h.fits, fun σ hσ => hA σ hσ (h.runs σ hσ)⟩

theorem append (hx : xs.Works n room A) (hy : ys.Works m room B) (hn : n ≤ ys.length + m)
    (h : ∀ σ, room.Within σ.room → A σ → B σ → C σ) : (xs ++ ys).Works m room C :=
  ⟨hx.fits.append hy.fits hn, fun σ hσ => h σ hσ (hx.runs σ hσ) (hy.runs σ hσ)⟩

end Code.Works

@[simp] theorem Builder.room_frameSize (scope : Scope) (b : Builder) :
    (b.room scope).frameSize = b.used := rfl

theorem Builder.literal_of_within {scope : Scope} {outer : List Scope} {b : Builder}
    {σ : Setting scope outer} (hσ : (b.room scope).Within σ.room) {index : Nat}
    {l : Literal Template} (h : b.literals[index]? = some l) :
    σ.template.literals[index]? = some l := by
  rw [← Array.getElem?_toList] at h
  exact hσ.getElem? h

namespace Setting

variable {scope : Scope} {outer : List Scope}

/-- Code that leaves a value in a register, be it a temporary or that of a variable. -/
def Settles (σ : Setting scope outer) (r : Register) (x : Evaluating Value) (code : Code) : Prop :=
  ∀ w s, σ.Ready w s → σ.Runs (· ≠ r.val) w s (x >>= σ.settle r) code 0 (σ.Result r)

theorem Settles.computes {σ : Setting scope outer} {r : Register} {x : Evaluating Value}
    {code : Code} (h : σ.Settles r x code) (hr : scope.registers ≤ r.val) (first : Nat) :
    σ.Computes first r x code := by
  intro w s hw
  have hrun := h w s hw
  have hset : σ.settle r = pure := funext fun v => settle_temporary hr v
  rw [hset, bind_pure] at hrun
  exact hrun.mono (fun _ _ hi => hi.2) fun _ _ _ _ _ hq => hq

end Setting

namespace Generating

open Lowering

variable {scope : Scope} {outer : List Scope} {b : Builder} {r : Register}
  {location : Option Location}

theorem emit_made {i : Except Overrun Instruction} {after : Nat}
    {A : Code → Setting scope outer → Prop} (hb : b.Valid scope outer)
    (h : ∀ i', i = .ok i' → i'.Fits (b.room scope) ∧ i'.reach ≤ after ∧
      ∀ σ, (b.room scope).Within σ.room → A [⟨i', location⟩] σ) :
    Generates b (emit location i) fun code c => c.Made b.free after code (A code) := by
  refine (emit_keeps location i).mono fun code c _ hc => ?_
  obtain ⟨rfl, i', hi, rfl⟩ := hc
  obtain ⟨hfits, hreach, hA⟩ := h i' hi
  exact ⟨rfl, hb, Code.fits_line hfits hreach, hA⟩

theorem loadNil_made (hb : b.Valid scope outer) (hr : r.val < b.used) :
    Generates b (loadNil r location) fun code c =>
      c.Made b.free 0 code fun σ : Setting scope outer => σ.Settles r (pure .nil) code := by
  refine emit_made hb fun i hi => ?_
  have hi := Instruction.ab_eq_ok hi
  refine ⟨Instruction.fits_loadNil hi.1 ?_ ?_, ?_, fun σ hσ w s hw => ?_⟩
  · rw [hi.2.1, hi.2.2.1]
  · rwa [hi.2.1]
  · exact Nat.le_of_eq (Instruction.reach_eq_zero (by simp [hi.1]))
  · rw [pure_bind]
    exact (Setting.loadNil_runs location hi hw (Nat.lt_of_lt_of_le hr hσ.frameSize)).imp
      fun u k w' s' _ h => h.1 ▸ h.2

/-- A truth value, with the next line skipped if so wanted. -/
theorem loadBoolean_made (hb : b.Valid scope outer) (hr : r.val < b.used) (v skip : Bool) :
    Generates b (loadBoolean r v skip.toNat location) fun code c =>
      c.Made b.free skip.toNat code fun σ : Setting scope outer => ∀ w s, σ.Ready w s →
        σ.Runs (· ≠ r.val) w s (σ.settle r (.boolean v)) code 0 fun u k _ s' =>
          u = .boolean v ∧ k = skip.toNat ∧ σ.Holds s' r (.boolean v) := by
  refine emit_made hb fun i hi => ?_
  have hi := Instruction.abc_eq_ok hi
  refine ⟨Instruction.fits_of_registers (by simp [hi.1]) ?_, ?_, fun σ hσ w s hw => ?_⟩
  · simpa [Instruction.registers, hi.1, hi.2.1] using hr
  · cases skip <;> simp [Instruction.reach, hi.1, hi.2.2.2]
  · exact (Setting.loadBoolean_runs location hi hw (Nat.lt_of_lt_of_le hr hσ.frameSize)).imp
      fun u k w' s' _ h => ⟨h.1, h.2.1, h.2.2.1⟩

theorem loadConstant_made (location : Option Location) (hb : b.Valid scope outer) (hr : r.val < b.used) {index : Nat}
    {l : Literal Template} {v : Value} (hl : b.literals[index]? = some l)
    (hv : l = .unspecified ∧ v = .unspecified ∨ ∃ q, l = .quotation q ∧ v = .ofQuotation q) :
    Generates b (emit location (Instruction.abx .loadConstant r index)) fun code c =>
      c.Made b.free 0 code fun σ : Setting scope outer => σ.Settles r (pure v) code := by
  refine emit_made hb fun i hi => ?_
  have hi := Instruction.abx_eq_ok hi
  refine ⟨Instruction.fits_loadConstant hi.1 ?_ ?_, ?_, fun σ hσ w s hw => ?_⟩
  · rwa [hi.2.1]
  · rw [hi.2.2]
    rw [← Array.getElem?_toList] at hl
    obtain ⟨rfl, -⟩ | ⟨q, rfl, -⟩ := hv
    · exact .inr hl
    · exact .inl ⟨q, hl⟩
  · exact Nat.le_of_eq (Instruction.reach_eq_zero (by simp [hi.1]))
  · rw [pure_bind]
    exact (Setting.loadConstant_runs location hi hw (Builder.literal_of_within hσ hl) hv
      (Nat.lt_of_lt_of_le hr hσ.frameSize)).imp fun u k w' s' _ h => h.1 ▸ h.2

theorem loadUnspecified_made (hb : b.Valid scope outer) (hr : r.val < b.used) :
    Generates b (loadUnspecified r location) fun code c =>
      c.Made b.free 0 code fun σ : Setting scope outer => σ.Settles r (pure .unspecified) code := by
  refine Keeps.bind (unspecified_keeps hb) fun index c hc h => ?_
  obtain ⟨hf, hv, hi⟩ := h
  have hmade := loadConstant_made location hv
    (Nat.lt_of_lt_of_le hr hc.used) hi (.inl ⟨rfl, rfl⟩)
  rwa [hf] at hmade

/-- Atoms of one kind are the same value wherever their objects would begin. -/
theorem ofQuotation_congr {p q : Quotation} (hd : p.datum = q.datum)
    (h : p = q ∨ ∃ a, q.datum = .atom a) : Value.ofQuotation p = Value.ofQuotation q := by
  obtain rfl | ⟨a, ha⟩ := h
  · rfl
  · rw [Value.ofQuotation, Value.ofQuotation, hd, ha]
    rfl

theorem loadQuotation_made (hb : b.Valid scope outer) (hr : r.val < b.used) (q : Quotation) :
    Generates b (loadQuotation r q location) fun code c =>
      c.Made b.free 0 code fun σ : Setting scope outer => σ.Settles r (pure (.ofQuotation q)) code := by
  unfold loadQuotation
  split
  · rename_i hd
    have hv : Value.ofQuotation q = .nil := by rw [Value.ofQuotation, hd]; rfl
    rw [hv]
    exact loadNil_made hb hr
  · rename_i v hd
    have hv : Value.ofQuotation q = .boolean v := by rw [Value.ofQuotation, hd]; rfl
    rw [hv]
    refine (loadBoolean_made hb hr v false).mono fun code c _ h => ⟨h.free, h.valid, ?_⟩
    refine h.works.imp fun σ _ hrun w s hw => ?_
    rw [pure_bind]
    refine (hrun w s hw).imp fun u k w' s' _ h => ?_
    obtain ⟨rfl, hk, hh⟩ := h
    exact ⟨hk, hh, Setting.built_atom _⟩
  · refine Keeps.bind (literal_keeps hb q) fun index c hc h => ?_
    obtain ⟨hf, hv, p, hp, hd, hpq⟩ := h
    have hmade := loadConstant_made location hv
      (Nat.lt_of_lt_of_le hr hc.used) hp (.inr ⟨p, rfl, rfl⟩)
    rwa [ofQuotation_congr hd hpq, hf] at hmade

theorem slotOperand_bind_eq_ok {slot : Nat} {f : Nat → Except Overrun Instruction}
    {i : Instruction} (h : slotOperand slot >>= f = .ok i) : f slot = .ok i := by
  unfold slotOperand at h
  split at h
  · exact h
  · cases h

/-- A variable already in its place. -/
theorem settles_self {σ : Setting scope outer} (hr : r.val < scope.registers) :
    σ.Settles r
      (do Evaluating.read (← Evaluating.place σ.here.address scope (.localVariable r))) [] := by
  intro w s hw
  obtain ⟨e, he, -⟩ := hw.environment
  refine .of_ok (a := e.values r) (v := w) (t := s) ?_ rfl (.refl hw.agrees)
    ⟨rfl, hw.holds_variable he hr, hw.agrees.valid.values _ e r he⟩
  change (Evaluating.read (.register σ.here.address r) >>= σ.settle r) w = _
  rw [bind_of_ok (Evaluating.read_register_eq he r), Setting.settle, if_pos hr,
    bind_of_ok (Evaluating.write_register_eq he r _), World.set_self he]
  rfl

/-- The value of a variable. -/
theorem loadVariable_made (hs : scope.Valid) (hb : b.Valid scope outer) (hr : r.val < b.used)
    {name : String} {v : VariableRef} (hv : v.Names name (scope :: outer)) :
    Generates b (loadVariable scope r v location) fun code c =>
      c.Made b.free 0 code fun σ : Setting scope outer =>
        σ.Settles r (do Evaluating.read (← Evaluating.place σ.here.address scope v)) code := by
  obtain ⟨_, hscope, hv⟩ := hv
  obtain rfl := Option.some.inj hscope
  cases v with
  | localVariable source =>
    have hlt := hs.holds_lt hv
    unfold loadVariable
    by_cases hsr : source = r
    · subst hsr
      dsimp only
      rw [if_pos rfl]
      exact .pure (.refl b) ⟨rfl, hb, Code.fits_nil, fun σ _ => settles_self hlt⟩
    · dsimp only
      rw [if_neg hsr]
      refine emit_made hb fun i hi => ?_
      have hi := Instruction.ab_eq_ok hi
      refine ⟨Instruction.fits_of_registers (by simp [hi.1]) ?_,
        Nat.le_of_eq (Instruction.reach_eq_zero (by simp [hi.1])), fun σ hσ w s hw => ?_⟩
      · have hsource : source.val < b.used :=
          Nat.lt_of_lt_of_le hlt (Nat.le_trans hb.registers_le hb.free_le)
        simp [Instruction.registers, hi.1, hi.2.1, hi.2.2.1, hr, hsource]
      · obtain ⟨e, he, -⟩ := hw.environment
        have hread : (do Evaluating.read (← Evaluating.place σ.here.address scope
            (.localVariable source)) : Evaluating Value) w = .ok (e.values source) w :=
          Evaluating.read_register_eq he source
        refine Simulates.congr_left (bind_of_ok hread).symm ?_
        exact (Setting.move_runs location hi hw (hw.holds_variable he hlt)
          (hw.agrees.valid.values _ e source he) (Nat.lt_of_lt_of_le hr hσ.frameSize)).imp
          fun u k w' s' _ h => h.1 ▸ h.2
  | captured slot =>
    obtain ⟨distance, q, hslot⟩ := hv
    refine emit_made hb fun i hi => ?_
    have hi := Instruction.ab_eq_ok (slotOperand_bind_eq_ok hi)
    refine ⟨Instruction.fits_captured (.inl hi.1) (by rwa [hi.2.1]) ?_,
      Nat.le_of_eq (Instruction.reach_eq_zero (by simp [hi.1])), fun σ hσ w s hw => ?_⟩
    · refine ⟨distance, q, ?_⟩
      rw [hi.2.2.1]
      exact (List.getElem?_map).trans (congrArg _ hslot)
    · have hrun := Setting.getCaptured_runs location hi hw hσ.kinds.symm hslot
        (Nat.lt_of_lt_of_le hr hσ.frameSize)
      rwa [← bind_assoc] at hrun
  | global slot =>
    refine Keeps.bind (globalName_keeps hb hv) fun index c hc h => ?_
    obtain ⟨hf, hvalid, first, hl⟩ := h
    rw [← hf]
    refine emit_made hvalid fun i hi => ?_
    have hi := Instruction.abx_eq_ok hi
    refine ⟨Instruction.fits_global (.inl hi.1) ?_ ?_,
      Nat.le_of_eq (Instruction.reach_eq_zero (by simp [hi.1])), fun σ hσ w s hw => ?_⟩
    · rw [hi.2.1]
      exact Nat.lt_of_lt_of_le hr hc.used
    · refine ⟨first, name, ?_⟩
      rw [hi.2.2]
      exact Array.getElem?_toList.trans hl
    · have hrun := Setting.getGlobal_runs location hi hw hv (Builder.literal_of_within hσ hl)
        (Nat.lt_of_lt_of_le (Nat.lt_of_lt_of_le hr hc.used) hσ.frameSize)
      rwa [← bind_assoc] at hrun

theorem jump_keeps (lines : Nat) :
    Generates b (jump location lines) fun code c => c = b ∧ code.Jump lines := by
  unfold jump
  refine (emit_keeps location _).mono fun code c _ h => ?_
  obtain ⟨rfl, i, hi, rfl⟩ := h
  obtain ⟨ho, -, hd⟩ := Instruction.asbx_eq_ok hi
  exact ⟨rfl, i, location, rfl, ho, hd⟩

/-- The lines of pieces with a jump behind each. -/
def linesWithExits (last : Code) : List Code → Nat
  | [] => last.length
  | piece :: pieces => piece.length + 1 + linesWithExits last pieces

theorem withExits_keeps {last : Code} {pieces : List Code} {lines : Nat}
    (hl : lines = linesWithExits last pieces) :
    Generates b (withExits location last lines pieces) fun code c =>
      c = b ∧ Code.Exits last pieces code ∧ code.length = lines := by
  induction pieces generalizing lines with
  | nil => exact .pure (.refl b) ⟨rfl, .last, by simp [hl, linesWithExits]⟩
  | cons piece pieces ih =>
    have hrest : lines - (piece.length + 1) = linesWithExits last pieces := by
      rw [hl, linesWithExits, Nat.add_sub_cancel_left]
    rw [withExits]
    refine Keeps.bind (jump_keeps _) fun exit c _ h => ?_
    obtain ⟨rfl, hj⟩ := h
    refine Keeps.bind (ih hrest) fun rest c _ h => ?_
    obtain ⟨rfl, he, hlen⟩ := h
    rw [← hlen] at hj
    refine .pure (.refl c) ⟨rfl, ?_, ?_⟩
    · rw [List.append_assoc]
      exact .piece hj he
    · rw [linesWithExits] at hl
      rw [List.length_append, List.length_append, hj.length, hlen]
      omega

theorem joined_keeps (last : Code) (pieces : List Code) :
    Generates b (joined location pieces last) fun code c =>
      c = b ∧ Code.Exits last pieces code := by
  have hfold (n : Nat) : pieces.foldl (fun n piece => n + (piece.length + 1)) (last.length + n) =
      linesWithExits last pieces + n := by
    induction pieces generalizing n with
    | nil => rfl
    | cons piece pieces ih =>
      rw [List.foldl_cons, Nat.add_assoc, ih, linesWithExits]
      omega
  exact (withExits_keeps (hfold 0)).mono fun code c _ h => ⟨h.1, h.2.1⟩

end Generating

namespace Code

theorem Jump.fits {lines after : Nat} {code : Code} {room : Room} (h : code.Jump lines)
    (hl : lines ≤ after) : code.Fits after room := by
  obtain ⟨i, location, rfl, ho, hd⟩ := h
  refine fits_line (Instruction.fits_jump ho (hd ▸ Int.natCast_nonneg lines)) ?_
  simpa [Instruction.reach, ho, hd] using hl

/-- Pieces that fit together with their jumps. -/
theorem Exits.fits {last code : Code} {pieces : List Code} {after : Nat} {room : Room}
    (h : Exits last pieces code) (hp : ∀ piece ∈ pieces, piece.Fits 1 room)
    (hl : last.Fits after room) : code.Fits after room := by
  induction h with
  | last => exact hl
  | piece jump _ ih =>
    obtain ⟨hpiece, hp⟩ := List.forall_mem_cons.mp hp
    have hrest := ih hp
    refine hpiece.append ((jump.fits (Nat.le_refl _)).append hrest ?_) ?_
    · exact Nat.le_add_right _ _
    · rw [List.length_append, jump.length]
      omega

end Code

end RegisterScheme
