import RegisterScheme.Proofs.Sexpr.Limit
import RegisterScheme.Proofs.Token.Places

/-! Where expressions lie. Every part of an expression that is read lies where a token does, and so
does an error, unless the input ends behind a comment sign where no datum may lie any more. -/

namespace RegisterScheme

/-- All parts of an expression have places with a property. -/
inductive Sexpr.Placed (P : Location → Prop) : Sexpr → Prop
  | literal {a : Atom} {l : Option Location} (place : Somewhere P l) : Placed P (.literal a l)
  | identifier {name : String} {l : Option Location} (place : Somewhere P l) :
      Placed P (.identifier name l)
  | list {items : List Sexpr} {l : Option Location} (place : Somewhere P l)
      (parts : ∀ s ∈ items, Placed P s) : Placed P (.list items l)
  | dotted {items : List Sexpr} {tail : Sexpr} {l : Option Location} (place : Somewhere P l)
      (parts : ∀ s ∈ items, Placed P s) (last : Placed P tail) : Placed P (.dotted items tail l)
  | vector {items : List Sexpr} {l : Option Location} (place : Somewhere P l)
      (parts : ∀ s ∈ items, Placed P s) : Placed P (.vector items l)

theorem Sexpr.Placed.location {P : Location → Prop} {s : Sexpr} (h : s.Placed P) :
    Somewhere P s.location := by
  cases h with
  | literal place | identifier place | list place | dotted place | vector place => exact place

/-- The same for what is read of a form. -/
def OpenForm.Placed (P : Location → Prop) : OpenForm → Prop
  | .quoted _ l _ _ => P l
  | .comment _ => True
  | .list _ l _ items | .vector l _ items => P l ∧ ∀ s ∈ items, s.Placed P
  | .dot _ l _ items place => P l ∧ P place ∧ ∀ s ∈ items, s.Placed P
  | .tail _ l _ items s => P l ∧ s.Placed P ∧ ∀ s ∈ items, s.Placed P

namespace Reader

structure Placed (P : Location → Prop) (r : Reader) : Prop where
  done : ∀ s ∈ r.done, s.Placed P
  pending : ∀ form ∈ r.pending, form.Placed P

variable {P : Location → Prop} {limit : Nat} {r r' : Reader} {t : Token} {e : Malformed}
  {done : List Sexpr} {form : OpenForm} {outer : List OpenForm} {s : Sexpr} {tokens : List Token}

theorem Placed.head (h : Placed P ⟨done, form :: outer⟩) : form.Placed P :=
  h.pending form List.mem_cons_self

theorem Placed.around (h : Placed P ⟨done, form :: outer⟩) : Placed P ⟨done, outer⟩ :=
  ⟨h.done, fun f hf => h.pending f (List.mem_cons_of_mem _ hf)⟩

theorem Placed.opened (h : r.Placed P) (hf : form.Placed P) : (r.opened form).Placed P :=
  ⟨h.done, List.forall_mem_cons.mpr ⟨hf, h.pending⟩⟩

theorem placed_joined {items : List Sexpr} {tail : Sexpr} {l : Location} (hl : P l)
    (hitems : ∀ s ∈ items, s.Placed P) (htail : tail.Placed P) :
    (joined items tail l).Placed P := by
  have hplace : Somewhere P (some l) := ⟨l, rfl, hl⟩
  cases htail with
  | literal place => exact .dotted hplace hitems (.literal place)
  | identifier place => exact .dotted hplace hitems (.identifier place)
  | vector place parts => exact .dotted hplace hitems (.vector place parts)
  | list place parts => exact .list hplace (List.forall_mem_append.mpr ⟨hitems, parts⟩)
  | dotted place parts last =>
    exact .dotted hplace (List.forall_mem_append.mpr ⟨hitems, parts⟩) last

theorem Placed.complete {pending : List OpenForm} (h : Placed P ⟨done, pending⟩)
    (hs : s.Placed P) : (complete done s pending).Placed P := by
  induction pending generalizing s with
  | nil => exact ⟨List.forall_mem_cons.mpr ⟨hs, h.done⟩, h.pending⟩
  | cons form outer ih =>
    cases form with
    | quoted mark l =>
      have hplace : Somewhere P (some l) := ⟨l, rfl, h.head⟩
      refine ih h.around (.list hplace ?_)
      exact List.forall_mem_cons.mpr ⟨.identifier hplace, List.forall_mem_singleton.mpr hs⟩
    | comment => exact h.around
    | list | vector =>
      obtain ⟨hl, hitems⟩ := h.head
      exact h.around.opened ⟨hl, List.forall_mem_cons.mpr ⟨hs, hitems⟩⟩
    | dot =>
      obtain ⟨hl, -, hitems⟩ := h.head
      exact h.around.opened ⟨hl, hs, hitems⟩
    | tail => exact h

theorem Placed.noted (h : r.Placed P) : Placed P ⟨r.done, noted r.pending⟩ := by
  obtain ⟨done, pending⟩ := r
  unfold Reader.noted
  split
  · rename_i hp
    obtain rfl : pending = _ := hp
    exact h.around.opened h.head
  · exact h

theorem Placed.takes (h : r.Placed P) (ht : Takes r t r') (hl : P t.location) : r'.Placed P := by
  have hplace : Somewhere P (some t.location) := ⟨t.location, rfl, hl⟩
  cases ht with
  | datum free begins =>
    unfold begun? at begins
    split at begins
    · cases begins
      exact h.opened ⟨hl, by simp⟩
    · cases begins
      exact h.opened ⟨hl, by simp⟩
    · cases begins
      exact h.opened hl
    · cases begins
      exact h.complete (.literal hplace)
    · cases begins
      exact h.complete (.identifier hplace)
    · cases begins
  | list =>
    obtain ⟨hl, hitems⟩ := h.head
    exact h.around.complete (.list ⟨_, rfl, hl⟩ (by simpa using hitems))
  | tail =>
    obtain ⟨hl, htail, hitems⟩ := h.head
    exact h.around.complete (placed_joined hl (by simpa using hitems) htail)
  | vector =>
    obtain ⟨hl, hitems⟩ := h.head
    exact h.around.complete (.vector ⟨_, rfl, hl⟩ (by simpa using hitems))
  | dot =>
    obtain ⟨hopen, hitems⟩ := h.head
    exact h.around.opened ⟨hopen, hl, hitems⟩
  | comment => exact h.noted.opened trivial

theorem Placed.faulty (h : r.Placed P) (hl : P t.location) (he : Faulty r t e) :
    Somewhere P e.location := by
  rcases he.place with hplace | ⟨b, l, d, items, dot, outer, hp, hplace⟩
  · exact ⟨_, hplace, hl⟩
  · obtain ⟨done, pending⟩ := r
    obtain rfl : pending = _ := hp
    obtain ⟨-, hdot, -⟩ := h.head
    exact ⟨_, hplace, hdot⟩

theorem Placed.foldlM_error (h : r.Placed P) (hl : ∀ t ∈ tokens, P t.location)
    (he : tokens.foldlM (step limit) r = .error e) : Somewhere P e.location := by
  induction tokens generalizing r with
  | nil => cases he
  | cons t tokens ih =>
    obtain ⟨ht, hl⟩ := List.forall_mem_cons.mp hl
    rw [List.foldlM_cons] at he
    rcases error_of_bind he with hstep | ⟨r', hstep, he⟩
    · exact h.faulty ht (step_error hstep)
    · exact ih (h.takes (takes_of_step hstep) ht) hl he

theorem placed_of_foldlM (hl : ∀ t ∈ tokens, P t.location)
    (h : tokens.foldlM (step limit) start = .ok r) : r.Placed P :=
  foldlM_keeps (P := fun before r => (∀ t ∈ before, P t.location) → r.Placed P)
    (fun _ _ _ _ hr hs hl => by
      obtain ⟨hbefore, ht⟩ := List.forall_mem_append.mp hl
      exact (hr hbefore).takes (takes_of_step hs) (ht _ List.mem_cons_self))
    [] (fun _ => ⟨by simp [start], by simp [start]⟩) h hl

/-- No comment covers a datum that lies too deep. -/
def Shallow (limit : Nat) (pending : List OpenForm) : Prop :=
  ∀ d, .comment d ∈ pending → d < limit

theorem shallow_of_step {limit : Nat} {pending : List OpenForm}
    (h : step limit ⟨done, pending⟩ t = .ok r') (hs : Shallow limit pending.tail) :
    Shallow limit pending := by
  cases pending with
  | nil => exact hs
  | cons form outer =>
    intro d hd
    rcases List.mem_cons.mp hd with rfl | hd
    · by_contra hdeep
      rw [step_of_deep rfl (Nat.le_of_not_lt hdeep)] at h
      cases h
    · exact hs d hd

theorem Shallow.cons {pending : List OpenForm} (hf : ∀ d, form ≠ .comment d)
    (h : Shallow limit pending) : Shallow limit (form :: pending) := by
  intro d hd
  rcases List.mem_cons.mp hd with rfl | hd
  · exact absurd rfl (hf d)
  · exact h d hd

theorem Shallow.around (h : Shallow limit (form :: outer)) : Shallow limit outer :=
  fun d hd => h d (List.mem_cons_of_mem _ hd)

theorem Shallow.complete {pending : List OpenForm} (h : Shallow limit pending) (done : List Sexpr)
    (s : Sexpr) : Shallow limit (complete done s pending).pending := by
  induction pending generalizing s with
  | nil => exact h
  | cons form outer ih =>
    cases form with
    | quoted => exact ih h.around _
    | comment => exact h.around
    | list | dot | tail | vector => exact h.around.cons (by simp)

theorem Shallow.noted {pending : List OpenForm} (h : Shallow limit pending) :
    Shallow limit (noted pending) := by
  unfold Reader.noted
  split
  · exact h.around.cons (by simp)
  · exact h

/-- Only a comment sign covers a datum that is still to come. -/
theorem Shallow.takes (h : Shallow limit r.pending) (ht : Takes r t r') :
    Shallow limit r'.pending.tail ∧
      (t.kind ≠ .datumComment → Shallow limit r'.pending) := by
  have htail {pending : List OpenForm} (hp : Shallow limit pending) :
      Shallow limit pending.tail ∧ (t.kind ≠ .datumComment → Shallow limit pending) :=
    ⟨fun d hd => hp d (List.mem_of_mem_tail hd), fun _ => hp⟩
  cases ht with
  | datum free begins =>
    unfold begun? at begins
    split at begins
    · cases begins
      exact htail (h.cons (by simp))
    · cases begins
      exact htail (h.cons (by simp))
    · cases begins
      exact htail (h.cons (by simp))
    · cases begins
      exact htail (h.complete _ _)
    · cases begins
      exact htail (h.complete _ _)
    · cases begins
  | list | tail | vector => exact htail (h.around.complete _ _)
  | dot => exact htail (h.around.cons (by simp))
  | comment kind => exact ⟨h.noted, fun hno => absurd kind hno⟩

/-- A comment can cover a datum that lies too deep only where its sign is the last token. -/
theorem shallow_of_foldlM (h : tokens.foldlM (step limit) start = .ok r) :
    Shallow limit r.pending.tail ∧
      ∀ t ∈ tokens.getLast?, t.kind ≠ .datumComment → Shallow limit r.pending :=
  foldlM_keeps (P := fun before r => Shallow limit r.pending.tail ∧
      ∀ t ∈ before.getLast?, t.kind ≠ .datumComment → Shallow limit r.pending)
    (fun before r t r' hr hs => by
      have hstep := (shallow_of_step hs hr.1).takes (takes_of_step hs)
      refine ⟨hstep.1, fun u hu => ?_⟩
      rw [List.getLast?_concat] at hu
      obtain rfl := Option.some.inj hu
      exact hstep.2)
    [] ⟨by simp [Shallow, start], by simp⟩ h

/-- Where input ends too early, an open form says so, or the last token does. -/
theorem Placed.finish_error {last : Option Location} (h : r.Placed P)
    (hend : r.pending ≠ [] → Somewhere P last) (he : finish limit last r = .error e) :
    Somewhere P e.location ∨
      e = tooDeep limit none ∧ ∃ d outer, r.pending = .comment d :: outer ∧ limit ≤ d := by
  obtain ⟨done, pending⟩ := r
  rcases pending with _ | ⟨form, outer⟩
  · cases he
  · have hlast := hend (by simp)
    cases form with
    | quoted mark l d begun =>
      cases begun with
      | false =>
        cases he
        exact .inl ⟨l, rfl, h.head⟩
      | true =>
        cases he
        exact .inl hlast
    | comment d =>
      rcases error_of_bind he with hdepth | ⟨_, -, hfail⟩
      · refine .inr ⟨checkDepth_error hdepth, d, outer, rfl, ?_⟩
        by_contra hd
        have hlt : depth ⟨done, .comment d :: outer⟩ < limit := Nat.lt_of_not_le hd
        rw [checkDepth, if_pos hlt] at hdepth
        cases hdepth
      · cases hfail
        exact .inl hlast
    | list | dot | tail | vector =>
      obtain ⟨hl, -⟩ := h.head
      cases he
      exact .inl ⟨_, rfl, hl⟩

end Reader

namespace Sexpr

open Reader

variable {P : Location → Prop} {limit : Nat} {tokens : List Token} {e : Malformed}
  {ss : List Sexpr}

theorem placed_of_readAll (hl : ∀ t ∈ tokens, P t.location) (h : readAll limit tokens = .ok ss) :
    ∀ s ∈ ss, s.Placed P := by
  obtain ⟨r, hfold, hfinish⟩ := ok_of_bind h
  obtain ⟨-, rfl⟩ := finish_eq_ok hfinish
  intro s hs
  exact (placed_of_foldlM hl hfold).done s (List.mem_reverse.mp hs)

/-- An error has a place, unless the last token is a comment sign at a place where no datum may
lie. -/
theorem readAll_error (hl : ∀ t ∈ tokens, P t.location) (h : readAll limit tokens = .error e) :
    Somewhere P e.location ∨
      e = tooDeep limit none ∧ ∃ t, tokens.getLast? = some t ∧ t.kind = .datumComment := by
  rcases error_of_bind h with hfold | ⟨r, hfold, hfinish⟩
  · exact .inl (Placed.foldlM_error ⟨by simp [start], by simp [start]⟩ hl hfold)
  · rcases List.eq_nil_or_concat' tokens with rfl | ⟨before, t, rfl⟩
    · cases hfold
      cases hfinish
    · have hlast : lastLocation (before ++ [t]) = some t.location := by
        rw [lastLocation, List.getLast?_concat]
        rfl
      have ht : P t.location := hl t (List.mem_append_right _ List.mem_cons_self)
      rcases (placed_of_foldlM hl hfold).finish_error (fun _ => ⟨_, hlast, ht⟩) hfinish with
        hplace | ⟨rfl, d, outer, hp, hd⟩
      · exact .inl hplace
      · refine .inr ⟨rfl, t, List.getLast?_concat, ?_⟩
        by_contra hno
        have hshallow := (shallow_of_foldlM hfold).2 t List.getLast?_concat hno
        rw [hp] at hshallow
        exact Nat.not_lt.mpr hd (hshallow d List.mem_cons_self)

end Sexpr

end RegisterScheme
