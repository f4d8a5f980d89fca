import RegisterScheme.Proofs.Sexpr.Recognition

/-! The only datum of a text. A reader of one datum refuses a second one as soon as it begins, and
otherwise does what a reader of all data does. -/

namespace RegisterScheme

namespace Reader

/-- How many data the outermost open form is going to be. A comment is none. -/
def owed : List OpenForm → Nat
  | [] => 0
  | [.comment _] => 0
  | [_] => 1
  | _ :: form :: outer => owed (form :: outer)

/-- How many data have begun that lie in no other. -/
def begun (r : Reader) : Nat :=
  r.done.length + owed r.pending

variable {limit n : Nat} {r r' : Reader} {t : Token} {tokens : List Token} {s : Sexpr}

theorem owed_of_ne_nil (form : OpenForm) {outer : List OpenForm} (h : outer ≠ []) :
    owed (form :: outer) = owed outer := by
  obtain ⟨next, outer, rfl⟩ := List.exists_cons_of_ne_nil h
  rw [owed]

theorem owed_single {form : OpenForm} (h : ∀ d, form ≠ .comment d) : owed [form] = 1 := by
  cases form with
  | comment d => exact absurd rfl (h d)
  | quoted | list | dot | tail | vector => rfl

/-- Forms that are no comments count alike. -/
theorem owed_cons {form form' : OpenForm} {outer : List OpenForm} (h : ∀ d, form ≠ .comment d)
    (h' : ∀ d, form' ≠ .comment d) : owed (form :: outer) = owed (form' :: outer) := by
  cases outer with
  | nil => rw [owed_single h, owed_single h']
  | cons => rw [owed, owed]

theorem owed_comment (d : Nat) (outer : List OpenForm) :
    owed (.comment d :: outer) = owed outer := by
  cases outer with
  | nil => rfl
  | cons => rw [owed]

theorem owed_noted (pending : List OpenForm) : owed (noted pending) = owed pending := by
  unfold noted
  split
  · exact owed_cons (by simp) (by simp)
  · rfl

/-- A form counts the same when it is finished. -/
theorem begun_complete {form : OpenForm} (h : ∀ d, form ≠ .comment d) (done : List Sexpr)
    (s : Sexpr) (outer : List OpenForm) :
    (complete done s outer).begun = begun ⟨done, form :: outer⟩ := by
  induction outer generalizing form s with
  | nil => rw [begun, begun, owed_single h]; rfl
  | cons next outer ih =>
    have hnext : begun ⟨done, form :: next :: outer⟩ = begun ⟨done, next :: outer⟩ := by
      rw [begun, begun, owed_of_ne_nil form (by simp)]
    rw [hnext]
    cases next with
    | quoted => exact ih (by simp) _
    | comment d =>
      rw [begun, begun, owed_comment]
      rfl
    | list | dot | tail | vector => exact congrArg (done.length + ·) (owed_cons (by simp) (by simp))

theorem begun_opened {form : OpenForm} (h : ∀ d, form ≠ .comment d) (r : Reader) :
    r.pending = [] ∧ (r.opened form).begun = r.begun + 1 ∨
      r.pending ≠ [] ∧ (r.opened form).begun = r.begun := by
  obtain ⟨done, pending⟩ := r
  cases pending with
  | nil => exact .inl ⟨rfl, congrArg (done.length + ·) (owed_single h)⟩
  | cons next outer =>
    exact .inr ⟨by simp, congrArg (done.length + ·) (owed_of_ne_nil form (by simp))⟩

/-- A datum begins with a token that is no comment sign and lies in no open form. -/
theorem Takes.begun (h : Takes r t r') :
    r.pending = [] ∧ t.kind ≠ .datumComment ∧ r'.begun = r.begun + 1 ∨
      (r.pending = [] → t.kind = .datumComment) ∧ r'.begun = r.begun := by
  cases h with
  | datum free begins =>
    have hkind : t.kind ≠ .datumComment := by
      intro ht
      rw [begun?, ht] at begins
      cases begins
    have hopened {form : OpenForm} (hform : ∀ d, form ≠ .comment d) :
        r.pending = [] ∧ t.kind ≠ .datumComment ∧ (r.opened form).begun = r.begun + 1 ∨
          (r.pending = [] → t.kind = .datumComment) ∧ (r.opened form).begun = r.begun := by
      rcases begun_opened hform r with ⟨hp, hr⟩ | ⟨hp, hr⟩
      · exact .inl ⟨hp, hkind, hr⟩
      · exact .inr ⟨fun h => absurd h hp, hr⟩
    -- An atom counts as a form that is finished at once.
    have hatom (s : Sexpr) : (complete r.done s r.pending).begun =
        (r.opened (.vector t.location 0 [])).begun :=
      begun_complete (by simp) _ _ _
    unfold begun? at begins
    split at begins
    · cases begins
      exact hopened (by simp)
    · cases begins
      exact hopened (by simp)
    · cases begins
      exact hopened (by simp)
    · cases begins
      rw [hatom]
      exact hopened (by simp)
    · cases begins
      rw [hatom]
      exact hopened (by simp)
    · cases begins
  | list | tail | vector => exact .inr ⟨by simp, begun_complete (by simp) _ _ _⟩
  | dot => exact .inr ⟨by simp, congrArg (List.length _ + ·) (owed_cons (by simp) (by simp))⟩
  | comment kind =>
    refine .inr ⟨fun _ => kind, ?_⟩
    rw [Reader.begun, Reader.begun, owed_comment, owed_noted]

theorem Takes.begun_le (h : Takes r t r') : r.begun ≤ r'.begun := by
  rcases h.begun with ⟨-, -, hr⟩ | ⟨-, hr⟩
  · omega
  · omega

theorem begun_le_of_foldlM (h : tokens.foldlM (step limit) r = .ok r') : r.begun ≤ r'.begun :=
  foldlM_keeps (P := fun _ r' => r.begun ≤ r'.begun)
    (fun _ _ _ _ hr hs => Nat.le_trans hr (takes_of_step hs).begun_le) [] (Nat.le_refl _) h

end Reader

namespace Sexpr

open Reader

variable {limit : Nat} {r r' : Reader} {t : Token} {tokens : List Token} {s : Sexpr}

/-- Nothing is refused but a second datum. -/
theorem stepOne_cases (limit : Nat) (r : Reader) (t : Token) :
    stepOne limit r t = r.step limit t ∧
      (r.pending = [] → t.kind ≠ .datumComment → r.begun = 0) ∨
    (∃ e, stepOne limit r t = .error e) ∧
      r.pending = [] ∧ t.kind ≠ .datumComment ∧ r.begun ≠ 0 := by
  obtain ⟨done, pending⟩ := r
  cases pending with
  | cons form outer => exact .inl ⟨by cases done <;> rfl, by simp⟩
  | nil =>
    cases done with
    | nil => exact .inl ⟨rfl, fun _ _ => rfl⟩
    | cons s done =>
      by_cases ht : t.kind = .datumComment
      · exact .inl ⟨by rw [stepOne]; exact ht, fun _ hno => absurd ht hno⟩
      · refine .inr ⟨?_, rfl, ht, by simp [begun]⟩
        unfold stepOne
        split
        · contradiction
        · exact ⟨_, rfl⟩
        · rename_i hfirst _
          exact (hfirst s done rfl).elim

/-- Nothing is refused unless it begins a second datum. -/
theorem stepOne_of_takes (h : Takes r t r') (hr : r'.begun ≤ 1) :
    stepOne limit r t = r.step limit t := by
  rcases stepOne_cases limit r t with ⟨hstep, -⟩ | ⟨-, hp, ht, hbegun⟩
  · exact hstep
  · rcases h.begun with ⟨-, -, hr'⟩ | ⟨hcomment, -⟩
    · omega
    · exact absurd (hcomment hp) ht

theorem takes_of_stepOne (h : stepOne limit r t = .ok r') (hr : r.begun ≤ 1) :
    r.step limit t = .ok r' ∧ r'.begun ≤ 1 := by
  rcases stepOne_cases limit r t with ⟨hstep, hfirst⟩ | ⟨⟨e, he⟩, -⟩
  · rw [hstep] at h
    refine ⟨h, ?_⟩
    rcases (takes_of_step h).begun with ⟨hp, ht, hr'⟩ | ⟨-, hr'⟩
    · rw [hfirst hp ht] at hr'
      exact Nat.le_of_eq hr'
    · omega
  · rw [he] at h
    cases h

theorem foldlM_of_stepOne (h : tokens.foldlM (stepOne limit) r = .ok r') (hr : r.begun ≤ 1) :
    tokens.foldlM (step limit) r = .ok r' ∧ r'.begun ≤ 1 := by
  induction tokens generalizing r with
  | nil =>
    cases h
    exact ⟨rfl, hr⟩
  | cons t tokens ih =>
    rw [List.foldlM_cons] at h ⊢
    obtain ⟨r₁, hstep, hrest⟩ := ok_of_bind h
    obtain ⟨hall, hone⟩ := takes_of_stepOne hstep hr
    rw [hall]
    exact ih hrest hone

theorem foldlM_stepOne (h : tokens.foldlM (step limit) r = .ok r') (hr : r'.begun ≤ 1) :
    tokens.foldlM (stepOne limit) r = .ok r' := by
  induction tokens generalizing r with
  | nil => exact h
  | cons t tokens ih =>
    rw [List.foldlM_cons] at h ⊢
    obtain ⟨r₁, hstep, hrest⟩ := ok_of_bind h
    have hone : r₁.begun ≤ 1 := Nat.le_trans (begun_le_of_foldlM hrest) hr
    rw [stepOne_of_takes (takes_of_step hstep) hone, hstep]
    exact ih hrest

/-- The only datum of a text is the datum that is all there is. -/
theorem readOne_eq_ok : readOne tokens = .ok s ↔
    readAll ReadOptions.standard.maxDepth tokens = .ok [s] := by
  constructor
  · intro h
    obtain ⟨r, hfold, h⟩ := ok_of_bind h
    obtain ⟨hall, hbegun⟩ := foldlM_of_stepOne hfold (by decide)
    obtain ⟨ss, hfinish, h⟩ := ok_of_bind h
    obtain ⟨hp, rfl⟩ := finish_eq_ok hfinish
    have hfirst : r.done.reverse = [s] := by
      rw [begun, hp] at hbegun
      cases hdone : r.done with
      | nil =>
        rw [hdone] at h
        cases h
      | cons s' done =>
        rw [hdone] at h hbegun
        obtain rfl : done = [] := List.length_eq_zero_iff.mp (Nat.le_zero.mp
          (Nat.le_of_succ_le_succ hbegun))
        cases h
        rfl
    rw [readAll, hall, ← hfirst]
    exact hfinish
  · intro h
    obtain ⟨r, hfold, hfinish⟩ := ok_of_bind h
    obtain ⟨hp, hdone⟩ := finish_eq_ok hfinish
    have hbegun : r.begun = 1 := by
      have hlength := congrArg List.length hdone
      rw [List.length_reverse] at hlength
      rw [begun, hp, ← hlength]
      rfl
    have hone := foldlM_stepOne hfold (Nat.le_of_eq hbegun)
    rw [readOne, hone]
    change (finish _ _ r >>= fun ss => _) = _
    rw [hfinish]
    rfl

end Sexpr

end RegisterScheme
