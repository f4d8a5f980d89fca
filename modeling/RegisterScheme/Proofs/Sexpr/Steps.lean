import RegisterScheme.Proofs.Sexpr.Reading

/-! What one token does to a reader. The depth limit decides whether a token is taken, but never
how. -/

namespace RegisterScheme

namespace Reader

/-- The depth of a datum behind a comment sign. -/
def commentDepth (r : Reader) : Nat :=
  match r.pending with
  | [] | .quoted .. :: _ | .comment _ :: _ => r.depth + 1
  | _ => r.depth

theorem commentDepth_le (r : Reader) : r.commentDepth ≤ r.depth + 1 := by
  unfold commentDepth
  split <;> omega

/-- The open forms with a comment begun in the innermost one. -/
def noted : List OpenForm → List OpenForm
  | .quoted mark location depth _ :: outer => .quoted mark location depth true :: outer
  | pending => pending

/-- A reader takes a token and becomes another. -/
inductive Takes : Reader → Token → Reader → Prop
  | datum {r r' : Reader} {t : Token} (free : r.Open) (begins : r.begun? t = some r') :
      Takes r t r'
  | list {done items : List Sexpr} {b : Bracket} {l : Location} {d : Nat} {outer : List OpenForm}
      {t : Token} (closes : t.kind = .closing b) :
      Takes ⟨done, .list b l d items :: outer⟩ t
        (complete done (.list items.reverse (some l)) outer)
  | tail {done items : List Sexpr} {b : Bracket} {l : Location} {d : Nat} {s : Sexpr}
      {outer : List OpenForm} {t : Token} (closes : t.kind = .closing b) :
      Takes ⟨done, .tail b l d items s :: outer⟩ t
        (complete done (joined items.reverse s l) outer)
  | vector {done items : List Sexpr} {l : Location} {d : Nat} {outer : List OpenForm} {t : Token}
      (closes : t.kind = .closing .round) :
      Takes ⟨done, .vector l d items :: outer⟩ t
        (complete done (.vector items.reverse (some l)) outer)
  | dot {done items : List Sexpr} {b : Bracket} {l : Location} {d : Nat} {outer : List OpenForm}
      {t : Token} (some_item : items ≠ []) (kind : t.kind = .dot) :
      Takes ⟨done, .list b l d items :: outer⟩ t ⟨done, .dot b l d items t.location :: outer⟩
  | comment {r : Reader} {t : Token} (kind : t.kind = .datumComment) :
      Takes r t ⟨r.done, .comment r.commentDepth :: noted r.pending⟩

variable {limit : Nat} {r r' : Reader} {t : Token}

theorem begin_eq_ok (h : begin limit r t = .ok r') :
    r.Open ∧ (r.begun? t = some r' ∨
      t.kind = .datumComment ∧ r' = r.opened (.comment (r.depth + 1))) := by
  unfold begin at h
  split at h
  · cases h
  · rename_i hopen
    refine ⟨?_, ?_⟩
    · unfold Open
      split
      · rename_i hp
        exact hopen _ _ _ _ _ _ hp
      · trivial
    · unfold checkDepth at h
      split at h
      · unfold begun?
        cases ht : t.kind <;> rw [ht] at h <;> cases h <;> simp
      · cases h

theorem begin_ne_ok (hb : r.begun? t = none) (ht : t.kind ≠ .datumComment) :
    begin limit r t ≠ .ok r' := by
  intro h
  obtain ⟨-, hbegun | ⟨hc, -⟩⟩ := begin_eq_ok h
  · rw [hb] at hbegun
    cases hbegun
  · exact ht hc

theorem matching_eq_ok {opened closed : Bracket} {cause : Malformed.Cause} {l : Option Location}
    (h : (if opened = closed then Except.ok r else fail cause l) = .ok r') :
    opened = closed ∧ r = r' := by
  split at h
  · rename_i hb
    exact ⟨hb, Except.ok.inj h⟩
  · cases h

theorem takes_of_close {b : Bracket} (ht : t.kind = .closing b) (h : close limit r t b = .ok r') :
    Takes r t r' := by
  have hbegin : begin limit r t ≠ .ok r' := begin_ne_ok (by rw [begun?, ht]) (by rw [ht]; simp)
  obtain ⟨done, pending⟩ := r
  rcases pending with _ | ⟨form, outer⟩
  · exact absurd h hbegin
  · cases form with
    | quoted | comment => exact absurd h hbegin
    | dot => cases h
    | list =>
      obtain ⟨rfl, rfl⟩ := matching_eq_ok h
      exact .list ht
    | tail =>
      obtain ⟨rfl, rfl⟩ := matching_eq_ok h
      exact .tail ht
    | vector =>
      obtain ⟨rfl, rfl⟩ := matching_eq_ok h
      exact .vector ht

theorem takes_of_dot (ht : t.kind = .dot) (h : dot limit r t = .ok r') : Takes r t r' := by
  have hbegin : begin limit r t ≠ .ok r' := begin_ne_ok (by rw [begun?, ht]) (by rw [ht]; simp)
  obtain ⟨done, pending⟩ := r
  rcases pending with _ | ⟨form, outer⟩
  · exact absurd h hbegin
  · cases form with
    | quoted | comment | tail => exact absurd h hbegin
    | dot | vector => cases h
    | list b l d items =>
      cases items with
      | nil => cases h
      | cons s items =>
        cases h
        exact .dot (by simp) ht

theorem takes_of_comment (ht : t.kind = .datumComment) (h : comment limit r t = .ok r') :
    Takes r t r' := by
  obtain ⟨done, pending⟩ := r
  rcases pending with _ | ⟨form, outer⟩
  · cases h
    exact .comment ht
  · cases form with
    | quoted mark l d begun =>
      unfold comment checkDepth at h
      dsimp only at h
      split at h
      · cases h
        exact .comment ht
      · cases h
    | comment d =>
      have hbegin : begin limit ⟨done, .comment d :: outer⟩ t = .ok r' := h
      obtain ⟨-, hb | ⟨-, rfl⟩⟩ := begin_eq_ok hbegin
      · rw [begun?, ht] at hb
        cases hb
      · exact .comment ht
    | list | dot | tail | vector =>
      cases h
      exact .comment ht

theorem takes_of_step (h : step limit r t = .ok r') : Takes r t r' := by
  unfold step at h
  split at h
  · exact takes_of_close (by assumption) h
  · exact takes_of_dot (by assumption) h
  · exact takes_of_comment (by assumption) h
  · obtain ⟨free, begins | ⟨ht, -⟩⟩ := begin_eq_ok h
    · exact .datum free begins
    · contradiction

/-- Wherever a datum may lie, a token that can be taken is taken. -/
theorem step_of_takes (h : Takes r t r') (hlimit : r.depth < limit) :
    step limit r t = .ok r' := by
  cases h with
  | datum free begins => exact step_of_begun? free hlimit begins
  | list closes => simp [step, closes, close]
  | tail closes => simp [step, closes, close]
  | vector closes => simp [step, closes, close]
  | dot some_item kind =>
    obtain ⟨s, ss, rfl⟩ := List.exists_cons_of_ne_nil some_item
    simp [step, kind, dot]
  | comment kind =>
    obtain ⟨done, pending⟩ := r
    rw [step, kind]
    rcases pending with _ | ⟨form, outer⟩
    · rfl
    · cases form with
      | list | dot | tail | vector => rfl
      | quoted mark l d begun =>
        change (checkDepth limit _ _ >>= fun _ => _) = _
        rw [checkDepth, if_pos hlimit]
        rfl
      | comment d =>
        change begin limit ⟨done, .comment d :: outer⟩ t = _
        unfold begin
        dsimp only
        rw [checkDepth, if_pos hlimit, kind]
        rfl

end Reader

end RegisterScheme
