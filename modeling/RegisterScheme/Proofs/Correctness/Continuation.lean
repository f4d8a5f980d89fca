import RegisterScheme.Proofs.Correctness.Parsing

/-! What more input can do. Tokens that are refused stay refused with the same kind of error,
whatever follows; incomplete ones have a continuation that completes them. -/

namespace RegisterScheme

/-- Some token of a kind. -/
def Token.ofKind (kind : Token.Kind) : Token := ⟨kind, ⟨.start, ""⟩⟩

namespace Reader

variable {limit n : Nat} {r r' : Reader} {t : Token} {tokens more : List Token} {e : Malformed}

theorem foldlM_error (h : tokens.foldlM (step limit) r = .error e) :
    e.cause.kind ≠ .incomplete := by
  induction tokens generalizing r with
  | nil => cases h
  | cons t tokens ih =>
    rw [List.foldlM_cons] at h
    rcases error_of_bind h with hstep | ⟨r', -, hrest⟩
    · exact (step_error hstep).kind
    · exact ih hrest

/-- The reader can be brought to a state in which no form is open. -/
def Closes (limit : Nat) (r : Reader) : Prop :=
  ∃ more r', Runs limit r more r' ∧ r'.pending = []

theorem Closes.takes (ht : Takes r t r') (hr : r.depth < limit) (h : Closes limit r') :
    Closes limit r := by
  obtain ⟨more, r'', hruns, hp⟩ := h
  exact ⟨t :: more, r'', .cons ht hr hruns, hp⟩

/-- Where a datum may begin, an atom is one. -/
theorem Closes.atom (hopen : r.Open) (hr : r.depth < limit)
    (h : ∀ s, Closes limit (complete r.done s r.pending)) : Closes limit r :=
  .takes (t := .ofKind (.literal .nil)) (.datum hopen rfl) hr (h _)

/-- All open forms can be closed, innermost first, also after one more datum. -/
theorem closes_of_within {pending : List OpenForm} (h : Within n pending) (hn : n < limit)
    (done : List Sexpr) : Closes limit ⟨done, pending⟩ ∧
      ∀ s, Closes limit (complete done s pending) := by
  induction pending with
  | nil => exact ⟨⟨[], _, .nil _, rfl⟩, fun s => ⟨[], _, .nil _, rfl⟩⟩
  | cons form outer ih =>
    obtain ⟨houter, hdatum⟩ := ih h.outer
    have hform : form.depth < limit := Nat.lt_of_le_of_lt h.head hn
    have hdepth : depth ⟨done, form :: outer⟩ < limit := by rwa [depth_cons]
    cases form with
    | quoted => exact ⟨.atom trivial hdepth fun s => hdatum _, fun s => hdatum _⟩
    | comment => exact ⟨.atom trivial hdepth fun s => houter, fun s => houter⟩
    | list b l d items =>
      have hlist (items : List Sexpr) : Closes limit ⟨done, .list b l d items :: outer⟩ :=
        .takes (t := .ofKind (.closing b)) (.list rfl) hform (hdatum _)
      exact ⟨hlist items, fun s => hlist _⟩
    | dot b l d items place =>
      have htail (s : Sexpr) : Closes limit ⟨done, .tail b l d items s :: outer⟩ :=
        .takes (t := .ofKind (.closing b)) (.tail rfl) hform (hdatum _)
      exact ⟨.atom trivial hdepth htail, htail⟩
    | tail b l d items s =>
      have htail : Closes limit ⟨done, .tail b l d items s :: outer⟩ :=
        .takes (t := .ofKind (.closing b)) (.tail rfl) hform (hdatum _)
      exact ⟨htail, fun _ => htail⟩
    | vector l d items =>
      have hvector (items : List Sexpr) : Closes limit ⟨done, .vector l d items :: outer⟩ :=
        .takes (t := .ofKind (.closing .round)) (.vector rfl) hform (hdatum _)
      exact ⟨hvector items, fun s => hvector _⟩

end Reader

namespace Sexpr

open Reader

variable {limit : Nat} {tokens : List Token} {e : Malformed}

/-- Nothing that follows mends what is refused for another reason than its end. -/
theorem readAll_append_of_error (h : readAll limit tokens = .error e)
    (he : e.cause.kind ≠ .incomplete) (more : List Token) :
    ∃ e', readAll limit (tokens ++ more) = .error e' ∧ e'.cause.kind = e.cause.kind := by
  rw [readAll, List.foldlM_append]
  rcases error_of_bind h with hfold | ⟨r, hfold, hfinish⟩
  · rw [hfold]
    exact ⟨e, rfl, rfl⟩
  · rw [hfold]
    rcases finish_error hfinish with hincomplete | ⟨rfl, hdeep, d, outer, hp⟩
    · exact absurd hincomplete he
    · cases more with
      | nil =>
        rw [List.append_nil]
        exact ⟨_, hfinish, rfl⟩
      | cons t more =>
        change ∃ e', (List.foldlM (step limit) r (t :: more) >>= _) = _ ∧ _
        rw [List.foldlM_cons, step_of_deep hp hdeep]
        exact ⟨_, rfl, rfl⟩

/-- What ends too early can be completed. -/
theorem exists_readAll_append (h : readAll limit tokens = .error e)
    (he : e.cause.kind = .incomplete) (hlimit : tokens.length < limit) :
    ∃ more ss, readAll limit (tokens ++ more) = .ok ss := by
  rcases error_of_bind h with hfold | ⟨r, hfold, -⟩
  · exact absurd he (foldlM_error hfold)
  · obtain ⟨⟨more, r', hruns, hp⟩, -⟩ := closes_of_within (within_of_foldlM hfold) hlimit r.done
    refine ⟨more, r'.done.reverse, ?_⟩
    rw [readAll, List.foldlM_append, hfold]
    change (List.foldlM (step limit) r more >>= _) = _
    rw [hruns]
    change finish _ _ r' = _
    rw [finish, hp]

/-- Tokens are incomplete exactly if more of them could help. -/
theorem readAll_incomplete (h : readAll limit tokens = .error e) :
    (e.cause.kind ≠ .incomplete → ∀ more, ∃ e', readAll limit (tokens ++ more) = .error e' ∧
      e'.cause.kind = e.cause.kind) ∧
    (e.cause.kind = .incomplete → tokens.length < limit →
      ∃ more ss, readAll limit (tokens ++ more) = .ok ss) :=
  ⟨readAll_append_of_error h, exists_readAll_append h⟩

/-- A closing bracket by itself stays unbalanced; an opening one waits for more. -/
theorem readAll_incomplete_bracket :
    (∃ e, readAll 3 [.ofKind (.closing .round)] = .error e ∧ e.cause.kind ≠ .incomplete ∧
      ∀ more, ∃ e', readAll 3 ([.ofKind (.closing .round)] ++ more) = .error e' ∧
        e'.cause.kind = e.cause.kind) ∧
    ∃ e, readAll 3 [.ofKind (.opening .square)] = .error e ∧ e.cause.kind = .incomplete ∧
      ∃ more ss, readAll 3 ([.ofKind (.opening .square)] ++ more) = .ok ss := by
  refine ⟨⟨_, rfl, by decide, ?_⟩, ⟨_, rfl, rfl, ?_⟩⟩
  · exact (readAll_incomplete rfl).1 (by decide)
  · exact (readAll_incomplete rfl).2 rfl (by decide)

end Sexpr

end RegisterScheme
