import RegisterScheme.Proofs.Sexpr.Single

/-! The reader accepts its grammar and nothing else. The grammar is the loose one: a comment may
also stand before a dot. -/

namespace RegisterScheme

namespace Sexpr

open Reader

variable {small large limit : Nat} {tokens : List Token} {ss : List Sexpr}

/-- What is read is what the tokens spell. -/
theorem series_of_readAll (h : readAll limit tokens = .ok ss) : Series true tokens ss := by
  obtain ⟨r, hfold, hfinish⟩ := ok_of_bind h
  obtain ⟨hp, rfl⟩ := finish_eq_ok hfinish
  exact series_of_foldlM hfold hp

/-- What tokens spell is read, if there is a level for each of them. -/
theorem Series.readAll {loose : Bool} (h : Series loose tokens ss)
    (hlimit : tokens.length ≤ limit) : readAll limit tokens = .ok ss := by
  obtain ⟨r, hruns, hlike⟩ := h.runs (r := start) limit (.inr trivial) (by
    rw [show start.depth = 0 from rfl]
    omega)
  rw [start, collect_top, List.append_nil] at hlike
  obtain rfl : r = ⟨ss.reverse, []⟩ := hlike.elim id id
  rw [Sexpr.readAll, hruns]
  exact congrArg Except.ok (List.reverse_reverse ss)

/-- A smaller limit changes nothing, or the depth is too much for it. -/
theorem readAll_of_le (h : small ≤ large) : readAll small tokens = readAll large tokens ∨
    ∃ e, readAll small tokens = .error e ∧ e.cause.kind = .tooDeeplyNested := by
  unfold readAll
  rcases foldlM_of_le h tokens start with hfold | ⟨place, hfold⟩
  · rw [hfold]
    cases tokens.foldlM (step large) start with
    | error e => exact .inl rfl
    | ok r =>
      rcases finish_of_le (r := r) h (lastLocation tokens) with hfinish | hfinish
      · exact .inl hfinish
      · exact .inr ⟨_, hfinish, rfl⟩
  · rw [hfold]
    exact .inr ⟨_, rfl, rfl⟩

/-- All data of a text are read exactly if they are a series of the grammar, and as the data it
spells; one datum is read exactly if it is all there is; and no limit on the depth does more than
refuse data that lie too deep. -/
theorem readAll_iff_series (tokens : List Token) :
    (∀ limit, tokens.length < limit → ∀ ss, readAll limit tokens = .ok ss ↔ Series true tokens ss) ∧
    (∀ s, readOne tokens = .ok s ↔ readAll ReadOptions.standard.maxDepth tokens = .ok [s]) ∧
    ∀ small large, small ≤ large → readAll small tokens = readAll large tokens ∨
      ∃ e, readAll small tokens = .error e ∧ e.cause.kind = .tooDeeplyNested := by
  refine ⟨fun limit hlimit ss => ?_, fun s => readOne_eq_ok, fun small large => readAll_of_le⟩
  exact ⟨series_of_readAll, fun h => h.readAll (Nat.le_of_lt hlimit)⟩

/-- The tokens of `(a #;b . c)`, at their places in the line. -/
def commentBeforeDot : List Token :=
  [(.opening .round, 1), (.identifier "a", 2), (.datumComment, 4), (.identifier "b", 6),
    (.dot, 8), (.identifier "c", 10), (.closing .round, 11)].map
    fun (kind, column) => ⟨kind, ⟨⟨1, column, column - 1⟩, "data"⟩⟩

theorem readAll_iff_series_commentBeforeDot : commentBeforeDot.length < 8 ∧ 1 ≤ 8 ∧
    (∃ s, readAll 8 commentBeforeDot = .ok [s] ∧ Series true commentBeforeDot [s] ∧
      readOne commentBeforeDot = .ok s) ∧
    ∃ e, readAll 1 commentBeforeDot = .error e ∧ e.cause.kind = .tooDeeplyNested := by
  obtain ⟨hall, hone, hlimit⟩ := readAll_iff_series commentBeforeDot
  refine ⟨by decide, by decide, ⟨_, rfl, (hall 8 (by decide) _).mp rfl, (hone _).mpr rfl⟩, ?_⟩
  rcases hlimit 1 8 (by decide) with h | h
  · cases h
  · exact h

section CommentBeforeDot

variable {t a n b d : Token} {x y : String} {bracket : Bracket} {ts us rest : List Token}

/-- Where the data of a series may end in front of `x #;y .`: before the first name, behind it, or
behind the comment. -/
theorem Series.of_append_eq {loose : Bool} (ha : a.kind = .identifier x)
    (hn : n.kind = .datumComment) (hb : b.kind = .identifier y) (hd : d.kind = .dot)
    (h : Series loose ts ss) (he : ts ++ us = a :: n :: b :: d :: rest) :
    us = a :: n :: b :: d :: rest ∨ us = n :: b :: d :: rest ∨ us = d :: rest := by
  rcases ts with _ | ⟨a', ts⟩
  · exact .inl he
  rw [List.cons_append, List.cons.injEq] at he
  obtain ⟨rfl, he⟩ := he
  obtain ⟨-, ss, h⟩ := h.of_identifier ha
  rcases ts with _ | ⟨n', ts⟩
  · exact .inr (.inl he)
  rw [List.cons_append, List.cons.injEq] at he
  obtain ⟨rfl, he⟩ := he
  obtain ⟨cs, own, after, s, rfl, hcs, hown, hafter⟩ := h.of_comment hn
  -- The comment covers the next name and nothing else.
  obtain ⟨b', own, rfl, -⟩ := hown.first
  simp only [List.append_assoc, List.cons_append] at he
  rcases cs with _ | ⟨c, cs⟩
  · rw [List.nil_append, List.cons.injEq] at he
    obtain ⟨rfl, he⟩ := he
    obtain rfl := hown.of_identifier hb
    rcases after with _ | ⟨d', after⟩
    · exact .inr (.inr he)
    · obtain ⟨rfl, -⟩ := List.cons.inj he
      exact absurd hd hafter.first.1
  · obtain ⟨rfl, -⟩ := List.cons.inj he
    exact absurd rfl (hcs.of_identifier hb).1

/-- If no comment may stand before a dot, no series begins with `(x #;y .`. -/
theorem not_series_comment_dot (ht : t.kind = .opening bracket) (ha : a.kind = .identifier x)
    (hn : n.kind = .datumComment) (hb : b.kind = .identifier y) (hd : d.kind = .dot)
    (h : Series false (t :: a :: n :: b :: d :: rest) ss) : False := by
  generalize hall : t :: a :: n :: b :: d :: rest = all at h
  cases h with
  | nil => cases hall
  | comment kind =>
    obtain ⟨rfl, -⟩ := List.cons.inj hall
    simp [ht] at kind
  | datum datum =>
    cases datum with
    | literal kind | identifier kind | quoted kind =>
      obtain ⟨rfl, -⟩ := List.cons.inj hall
      simp [ht] at kind
    | vector opens =>
      obtain ⟨rfl, -⟩ := List.cons.inj hall
      simp [ht] at opens
    | list opens items closes =>
      rw [List.cons_append, List.cons.injEq, List.append_assoc] at hall
      obtain ⟨rfl, he⟩ := hall
      rcases items.of_append_eq ha hn hb hd he.symm with he | he | he
      · obtain ⟨rfl, -⟩ := List.cons.inj he
        simp [ha] at closes
      · obtain ⟨rfl, -⟩ := List.cons.inj he
        simp [hn] at closes
      · obtain ⟨rfl, -⟩ := List.cons.inj he
        simp [hd] at closes
    | dotted opens items last between tight dot =>
      obtain rfl := tight.resolve_left (by simp)
      obtain ⟨first, own, rfl, hfirst, hdot, -⟩ := last.first
      simp only [List.cons_append, List.append_assoc, List.nil_append, List.cons.injEq] at hall
      obtain ⟨rfl, he⟩ := hall
      rcases items.of_append_eq ha hn hb hd he.symm with he | he | he
      · -- The last item is the first name, with no dot behind it.
        obtain ⟨rfl, hown⟩ := List.cons.inj he
        obtain rfl := last.of_identifier ha
        obtain ⟨rfl, -⟩ := List.cons.inj hown
        simp [hn] at dot
      · obtain ⟨rfl, -⟩ := List.cons.inj he
        exact hfirst hn
      · obtain ⟨rfl, -⟩ := List.cons.inj he
        exact hdot hd

end CommentBeforeDot

/-- What is read of `(a #;b . c)` is not spelled if no comment may stand before a dot. -/
theorem commentBeforeDot_not_series : commentBeforeDot.length < 8 ∧
    (∃ s, readAll 8 commentBeforeDot = .ok [s]) ∧ ∀ ss, ¬ Series false commentBeforeDot ss := by
  refine ⟨by decide, ⟨_, rfl⟩, fun ss h => ?_⟩
  exact not_series_comment_dot (by rfl) (by rfl) (by rfl) (by rfl) (by rfl) h

end Sexpr

end RegisterScheme
