import RegisterScheme.Proofs.Sexpr.Recognition

/-! Expressions as the reader makes them. A dotted list has an item and a tail that is no list, so
that no datum is spelled in two ways, and the equality of expressions is that of their data. -/

namespace RegisterScheme

namespace Sexpr

/-- Lists are dotted only where they have to be, and the leaves are tokens of certain kinds. -/
inductive Canonical (P : Token.Kind → Prop) : Sexpr → Prop
  | literal {a : Atom} {l : Option Location} (kind : P (.literal a)) : Canonical P (.literal a l)
  | identifier {name : String} {l : Option Location} (kind : P (.identifier name)) :
      Canonical P (.identifier name l)
  | list {items : List Sexpr} {l : Option Location} (parts : ∀ s ∈ items, Canonical P s) :
      Canonical P (.list items l)
  | dotted {items : List Sexpr} {tail : Sexpr} {l : Option Location} (some_item : items ≠ [])
      (not_list : ∀ more l, tail ≠ .list more l)
      (not_dotted : ∀ more last l, tail ≠ .dotted more last l)
      (parts : ∀ s ∈ items, Canonical P s) (last : Canonical P tail) :
      Canonical P (.dotted items tail l)
  | vector {items : List Sexpr} {l : Option Location} (parts : ∀ s ∈ items, Canonical P s) :
      Canonical P (.vector items l)

variable {P Q : Token.Kind → Prop} {loose : Bool} {place : Option Location}
  {s t tail joined : Sexpr} {items ss ss' : List Sexpr} {ts : List Token}

theorem Canonical.mono (h : s.Canonical P) (hPQ : ∀ k, P k → Q k) : s.Canonical Q := by
  induction h with
  | literal kind => exact .literal (hPQ _ kind)
  | identifier kind => exact .identifier (hPQ _ kind)
  | list _ ih => exact .list ih
  | dotted some_item not_list not_dotted _ _ ih ih' =>
    exact .dotted some_item not_list not_dotted ih ih'
  | vector _ ih => exact .vector ih

theorem Joins.canonical (h : Joins place items tail joined) (hne : items ≠ [])
    (hitems : ∀ s ∈ items, s.Canonical P) (htail : tail.Canonical P) : joined.Canonical P := by
  cases h with
  | list =>
    cases htail with
    | list parts => exact .list (List.forall_mem_append.mpr ⟨hitems, parts⟩)
  | dotted =>
    cases htail with
    | dotted _ not_list not_dotted parts last =>
      exact .dotted (by simp [hne]) not_list not_dotted
        (List.forall_mem_append.mpr ⟨hitems, parts⟩) last
  | datum not_list not_dotted => exact .dotted hne not_list not_dotted hitems htail

mutual

/-- Splicing leaves no list in the place of a tail. -/
theorem Spells.canonical (hmarks : ∀ m : QuoteMark, P (.identifier m.name)) {ts : List Token}
    {s : Sexpr} : Spells loose ts s → (∀ t ∈ ts, P t.kind) → s.Canonical P
  | .literal kind, hts => .literal (kind ▸ hts _ List.mem_cons_self)
  | .identifier kind, hts => .identifier (kind ▸ hts _ List.mem_cons_self)
  | .quoted _ _ datum, hts => by
    simp only [List.forall_mem_cons, List.forall_mem_append] at hts
    have hdatum := datum.canonical hmarks hts.2.2
    exact .list (by simpa using And.intro (.identifier (hmarks _)) hdatum)
  | .list _ items _, hts => by
    simp only [List.forall_mem_cons, List.forall_mem_append] at hts
    exact .list (items.canonical hmarks hts.2.1)
  | .dotted _ items last _ _ _ _ datum _ _ joins, hts => by
    simp only [List.forall_mem_cons, List.forall_mem_append] at hts
    have hitems := items.canonical hmarks hts.2.1.1.1
    have hlast := last.canonical hmarks hts.2.1.1.2
    have htail := datum.canonical hmarks hts.2.2.2.1.1.2
    refine joins.canonical (by simp) ?_ htail
    simpa [or_imp, forall_and] using And.intro hitems hlast
  | .vector _ items _, hts => by
    simp only [List.forall_mem_cons, List.forall_mem_append] at hts
    exact .vector (items.canonical hmarks hts.2.1)

theorem Series.canonical (hmarks : ∀ m : QuoteMark, P (.identifier m.name)) {ts : List Token}
    {ss : List Sexpr} : Series loose ts ss → (∀ t ∈ ts, P t.kind) → ∀ s ∈ ss, s.Canonical P
  | .nil, _ => by simp
  | .comment _ _ _ rest, hts => by
    simp only [List.forall_mem_cons, List.forall_mem_append] at hts
    exact rest.canonical hmarks hts.2.2
  | .datum datum rest, hts => by
    simp only [List.forall_mem_append] at hts
    have hdatum := datum.canonical hmarks hts.1
    have hrest := rest.canonical hmarks hts.2
    exact List.forall_mem_cons.mpr ⟨hdatum, hrest⟩

end

end Sexpr

end RegisterScheme
