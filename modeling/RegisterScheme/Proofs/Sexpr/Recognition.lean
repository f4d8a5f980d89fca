import RegisterScheme.Proofs.Sexpr.Grammar
import RegisterScheme.Proofs.Sexpr.Limit

/-! A reader recognizes the loose grammar. What it holds after some tokens is spelled by them, and
it takes the tokens of any series of the grammar, if there are levels enough. -/

namespace RegisterScheme

open Sexpr

theorem Sexpr.joins_joined (items : List Sexpr) (tail : Sexpr) (l : Location) :
    Joins (some l) items tail (Reader.joined items tail l) := by
  cases tail with
  | list => exact .list
  | dotted => exact .dotted
  | literal | identifier | vector => exact .datum (by simp) (by simp)

theorem Sexpr.Joins.eq_joined {items : List Sexpr} {tail s : Sexpr} {l : Location}
    (h : Joins (some l) items tail s) : s = Reader.joined items tail l := by
  cases h with
  | list | dotted => rfl
  | datum not_list not_dotted =>
    cases tail with
    | list more place => exact absurd rfl (not_list more place)
    | dotted more last place => exact absurd rfl (not_dotted more last place)
    | literal | identifier | vector => rfl

/-- The tokens of an unfinished form, from its first one on. -/
inductive OpenForm.Begins : OpenForm → List Token → Prop
  | quoted {t : Token} {m : QuoteMark} {d : Nat} {begun : Bool} {cs : List Token}
      (kind : t.kind = .mark m) (comments : Series true cs []) :
      Begins (.quoted m t.location d begun) (t :: cs)
  | comment {t : Token} {d : Nat} {cs : List Token} (kind : t.kind = .datumComment)
      (comments : Series true cs []) : Begins (.comment d) (t :: cs)
  | list {t : Token} {b : Bracket} {d : Nat} {items : List Sexpr} {ts : List Token}
      (kind : t.kind = .opening b) (series : Series true ts items.reverse) :
      Begins (.list b t.location d items) (t :: ts)
  | dot {t u : Token} {b : Bracket} {d : Nat} {s : Sexpr} {items : List Sexpr}
      {ts cs : List Token} {l : Location} (kind : t.kind = .opening b)
      (series : Series true ts (s :: items).reverse) (dot : u.kind = .dot)
      (comments : Series true cs []) :
      Begins (.dot b t.location d (s :: items) l) (t :: (ts ++ u :: cs))
  | tail {t u : Token} {b : Bracket} {d : Nat} {s tail : Sexpr} {items : List Sexpr}
      {ts cs us ds : List Token} (kind : t.kind = .opening b)
      (series : Series true ts (s :: items).reverse) (dot : u.kind = .dot)
      (before : Series true cs []) (datum : Spells true us tail) (behind : Series true ds []) :
      Begins (.tail b t.location d (s :: items) tail) (t :: (ts ++ u :: (cs ++ us ++ ds)))
  | vector {t : Token} {d : Nat} {items : List Sexpr} {ts : List Token}
      (kind : t.kind = .openVector) (series : Series true ts items.reverse) :
      Begins (.vector t.location d items) (t :: ts)

theorem OpenForm.Begins.skip {form : OpenForm} {ts cs : List Token} (h : form.Begins ts)
    (hc : Series true cs []) : form.Begins (ts ++ cs) := by
  cases h with
  | quoted kind comments => exact .quoted kind (comments.append hc)
  | comment kind comments => exact .comment kind (comments.append hc)
  | list kind series =>
    have hs := series.append hc
    rw [List.append_nil] at hs
    exact .list kind hs
  | dot kind series dot comments =>
    rw [List.cons_append, List.append_assoc, List.cons_append]
    exact .dot kind series dot (comments.append hc)
  | tail kind series dot before datum behind =>
    rw [List.cons_append, List.append_assoc, List.cons_append, List.append_assoc]
    exact .tail kind series dot before datum (behind.append hc)
  | vector kind series =>
    have hs := series.append hc
    rw [List.append_nil] at hs
    exact .vector kind hs

namespace Reader

/-- The tokens that a reader has taken. A form other than a comment began where a datum may. -/
inductive Spelled (done : List Sexpr) : List OpenForm → List Token → Prop
  | top {ts : List Token} (series : Series true ts done.reverse) : Spelled done [] ts
  | comment {d : Nat} {outer : List OpenForm} {ts us : List Token}
      (around : Spelled done outer ts) (begins : (OpenForm.comment d).Begins us) :
      Spelled done (.comment d :: outer) (ts ++ us)
  | form {form : OpenForm} {outer : List OpenForm} {ts us : List Token}
      (around : Spelled done outer ts) (begins : form.Begins us) (free : Open ⟨done, outer⟩) :
      Spelled done (form :: outer) (ts ++ us)

variable {done : List Sexpr} {pending : List OpenForm} {ts us cs : List Token} {s : Sexpr}
  {r r' : Reader} {t : Token} {limit : Nat}

theorem Spelled.skip (h : Spelled done pending ts) (hc : Series true cs []) :
    Spelled done pending (ts ++ cs) := by
  cases h with
  | top series =>
    have hs := series.append hc
    rw [List.append_nil] at hs
    exact .top hs
  | comment around begins =>
    rw [List.append_assoc]
    exact .comment around (begins.skip hc)
  | form around begins free =>
    rw [List.append_assoc]
    exact .form around (begins.skip hc) free

theorem Spelled.noted (h : Spelled done pending ts) : Spelled done (noted pending) ts := by
  unfold Reader.noted
  split
  · cases h with
    | form around begins free =>
      cases begins with
      | quoted kind comments => exact .form around (.quoted kind comments) free
  · exact h

theorem Spelled.complete (h : Spelled done pending ts) (hopen : Open ⟨done, pending⟩)
    (hs : Spells true us s) :
    Spelled (complete done s pending).done (complete done s pending).pending (ts ++ us) := by
  induction pending generalizing ts us s with
  | nil =>
    cases h with
    | top series =>
      refine .top ?_
      have hss := series.append (.one hs)
      rwa [← List.reverse_cons] at hss
  | cons form outer ih =>
    cases h with
    | comment around begins =>
      cases begins with
      | comment kind comments =>
        rw [List.append_assoc, List.cons_append]
        exact around.skip (.skipped kind comments hs)
    | form around begins free =>
      rw [List.append_assoc]
      cases begins with
      | comment kind comments => exact around.skip (.skipped kind comments hs)
      | quoted kind comments => exact ih around free (.quoted kind comments hs)
      | list kind series =>
        have hss := series.append (.one hs)
        rw [← List.reverse_cons] at hss
        exact .form around (.list kind hss) free
      | @dot _ _ _ _ _ _ _ cs _ kind series dot comments =>
        refine .form around ?_ free
        rw [List.cons_append, List.append_assoc, List.cons_append, ← List.append_nil (cs ++ us)]
        exact .tail kind series dot comments hs .nil
      | tail => exact hopen.elim
      | vector kind series =>
        have hss := series.append (.one hs)
        rw [← List.reverse_cons] at hss
        exact .form around (.vector kind hss) free

/-- A form that is closed was a datum. -/
theorem Spelled.close {form : OpenForm} {outer : List OpenForm}
    (h : Spelled done (form :: outer) ts) (hform : ∀ d, form ≠ .comment d)
    (hs : ∀ us, form.Begins us → Spells true (us ++ [t]) s) :
    Spelled (Reader.complete done s outer).done (Reader.complete done s outer).pending
      (ts ++ [t]) := by
  cases h with
  | comment => exact absurd rfl (hform _)
  | form around begins free =>
    rw [List.append_assoc]
    exact around.complete free (hs _ begins)

theorem Spelled.takes (h : Spelled r.done r.pending ts) (ht : Takes r t r') :
    Spelled r'.done r'.pending (ts ++ [t]) := by
  cases ht with
  | datum free begins =>
    unfold begun? at begins
    split at begins
    · cases begins
      exact .form h (.list (by assumption) .nil) free
    · cases begins
      exact .form h (.vector (by assumption) .nil) free
    · cases begins
      exact .form h (.quoted (by assumption) .nil) free
    · cases begins
      exact h.complete free (.literal (by assumption))
    · cases begins
      exact h.complete free (.identifier (by assumption))
    · cases begins
  | list closes =>
    refine h.close (by simp) ?_
    rintro us (_ | _ | ⟨kind, series⟩)
    exact .list kind series closes
  | tail closes =>
    refine h.close (by simp) ?_
    intro us begins
    cases begins with
    | tail kind series dot before datum behind =>
      rw [List.reverse_cons] at series
      obtain ⟨first, own, between, rfl, hfirst, hown, hbetween⟩ := series.split_last rfl
      have hs := Spells.dotted kind hfirst hown hbetween (.inl rfl) dot before datum behind closes
        (joins_joined _ _ _)
      rw [List.reverse_cons]
      simpa only [List.cons_append, List.append_assoc] using hs
  | vector closes =>
    refine h.close (by simp) ?_
    intro us begins
    cases begins with
    | vector kind series => exact .vector kind series closes
  | @dot _ items _ _ _ _ _ some_item kind =>
    obtain ⟨s, items, rfl⟩ := List.exists_cons_of_ne_nil some_item
    cases h with
    | form around begins free =>
      cases begins with
      | list opens series =>
        rw [List.append_assoc]
        exact .form around (.dot opens series kind .nil) free
  | comment kind => exact .comment h.noted (.comment kind .nil)

/-- Whatever is read is a series of the grammar. -/
theorem series_of_foldlM (h : ts.foldlM (step limit) start = .ok r) (hp : r.pending = []) :
    Series true ts r.done.reverse := by
  have hall := foldlM_keeps (P := fun ts r => Spelled r.done r.pending ts)
    (fun _ _ _ _ hr hs => hr.takes (takes_of_step hs)) [] (.top .nil) h
  rw [hp, List.nil_append] at hall
  cases hall with
  | top series => exact series

/-- A reader takes tokens one after the other. -/
def Runs (limit : Nat) (r : Reader) (ts : List Token) (r' : Reader) : Prop :=
  ts.foldlM (step limit) r = .ok r'

theorem Runs.nil (r : Reader) : Runs limit r [] r := rfl

theorem Runs.append {r'' : Reader} (h : Runs limit r ts r') (h' : Runs limit r' us r'') :
    Runs limit r (ts ++ us) r'' := by
  unfold Runs at h h' ⊢
  rw [List.foldlM_append, h]
  exact h'

theorem Runs.cons {r'' : Reader} (ht : Takes r t r') (hr : r.depth < limit)
    (h : Runs limit r' ts r'') : Runs limit r (t :: ts) r'' := by
  unfold Runs at h ⊢
  rw [List.foldlM_cons, step_of_takes ht hr]
  exact h

theorem Runs.one (ht : Takes r t r') (hr : r.depth < limit) : Runs limit r [t] r' :=
  .cons ht hr (.nil r')

/-- The second reader is the first, which perhaps remembers a comment besides. -/
def Like (r r' : Reader) : Prop := r' = r ∨ r' = ⟨r.done, noted r.pending⟩

theorem Like.cases {P : Reader → Reader → Prop} (h : Like r r') (hsame : ∀ r, P r r)
    (hquoted : ∀ done mark l d begun outer, P ⟨done, .quoted mark l d begun :: outer⟩
      ⟨done, .quoted mark l d true :: outer⟩) : P r r' := by
  obtain ⟨done, pending⟩ := r
  rcases h with rfl | rfl
  · exact hsame _
  · unfold noted
    dsimp only
    split
    · exact hquoted ..
    · exact hsame _

theorem Like.trans {r'' : Reader} (h : Like r r') (h' : Like r' r'') : Like r r'' := by
  refine h.cases (P := fun r r' => Like r' r'' → Like r r'') (fun r h => h) ?_ h'
  rintro done mark l d begun outer (rfl | rfl)
  · exact .inr rfl
  · exact .inr rfl

theorem Like.open (h : Like r r') (hr : r.Open) : r'.Open :=
  h.cases (P := fun r r' => r.Open → r'.Open) (fun _ h => h) (fun _ _ _ _ _ _ h => h) hr

theorem Like.depth (h : Like r r') : r'.depth = r.depth :=
  h.cases (P := fun r r' => r'.depth = r.depth) (fun _ => rfl) (fun _ _ _ _ _ _ => rfl)

theorem Like.complete (h : Like r r') (s : Sexpr) :
    Reader.complete r'.done s r'.pending = Reader.complete r.done s r.pending :=
  h.cases (P := fun r r' => Reader.complete r'.done s r'.pending =
    Reader.complete r.done s r.pending) (fun _ => rfl) (fun _ _ _ _ _ _ => rfl)

/-- Data may follow each other here. -/
def Collects (r : Reader) : Prop :=
  match r.pending with
  | [] | .list .. :: _ | .vector .. :: _ => True
  | _ => False

/-- More data in the innermost form. -/
def collect (r : Reader) (ss : List Sexpr) : Reader :=
  ss.foldl (fun r s => complete r.done s r.pending) r

theorem collect_top (done ss : List Sexpr) : collect ⟨done, []⟩ ss = ⟨ss.reverse ++ done, []⟩ := by
  induction ss generalizing done with
  | nil => rfl
  | cons s ss ih =>
    rw [List.reverse_cons, List.append_assoc]
    exact ih (s :: done)

theorem collect_list (done items ss : List Sexpr) (b : Bracket) (l : Location) (d : Nat)
    (outer : List OpenForm) : collect ⟨done, .list b l d items :: outer⟩ ss =
      ⟨done, .list b l d (ss.reverse ++ items) :: outer⟩ := by
  induction ss generalizing items with
  | nil => rfl
  | cons s ss ih =>
    rw [List.reverse_cons, List.append_assoc]
    exact ih (s :: items)

theorem collect_vector (done items ss : List Sexpr) (l : Location) (d : Nat)
    (outer : List OpenForm) : collect ⟨done, .vector l d items :: outer⟩ ss =
      ⟨done, .vector l d (ss.reverse ++ items) :: outer⟩ := by
  induction ss generalizing items with
  | nil => rfl
  | cons s ss ih =>
    rw [List.reverse_cons, List.append_assoc]
    exact ih (s :: items)

theorem Collects.open (h : r.Collects) : r.Open := by
  unfold Collects at h
  unfold Open
  split
  · rename_i hp
    rw [hp] at h
    exact h
  · trivial

theorem Collects.noted (h : r.Collects) : Reader.noted r.pending = r.pending := by
  unfold Collects at h
  unfold Reader.noted
  split
  · rename_i hp
    rw [hp] at h
    exact h.elim
  · rfl

theorem Collects.complete (h : r.Collects) (s : Sexpr) :
    (Reader.complete r.done s r.pending).Collects ∧
      (Reader.complete r.done s r.pending).depth = r.depth := by
  obtain ⟨done, pending⟩ := r
  rcases pending with _ | ⟨form, outer⟩
  · exact ⟨trivial, rfl⟩
  · cases form with
    | list | vector => exact ⟨trivial, rfl⟩
    | quoted | comment | dot | tail => exact h.elim

end Reader

open Reader

mutual

/-- The tokens of a datum are read as the datum, wherever one may begin. -/
theorem Sexpr.Spells.runs (limit : Nat) {loose : Bool} {ts : List Token} {s : Sexpr} {r : Reader} :
    Spells loose ts s → r.Open → r.depth + ts.length ≤ limit →
      Runs limit r ts (complete r.done s r.pending)
  | .literal kind, hopen, hlimit => .one (.datum hopen (by rw [begun?, kind])) hlimit
  | .identifier kind, hopen, hlimit => .one (.datum hopen (by rw [begun?, kind])) hlimit
  | @Spells.quoted _ t m cs ts s kind comments datum, hopen, hlimit => by
    simp only [List.length_cons, List.length_append] at hlimit
    let inner : Reader := r.opened (.quoted m t.location (r.depth + 1) false)
    have hinner : inner.depth = r.depth + 1 := rfl
    obtain ⟨r', hcomments, hlike⟩ := comments.runs (r := inner) limit (.inl rfl) (by omega)
    have hlike : Like inner r' := hlike
    have hdatum := datum.runs limit (hlike.open trivial) (by rw [hlike.depth, hinner]; omega)
    rw [hlike.complete] at hdatum
    exact .cons (.datum hopen (by rw [begun?, kind])) (by omega) (hcomments.append hdatum)
  | @Spells.list _ t u b ts ss opens items closes, hopen, hlimit => by
    simp only [List.length_cons, List.length_append, List.length_nil] at hlimit
    let inner : Reader := r.opened (.list b t.location (r.depth + 1) [])
    have hinner : inner.depth = r.depth + 1 := rfl
    obtain ⟨r', hitems, hlike⟩ := items.runs (r := inner) limit (.inr trivial) (by omega)
    rw [show inner.collect ss = _ from collect_list .., List.append_nil] at hlike
    obtain rfl : r' = ⟨r.done, .list b t.location (r.depth + 1) ss.reverse :: r.pending⟩ :=
      hlike.elim id id
    have hclose : Takes ⟨r.done, .list b t.location (r.depth + 1) ss.reverse :: r.pending⟩ u
        (complete r.done (.list ss.reverse.reverse (some t.location)) r.pending) := .list closes
    rw [List.reverse_reverse] at hclose
    refine .cons (.datum hopen (by rw [begun?, opens])) (by omega) (hitems.append (.one hclose ?_))
    rw [depth_cons, OpenForm.depth]
    omega
  | @Spells.dotted _ t u v b ts us cs ds vs es ss s tail joined opens items last between tight dot
      before datum behind closes joins, hopen, hlimit => by
    simp only [List.length_cons, List.length_append, List.length_nil] at hlimit
    -- The reader in the list, and what the items leave of it.
    let inside (items : List Sexpr) : Reader :=
      ⟨r.done, .list b t.location (r.depth + 1) items :: r.pending⟩
    have hinside : ∀ items, (inside items).depth = r.depth + 1 := fun _ => rfl
    obtain ⟨r₁, hitems, hlike₁⟩ :=
      items.runs (r := inside []) limit (.inr trivial) (by rw [hinside]; omega)
    rw [show (inside []).collect ss = _ from collect_list .., List.append_nil] at hlike₁
    obtain rfl : r₁ = inside ss.reverse := hlike₁.elim id id
    have hlast := last.runs (r := inside ss.reverse) limit trivial (by rw [hinside]; omega)
    obtain ⟨r₂, hbetween, hlike₂⟩ :=
      between.runs (r := inside (s :: ss.reverse)) limit (.inl rfl) (by rw [hinside]; omega)
    obtain rfl : r₂ = inside (s :: ss.reverse) := hlike₂.elim id id
    -- The reader behind the dot, and behind the tail.
    let dotted : Reader :=
      ⟨r.done, .dot b t.location (r.depth + 1) (s :: ss.reverse) u.location :: r.pending⟩
    have hdotted : dotted.depth = r.depth + 1 := rfl
    obtain ⟨r₃, hbefore, hlike₃⟩ :=
      before.runs (r := dotted) limit (.inl rfl) (by rw [hdotted]; omega)
    obtain rfl : r₃ = dotted := hlike₃.elim id id
    have hdatum := datum.runs (r := dotted) limit trivial (by rw [hdotted]; omega)
    let tailed : Reader :=
      ⟨r.done, .tail b t.location (r.depth + 1) (s :: ss.reverse) tail :: r.pending⟩
    have htailed : tailed.depth = r.depth + 1 := rfl
    obtain ⟨r₄, hbehind, hlike₄⟩ :=
      behind.runs (r := tailed) limit (.inl rfl) (by rw [htailed]; omega)
    obtain rfl : r₄ = tailed := hlike₄.elim id id
    have hclose : Takes tailed v
        (complete r.done (Reader.joined (s :: ss.reverse).reverse tail t.location) r.pending) :=
      .tail closes
    rw [List.reverse_cons, List.reverse_reverse, ← joins.eq_joined] at hclose
    have hitems := (hitems.append hlast).append hbetween
    have htail := ((hbefore.append hdatum).append hbehind).append
      (.one hclose (by rw [htailed]; omega))
    have hdot : Runs limit (inside (s :: ss.reverse)) _ _ :=
      .cons (.dot (by simp) dot) (by rw [hinside]; omega) htail
    have hbegun : r.begun? t = some (inside []) := by
      rw [begun?, opens]
      rfl
    exact .cons (.datum hopen hbegun) (by omega) (hitems.append hdot)
  | @Spells.vector _ t u ts ss opens items closes, hopen, hlimit => by
    simp only [List.length_cons, List.length_append, List.length_nil] at hlimit
    let inner : Reader := r.opened (.vector t.location (r.depth + 1) [])
    have hinner : inner.depth = r.depth + 1 := rfl
    obtain ⟨r', hitems, hlike⟩ := items.runs (r := inner) limit (.inr trivial) (by omega)
    rw [show inner.collect ss = _ from collect_vector .., List.append_nil] at hlike
    obtain rfl : r' = ⟨r.done, .vector t.location (r.depth + 1) ss.reverse :: r.pending⟩ :=
      hlike.elim id id
    have hclose : Takes ⟨r.done, .vector t.location (r.depth + 1) ss.reverse :: r.pending⟩ u
        (complete r.done (.vector ss.reverse.reverse (some t.location)) r.pending) :=
      .vector closes
    rw [List.reverse_reverse] at hclose
    refine .cons (.datum hopen (by rw [begun?, opens])) (by omega) (hitems.append (.one hclose ?_))
    rw [depth_cons, OpenForm.depth]
    omega

theorem Sexpr.Series.runs (limit : Nat) {loose : Bool} {ts : List Token} {ss : List Sexpr}
    {r : Reader} : Series loose ts ss → ss = [] ∨ r.Collects → r.depth + ts.length ≤ limit →
      ∃ r', Runs limit r ts r' ∧ Like (r.collect ss) r'
  | .nil, _, _ => ⟨r, .nil r, .inl rfl⟩
  | @Series.comment _ t cs ts us s ss kind comments datum rest, hss, hlimit => by
    simp only [List.length_cons, List.length_append] at hlimit
    have hdepth := commentDepth_le r
    let inner : Reader := ⟨r.done, .comment r.commentDepth :: noted r.pending⟩
    have hinner : inner.depth = r.commentDepth := rfl
    obtain ⟨r₁, hcomments, hlike⟩ := comments.runs (r := inner) limit (.inl rfl) (by omega)
    have hlike : Like inner r₁ := hlike
    have hdatum := datum.runs limit (hlike.open trivial) (by rw [hlike.depth, hinner]; omega)
    rw [hlike.complete] at hdatum
    have hnoted : Like r ⟨r.done, noted r.pending⟩ := .inr rfl
    have hcollect : ss = [] ∨ Collects ⟨r.done, noted r.pending⟩ := by
      rcases hss with hss | hss
      · exact .inl hss
      · exact .inr (by rwa [hss.noted])
    obtain ⟨r₂, hrest, hlike₂⟩ := rest.runs limit hcollect (by rw [hnoted.depth]; omega)
    refine ⟨r₂, .cons (.comment kind) (by omega) ((hcomments.append hdatum).append hrest), ?_⟩
    rcases hss with rfl | hss
    · exact hnoted.trans hlike₂
    · rwa [hss.noted] at hlike₂
  | @Series.datum _ ts us s ss datum rest, hss, hlimit => by
    rw [List.length_append] at hlimit
    have hr : r.Collects := hss.resolve_left (by simp)
    have hdatum := datum.runs limit hr.open (by omega)
    obtain ⟨hnext, hdepth⟩ := hr.complete s
    obtain ⟨r', hrest, hlike⟩ := rest.runs limit (.inr hnext) (by rw [hdepth]; omega)
    exact ⟨r', hdatum.append hrest, hlike⟩

end

end RegisterScheme
