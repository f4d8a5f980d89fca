import Mathlib.Data.List.Forall2
import RegisterScheme.Proofs.Correctness.Parsing
import RegisterScheme.Proofs.Correctness.Tokens
import RegisterScheme.Program

/-! Data that differ in their places alone. Where two texts stand in lines of their own, the whole
is read as the data of the one and then those of the other, at other places. -/

namespace RegisterScheme

variable {options : ReadOptions} {origin : String}

namespace Lexer

/-- A newline ends what stands behind the last token. -/
theorem Trailing.gap_newline {comments : Bool} {cs : List Char} (h : Trailing comments cs) :
    Gap comments (cs ++ ['\n']) := by
  cases h with
  | gap h => exact h.append (.space (by decide) .nil)
  | line hcomments hgap htext =>
    subst hcomments
    exact (Trailing.line rfl hgap htext).newline .nil

end Lexer

open Lexer

/-- The tokens of two texts, the second in a line of its own. -/
theorem tokenize_lines {a b : String} {ts us : List Token}
    (ha : tokenize options origin a = .ok ts) (hb : tokenize options origin b = .ok us) :
    ∃ vs, tokenize options origin (a ++ "\n" ++ b) = .ok vs ∧
      vs.map Token.kind = (ts ++ us).map Token.kind := by
  have hscanned := tokenize_scanned ha
  generalize hcs : a.toList = cs at hscanned
  cases hscanned with
  | @ended own trailing tokens hlaid htrailing =>
    have hreplaces : Replaces (trailing ++ (['\n'] ++ b.toList)) (trailing ++ []) :=
      .append (.inl rfl)
    rw [List.append_nil] at hreplaces
    obtain ⟨left, hleft, hlexes⟩ := (hlaid.replace hreplaces).lexes .nil
    obtain ⟨q, read, hscan, hkinds⟩ := hlexes .start []
    have hall : (a ++ "\n" ++ b).toList = [] ++ (own ++ (trailing ++ (['\n'] ++ b.toList))) := by
      simp [hcs]
    have hread : (read.reverse ++ []).reverse.map Token.kind =
        ([].reverse ++ tokens).map Token.kind := by simpa using hkinds
    obtain ⟨vs, hvs, hsame⟩ := (tokenize_scanned hb).continues
      (hleft.append htrailing.gap_newline) q hread
    refine ⟨vs, ?_, hsame.trans List.map_append.symm⟩
    rw [tokenize, hall, hscan, ← hvs]
    simp only [List.append_assoc]

namespace Sexpr

/-- The same expression, perhaps at other places. -/
inductive Alike : Sexpr → Sexpr → Prop
  | literal (a : Atom) (l l' : Option Location) : Alike (.literal a l) (.literal a l')
  | identifier (name : String) (l l' : Option Location) :
      Alike (.identifier name l) (.identifier name l')
  | list {items items' : List Sexpr} (h : List.Forall₂ Alike items items')
      (l l' : Option Location) : Alike (.list items l) (.list items' l')
  | dotted {items items' : List Sexpr} {tail tail' : Sexpr} (h : List.Forall₂ Alike items items')
      (ht : Alike tail tail') (l l' : Option Location) :
      Alike (.dotted items tail l) (.dotted items' tail' l')
  | vector {items items' : List Sexpr} (h : List.Forall₂ Alike items items')
      (l l' : Option Location) : Alike (.vector items l) (.vector items' l')

mutual

/-- The names in an expression, quoted or not. -/
def names : Sexpr → List String
  | literal _ _ => []
  | identifier name _ => [name]
  | list items _ | vector items _ => namesOfItems items
  | dotted items tail _ => namesOfItems items ++ tail.names

def namesOfItems : List Sexpr → List String
  | [] => []
  | s :: ss => s.names ++ namesOfItems ss

end

/-- A list in front of tails that are alike. -/
theorem Joins.alike {place : Option Location} (place' : Option Location)
    {items items' : List Sexpr} {tail tail' s : Sexpr} (h : Joins place items tail s)
    (hi : List.Forall₂ Alike items items') (ht : tail.Alike tail') : ∃ s', Joins place' items' tail' s' ∧ s.Alike s' := by
  cases h with
  | list =>
    cases ht with
    | list hmore => exact ⟨_, .list, .list (List.rel_append hi hmore) _ _⟩
  | dotted =>
    cases ht with
    | dotted hmore hlast => exact ⟨_, .dotted, .dotted (List.rel_append hi hmore) hlast _ _⟩
  | datum hlist hdotted =>
    refine ⟨_, .datum ?_ ?_, .dotted hi ht _ _⟩
    · rintro more l rfl
      cases ht
      exact hlist _ _ rfl
    · rintro more last l rfl
      cases ht
      exact hdotted _ _ _ rfl

variable {loose : Bool}

theorem map_kind_cons {t : Token} {ts us : List Token}
    (h : us.map Token.kind = (t :: ts).map Token.kind) :
    ∃ u vs, us = u :: vs ∧ u.kind = t.kind ∧ vs.map Token.kind = ts.map Token.kind :=
  List.map_eq_cons_iff.mp h

theorem map_kind_append {ts ts' us : List Token}
    (h : us.map Token.kind = (ts ++ ts').map Token.kind) :
    ∃ vs vs', us = vs ++ vs' ∧ vs.map Token.kind = ts.map Token.kind ∧
      vs'.map Token.kind = ts'.map Token.kind := by
  rw [List.map_append] at h
  exact List.map_eq_append_iff.mp h

mutual

/-- Tokens of the same kinds spell the same. -/
theorem Spells.alike {ts us : List Token} {s : Sexpr} (h : Spells loose ts s)
    (hkinds : us.map Token.kind = ts.map Token.kind) : ∃ s', Spells loose us s' ∧ s.Alike s' := by
  match h with
  | .literal kind =>
    obtain ⟨u, vs, rfl, hu, hvs⟩ := map_kind_cons hkinds
    obtain rfl := List.map_eq_nil_iff.mp hvs
    exact ⟨_, .literal (hu.trans kind), .literal _ _ _⟩
  | .identifier kind =>
    obtain ⟨u, vs, rfl, hu, hvs⟩ := map_kind_cons hkinds
    obtain rfl := List.map_eq_nil_iff.mp hvs
    exact ⟨_, .identifier (hu.trans kind), .identifier _ _ _⟩
  | .quoted kind comments datum =>
    obtain ⟨u, vs, rfl, hu, hvs⟩ := map_kind_cons hkinds
    obtain ⟨cs, ts, rfl, hcs, hts⟩ := map_kind_append hvs
    obtain ⟨_, hcomments, h⟩ := comments.alike hcs
    cases h
    obtain ⟨s', hdatum, hs⟩ := datum.alike hts
    exact ⟨_, .quoted (hu.trans kind) hcomments hdatum,
      .list (.cons (.identifier _ _ _) (.cons hs .nil)) _ _⟩
  | .list opens items closes =>
    obtain ⟨u, vs, rfl, hu, hvs⟩ := map_kind_cons hkinds
    obtain ⟨ts, ws, rfl, hts, hws⟩ := map_kind_append hvs
    obtain ⟨w, _, rfl, hw, hnil⟩ := map_kind_cons hws
    obtain rfl := List.map_eq_nil_iff.mp hnil
    obtain ⟨ss', hitems, hss⟩ := items.alike hts
    exact ⟨_, .list (hu.trans opens) hitems (hw.trans closes), .list hss _ _⟩
  | .dotted opens items last between tight dot before datum behind closes joins =>
    obtain ⟨t', all, rfl, ht, hall⟩ := map_kind_cons hkinds
    obtain ⟨front, back, rfl, hfront, hback⟩ := map_kind_append hall
    obtain ⟨front, cs', rfl, hfront, hcs⟩ := map_kind_append hfront
    obtain ⟨ts', us', rfl, hts, hus⟩ := map_kind_append hfront
    obtain ⟨u', back, rfl, hu, hback⟩ := map_kind_cons hback
    obtain ⟨back, end', rfl, hback, hend⟩ := map_kind_append hback
    obtain ⟨back, es', rfl, hback, hes⟩ := map_kind_append hback
    obtain ⟨ds', vs', rfl, hds, hvs⟩ := map_kind_append hback
    obtain ⟨v', _, rfl, hv, hnil⟩ := map_kind_cons hend
    obtain rfl := List.map_eq_nil_iff.mp hnil
    obtain ⟨ss', hitems, hss⟩ := items.alike hts
    obtain ⟨s', hlast, hs⟩ := last.alike hus
    obtain ⟨_, hbetween, h⟩ := between.alike hcs
    cases h
    obtain ⟨_, hbefore, h⟩ := before.alike hds
    cases h
    obtain ⟨tail', hdatum, htail⟩ := datum.alike hvs
    obtain ⟨_, hbehind, h⟩ := behind.alike hes
    cases h
    obtain ⟨joined, hjoins, hjoined⟩ := joins.alike (some t'.location)
      (List.rel_append hss (.cons hs .nil)) htail
    have htight : loose = true ∨ cs' = [] := tight.imp_right fun h => by
      rw [h] at hcs
      exact List.map_eq_nil_iff.mp hcs
    exact ⟨_, .dotted (ht.trans opens) hitems hlast hbetween htight (hu.trans dot) hbefore hdatum
      hbehind (hv.trans closes) hjoins, hjoined⟩
  | .vector opens items closes =>
    obtain ⟨u, vs, rfl, hu, hvs⟩ := map_kind_cons hkinds
    obtain ⟨ts, ws, rfl, hts, hws⟩ := map_kind_append hvs
    obtain ⟨w, _, rfl, hw, hnil⟩ := map_kind_cons hws
    obtain rfl := List.map_eq_nil_iff.mp hnil
    obtain ⟨ss', hitems, hss⟩ := items.alike hts
    exact ⟨_, .vector (hu.trans opens) hitems (hw.trans closes), .vector hss _ _⟩

theorem Series.alike {ts us : List Token} {ss : List Sexpr} (h : Series loose ts ss)
    (hkinds : us.map Token.kind = ts.map Token.kind) :
    ∃ ss', Series loose us ss' ∧ List.Forall₂ Alike ss ss' := by
  match h with
  | .nil =>
    obtain rfl := List.map_eq_nil_iff.mp hkinds
    exact ⟨[], .nil, .nil⟩
  | .comment kind comments datum rest =>
    obtain ⟨t', all, rfl, ht, hall⟩ := map_kind_cons hkinds
    obtain ⟨front, us', rfl, hfront, hus⟩ := map_kind_append hall
    obtain ⟨cs', ts', rfl, hcs, hts⟩ := map_kind_append hfront
    obtain ⟨_, hcomments, h⟩ := comments.alike hcs
    cases h
    obtain ⟨s', hdatum, -⟩ := datum.alike hts
    obtain ⟨ss', hrest, hss⟩ := rest.alike hus
    exact ⟨_, .comment (ht.trans kind) hcomments hdatum hrest, hss⟩
  | .datum datum rest =>
    obtain ⟨ts', us', rfl, hts, hus⟩ := map_kind_append hkinds
    obtain ⟨s', hdatum, hs⟩ := datum.alike hts
    obtain ⟨ss', hrest, hss⟩ := rest.alike hus
    exact ⟨_, .datum hdatum hrest, .cons hs hss⟩

end

/-- What is read of two texts, the second in a line of its own. -/
theorem ofText_lines {a b : String} {fs gs hs : List Sexpr}
    (ha : ofText options origin a = .ok fs) (hb : ofText options origin b = .ok gs)
    (hab : ofText options origin (a ++ "\n" ++ b) = .ok hs) :
    ∃ fs' gs', hs = fs' ++ gs' ∧ List.Forall₂ Alike fs fs' ∧ List.Forall₂ Alike gs gs' := by
  obtain ⟨ts, hts, hfs⟩ := ok_of_bind (malformedFailure_eq_ok ha)
  obtain ⟨us, hus, hgs⟩ := ok_of_bind (malformedFailure_eq_ok hb)
  obtain ⟨vs, hvs, hhs⟩ := ok_of_bind (malformedFailure_eq_ok hab)
  obtain ⟨vs', hvs', hkinds⟩ := tokenize_lines hts hus
  obtain rfl : vs' = vs := Except.ok.inj (hvs'.symm.trans hvs)
  obtain ⟨ts', us', rfl, hts', hus'⟩ := map_kind_append hkinds
  obtain ⟨fs', hfs', halike⟩ := (series_of_readAll hfs).alike hts'
  obtain ⟨gs', hgs', halike'⟩ := (series_of_readAll hgs).alike hus'
  have hall := (hfs'.append hgs').readAll (Nat.le_refl _)
  have hall' := (series_of_readAll hhs).readAll (Nat.le_refl _)
  exact ⟨fs', gs', Except.ok.inj (hall'.symm.trans hall), halike, halike'⟩

/-- Expressions of one form, whose parts are related. All names at the top are known. -/
inductive Shape (known : String → Prop) (R : Sexpr → Sexpr → Prop) : Sexpr → Sexpr → Prop
  | literal (a : Atom) (l l' : Option Location) : Shape known R (.literal a l) (.literal a l')
  | identifier {name : String} (h : known name) (l l' : Option Location) :
      Shape known R (.identifier name l) (.identifier name l')
  | list {items items' : List Sexpr} (h : List.Forall₂ R items items') (l l' : Option Location) :
      Shape known R (.list items l) (.list items' l')
  | dotted {items items' : List Sexpr} {tail tail' : Sexpr} (h : List.Forall₂ R items items')
      (ht : R tail tail') (l l' : Option Location) :
      Shape known R (.dotted items tail l) (.dotted items' tail' l')
  | vector {items items' : List Sexpr} (h : List.Forall₂ R items items')
      (l l' : Option Location) : Shape known R (.vector items l) (.vector items' l')

/-- A relation of expressions that holds of their parts as well. -/
def Likeness (known : String → Prop) (R : Sexpr → Sexpr → Prop) : Prop :=
  ∀ s s', R s s' → Shape known R s s'

theorem height_pos (s : Sexpr) : 0 < s.height := by
  cases s <;> exact Nat.succ_pos _

theorem heightOfItems_append (ss ts : List Sexpr) :
    heightOfItems (ss ++ ts) = max (heightOfItems ss) (heightOfItems ts) := by
  induction ss with
  | nil => exact (Nat.zero_max _).symm
  | cons s ss ih => rw [List.cons_append, heightOfItems, heightOfItems, ih, Nat.max_assoc]

/-- The same expression, with known names and of a limited height. -/
structure Within (known : String → Prop) (n n' : Nat) (s s' : Sexpr) : Prop where
  alike : s.Alike s'
  names : ∀ name ∈ s.names, known name
  height : s.height ≤ n
  height' : s'.height ≤ n'

theorem Within.items {known : String → Prop} {n n' : Nat} {items items' : List Sexpr}
    (h : List.Forall₂ Alike items items') (hnames : ∀ name ∈ namesOfItems items, known name)
    (hheight : heightOfItems items ≤ n) (hheight' : heightOfItems items' ≤ n') :
    List.Forall₂ (Within known n n') items items' := by
  induction h with
  | nil => exact .nil
  | cons hs _ ih =>
    rw [heightOfItems, Nat.max_le] at hheight hheight'
    rw [namesOfItems, List.forall_mem_append] at hnames
    exact .cons ⟨hs, hnames.1, hheight.1, hheight'.1⟩ (ih hnames.2 hheight.2 hheight'.2)

/-- Parts are lower. -/
theorem Within.shape {known : String → Prop} {n n' : Nat} {s s' : Sexpr}
    (h : Within known (n + 1) (n' + 1) s s') : Shape known (Within known n n') s s' := by
  obtain ⟨halike, hnames, hheight, hheight'⟩ := h
  cases halike with
  | literal a l l' => exact .literal a l l'
  | identifier name l l' => exact .identifier (hnames name (List.mem_singleton_self name)) l l'
  | list h l l' =>
    rw [Sexpr.height, Nat.add_le_add_iff_right] at hheight hheight'
    exact .list (Within.items h hnames hheight hheight') l l'
  | dotted h ht l l' =>
    rw [Sexpr.height, Nat.add_le_add_iff_right, Nat.max_le] at hheight hheight'
    rw [Sexpr.names, List.forall_mem_append] at hnames
    exact .dotted (Within.items h hnames.1 hheight.1 hheight'.1)
      ⟨ht, hnames.2, hheight.2, hheight'.2⟩ l l'
  | vector h l l' =>
    rw [Sexpr.height, Nat.add_le_add_iff_right] at hheight hheight'
    exact .vector (Within.items h hnames hheight hheight') l l'

theorem Shape.mono {known : String → Prop} {R S : Sexpr → Sexpr → Prop} {s s' : Sexpr}
    (h : Shape known R s s') (hRS : ∀ t t', R t t' → S t t') : Shape known S s s' := by
  cases h with
  | literal a l l' => exact .literal a l l'
  | identifier h l l' => exact .identifier h l l'
  | list h l l' => exact .list (h.imp hRS) l l'
  | dotted h ht l l' => exact .dotted (h.imp hRS) (hRS _ _ ht) l l'
  | vector h l l' => exact .vector (h.imp hRS) l l'

theorem likeness_within (known : String → Prop) (n n' : Nat) :
    Likeness known (Within known n n') := by
  intro s s' h
  refine Shape.mono (R := Within known n n') ?_ fun _ _ h => h
  have hup : Within known (n + 1) (n' + 1) s s' :=
    ⟨h.alike, h.names, Nat.le_succ_of_le h.height, Nat.le_succ_of_le h.height'⟩
  exact hup.shape

/-! ### What does not depend on the places -/

section

variable {known : String → Prop} {R : Sexpr → Sexpr → Prop}

mutual

theorem Likeness.toDatum (hR : Likeness known R) : (s : Sexpr) → {s' : Sexpr} → R s s' →
    s'.toDatum = s.toDatum
  | .literal a l, s', h => by
    cases hR _ _ h
    rfl
  | .identifier name l, s', h => by
    cases hR _ _ h
    rfl
  | .list items l, s', h => by
    cases hR _ _ h with
    | list hs => rw [Sexpr.toDatum, Sexpr.toDatum, hR.toData items hs]
  | .dotted items tail l, s', h => by
    cases hR _ _ h with
    | dotted hs ht =>
      rw [Sexpr.toDatum, Sexpr.toDatum, hR.toData items hs, hR.toDatum tail ht]
  | .vector items l, s', h => by
    cases hR _ _ h with
    | vector hs => rw [Sexpr.toDatum, Sexpr.toDatum, hR.toData items hs]

theorem Likeness.toData (hR : Likeness known R) : (ss : List Sexpr) → {ss' : List Sexpr} →
    List.Forall₂ R ss ss' → Sexpr.toData ss' = Sexpr.toData ss
  | [], _, h => by
    cases h
    rfl
  | s :: ss, _, h => by
    cases h with
    | cons h hs => rw [Sexpr.toData, Sexpr.toData, hR.toDatum s h, hR.toData ss hs]

end

theorem Likeness.identifier? (hR : Likeness known R) {s s' : Sexpr} (h : R s s') :
    s'.identifier? = s.identifier? := by
  cases hR _ _ h <;> rfl

theorem Likeness.known_of_identifier? (hR : Likeness known R) {s s' : Sexpr} (h : R s s')
    {name : String} (hs : s.identifier? = some name) : known name := by
  cases hR _ _ h with
  | identifier hknown =>
    cases hs
    exact hknown
  | literal | list | dotted | vector => cases hs

end

end Sexpr

end RegisterScheme
