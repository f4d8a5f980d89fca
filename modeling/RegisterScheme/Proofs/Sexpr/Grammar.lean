import RegisterScheme.Sexpr.Basic
import RegisterScheme.Token.Basic

/-! The grammar of data: which tokens spell an expression, and which spell a series of expressions
with datum comments among them. Nothing here says how tokens are read. -/

namespace RegisterScheme

namespace Sexpr

/-- A list in front of a tail, at a place. A tail that is a list itself goes on with its items. -/
inductive Joins (place : Option Location) (items : List Sexpr) : Sexpr → Sexpr → Prop
  | list {more : List Sexpr} {l : Option Location} :
      Joins place items (.list more l) (.list (items ++ more) place)
  | dotted {more : List Sexpr} {last : Sexpr} {l : Option Location} :
      Joins place items (.dotted more last l) (.dotted (items ++ more) last place)
  | datum {tail : Sexpr} (not_list : ∀ more l, tail ≠ .list more l)
      (not_dotted : ∀ more last l, tail ≠ .dotted more last l) :
      Joins place items tail (.dotted items tail place)

mutual

/-- The tokens of a datum, without any comment in front of it. Behind a mark, a comment sign or a
dot comments may stand before the datum, and also before a closing bracket. If the grammar is
`loose`, they may stand before a dot too. -/
inductive Spells (loose : Bool) : List Token → Sexpr → Prop
  | literal {t : Token} {a : Atom} (kind : t.kind = .literal a) :
      Spells loose [t] (.literal a (some t.location))
  | identifier {t : Token} {name : String} (kind : t.kind = .identifier name) :
      Spells loose [t] (.identifier name (some t.location))
  | quoted {t : Token} {m : QuoteMark} {cs ts : List Token} {s : Sexpr} (kind : t.kind = .mark m)
      (comments : Series loose cs []) (datum : Spells loose ts s) :
      Spells loose (t :: (cs ++ ts))
        (.list [.identifier m.name (some t.location), s] (some t.location))
  | list {t u : Token} {b : Bracket} {ts : List Token} {ss : List Sexpr}
      (opens : t.kind = .opening b) (items : Series loose ts ss) (closes : u.kind = .closing b) :
      Spells loose (t :: (ts ++ [u])) (.list ss (some t.location))
  | dotted {t u v : Token} {b : Bracket} {ts us cs ds vs es : List Token} {ss : List Sexpr}
      {s tail joined : Sexpr} (opens : t.kind = .opening b) (items : Series loose ts ss)
      (last : Spells loose us s) (between : Series loose cs []) (tight : loose = true ∨ cs = [])
      (dot : u.kind = .dot) (before : Series loose ds []) (datum : Spells loose vs tail)
      (behind : Series loose es []) (closes : v.kind = .closing b)
      (joins : Joins (some t.location) (ss ++ [s]) tail joined) :
      Spells loose (t :: (ts ++ us ++ cs ++ u :: (ds ++ vs ++ es ++ [v]))) joined
  | vector {t u : Token} {ts : List Token} {ss : List Sexpr} (opens : t.kind = .openVector)
      (items : Series loose ts ss) (closes : u.kind = .closing .round) :
      Spells loose (t :: (ts ++ [u])) (.vector ss (some t.location))

/-- Data with datum comments before each of them and behind the last. -/
inductive Series (loose : Bool) : List Token → List Sexpr → Prop
  | nil : Series loose [] []
  | comment {t : Token} {cs ts us : List Token} {s : Sexpr} {ss : List Sexpr}
      (kind : t.kind = .datumComment) (comments : Series loose cs []) (datum : Spells loose ts s)
      (rest : Series loose us ss) : Series loose (t :: (cs ++ ts ++ us)) ss
  | datum {ts us : List Token} {s : Sexpr} {ss : List Sexpr} (datum : Spells loose ts s)
      (rest : Series loose us ss) : Series loose (ts ++ us) (s :: ss)

end

theorem Series.one {loose : Bool} {ts : List Token} {s : Sexpr} (h : Spells loose ts s) :
    Series loose ts [s] := by
  have hs := Series.datum h .nil
  rwa [List.append_nil] at hs

/-- One datum comment. -/
theorem Series.skipped {loose : Bool} {t : Token} {cs ts : List Token} {s : Sexpr}
    (ht : t.kind = .datumComment) (hc : Series loose cs []) (h : Spells loose ts s) :
    Series loose (t :: (cs ++ ts)) [] := by
  have hs := Series.comment ht hc h .nil
  rwa [List.append_nil] at hs

theorem Series.append {loose : Bool} {ts us : List Token} {ss ss' : List Sexpr} :
    Series loose ts ss → Series loose us ss' → Series loose (ts ++ us) (ss ++ ss')
  | .nil, h' => h'
  | .comment ht hc hd hrest, h' => by
    have hs := Series.comment ht hc hd (hrest.append h')
    simpa only [List.cons_append, List.append_assoc] using hs
  | .datum hd hrest, h' => by
    have hs := Series.datum hd (hrest.append h')
    simpa only [List.cons_append, List.append_assoc] using hs

/-- The last datum of a series, with the comments behind it. -/
theorem Series.split_last {loose : Bool} {ts : List Token} {ss all : List Sexpr} {s : Sexpr} :
    Series loose ts all → all = ss ++ [s] →
      ∃ before own behind, ts = before ++ own ++ behind ∧ Series loose before ss ∧
        Spells loose own s ∧ Series loose behind []
  | .nil, he => by simp at he
  | .comment ht hc hd hrest, he => by
    obtain ⟨before, own, behind, rfl, hbefore, hown, hbehind⟩ := hrest.split_last he
    refine ⟨_, own, behind, ?_, .comment ht hc hd hbefore, hown, hbehind⟩
    simp only [List.cons_append, List.append_assoc]
  | @Series.datum _ first _ _ _ hd hrest, he => by
    cases ss with
    | nil =>
      obtain ⟨rfl, rfl⟩ := List.cons.inj he
      exact ⟨[], first, _, rfl, .nil, hd, hrest⟩
    | cons s₀ ss =>
      obtain ⟨rfl, hss⟩ := List.cons.inj he
      obtain ⟨before, own, behind, rfl, hbefore, hown, hbehind⟩ := hrest.split_last hss
      refine ⟨first ++ before, own, behind, ?_, .datum hd hbefore, hown, hbehind⟩
      simp only [List.append_assoc]

/-- A datum begins neither with a comment sign nor with a dot or a closing bracket. -/
theorem Spells.first {loose : Bool} {ts : List Token} {s : Sexpr} (h : Spells loose ts s) :
    ∃ t us, ts = t :: us ∧ t.kind ≠ .datumComment ∧ t.kind ≠ .dot ∧ ∀ b, t.kind ≠ .closing b := by
  cases h with
  | literal kind | identifier kind | quoted kind => exact ⟨_, _, rfl, by simp [kind]⟩
  | list opens | dotted opens | vector opens => exact ⟨_, _, rfl, by simp [opens]⟩

/-- A name is a datum for itself. -/
theorem Spells.of_identifier {loose : Bool} {t : Token} {ts : List Token} {s : Sexpr}
    {name : String} (h : Spells loose (t :: ts) s) (ht : t.kind = .identifier name) : ts = [] := by
  cases h with
  | literal | identifier => rfl
  | quoted kind => simp [ht] at kind
  | list opens | dotted opens | vector opens => simp [ht] at opens

theorem Series.of_identifier {loose : Bool} {t : Token} {ts : List Token} {ss : List Sexpr}
    {name : String} (h : Series loose (t :: ts) ss) (ht : t.kind = .identifier name) :
    ss ≠ [] ∧ ∃ ss', Series loose ts ss' := by
  generalize hall : t :: ts = all at h
  cases h with
  | nil => cases hall
  | comment kind =>
    obtain ⟨rfl, -⟩ := List.cons.inj hall
    simp [ht] at kind
  | @datum own us s ss' hown hrest =>
    obtain ⟨t', own', rfl, -⟩ := hown.first
    obtain ⟨rfl, rfl⟩ := List.cons.inj hall
    obtain rfl := hown.of_identifier ht
    exact ⟨by simp, ss', hrest⟩

/-- A comment sign covers a datum, perhaps behind other comments. -/
theorem Series.of_comment {loose : Bool} {t : Token} {ts : List Token} {ss : List Sexpr}
    (h : Series loose (t :: ts) ss) (ht : t.kind = .datumComment) :
    ∃ cs own rest s, ts = cs ++ own ++ rest ∧ Series loose cs [] ∧ Spells loose own s ∧
      Series loose rest ss := by
  generalize hall : t :: ts = all at h
  cases h with
  | nil => cases hall
  | comment kind hcs hown hrest =>
    obtain ⟨rfl, rfl⟩ := List.cons.inj hall
    exact ⟨_, _, _, _, rfl, hcs, hown, hrest⟩
  | datum hown =>
    obtain ⟨t', own', rfl, hno, -⟩ := hown.first
    obtain ⟨rfl, -⟩ := List.cons.inj hall
    exact absurd ht hno

/-- A series goes on neither with a dot nor with a closing bracket. -/
theorem Series.first {loose : Bool} {t : Token} {ts : List Token} {ss : List Sexpr}
    (h : Series loose (t :: ts) ss) : t.kind ≠ .dot ∧ ∀ b, t.kind ≠ .closing b := by
  generalize hall : t :: ts = all at h
  cases h with
  | nil => cases hall
  | comment kind =>
    obtain ⟨rfl, -⟩ := List.cons.inj hall
    simp [kind]
  | datum hown =>
    obtain ⟨t', own', rfl, -, hfirst⟩ := hown.first
    obtain ⟨rfl, -⟩ := List.cons.inj hall
    exact hfirst

end Sexpr

end RegisterScheme
