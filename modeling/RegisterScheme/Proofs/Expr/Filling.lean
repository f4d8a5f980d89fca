import RegisterScheme.Expr.Quasi

/-! Templates are filled as data: a template is an atom, a vector, or a pair of its first item and
the rest, and the keywords mean the same wherever they stand in it. -/

namespace RegisterScheme

namespace Sexpr

/-- The mark of a keyword that changes the level. -/
def levelMark? : Sexpr → Option QuoteMark
  | identifier name _ => [QuoteMark.quasiquote, .unquote, .unquoteSplicing].find? (·.name == name)
  | _ => none

/-- A keyword that changes the level, with its operand. -/
def levelForm? : Sexpr → Option (QuoteMark × Sexpr × Sexpr)
  | list [head, arg] _ => head.levelMark?.map fun mark => (mark, head, arg)
  | _ => none

/-- The first item of a list, dotted or not, and what comes behind it. -/
def uncons? : Sexpr → Option (Sexpr × Sexpr)
  | list (s :: ss) location => some (s, list ss location)
  | dotted [s] tail _ => some (s, tail)
  | dotted (s :: ss) tail location => some (s, dotted ss tail location)
  | _ => none

/-- Items in front of a tail, or of nothing. -/
def withTail (tail : Option Sexpr) (items : List Sexpr) (location : Option Location) : Sexpr :=
  match tail, items with
  | none, items => list items location
  | some tail, [] => tail
  | some tail, items => dotted items tail location

theorem uncons?_withTail (tail : Option Sexpr) (s : Sexpr) (ss : List Sexpr)
    (location : Option Location) :
    (withTail tail (s :: ss) location).uncons? = some (s, withTail tail ss location) := by
  cases tail with
  | none => rfl
  | some tail => cases ss <;> rfl

theorem toDatum_of_uncons? {s first rest : Sexpr} (h : s.uncons? = some (first, rest)) :
    s.toDatum = .pair first.toDatum rest.toDatum := by
  unfold uncons? at h
  split at h <;> cases h <;> rfl

end Sexpr

/-- A template with its expressions resolved. -/
inductive Filling where
  | atom (a : Atom)
  | pair (car cdr : Filling)
  /-- The elements as a list. -/
  | vector (items : Filling)
  | value (e : Expr)
  /-- The items of a list in front of the rest. -/
  | splice (e : Expr) (cdr : Filling)

namespace Filling

mutual

def ofDatum : Datum → Filling
  | .atom a => atom a
  | .pair car cdr => pair (ofDatum car) (ofDatum cdr)
  | .vector items => vector (ofData items)

def ofData : List Datum → Filling
  | [] => atom .nil
  | d :: ds => pair (ofDatum d) (ofData ds)

end

/-- A keyword and what its operand becomes. -/
def form (keyword : Sexpr) (f : Filling) : Filling :=
  pair (ofDatum keyword.toDatum) (pair f (atom .nil))

/-- The expressions that are evaluated for a filling, from left to right. -/
def expressions : Filling → List Expr
  | atom _ => []
  | pair f g => f.expressions ++ g.expressions
  | vector f => f.expressions
  | value e => [e]
  | splice e g => e :: g.expressions

mutual

theorem expressions_ofDatum : (d : Datum) → (ofDatum d).expressions = []
  | .atom _ => rfl
  | .pair car cdr => by
    rw [ofDatum, expressions, expressions_ofDatum car, expressions_ofDatum cdr, List.append_nil]
  | .vector items => by rw [ofDatum, expressions, expressions_ofData items]

theorem expressions_ofData : (ds : List Datum) → (ofData ds).expressions = []
  | [] => rfl
  | d :: ds => by
    rw [ofData, expressions, expressions_ofDatum d, expressions_ofData ds, List.append_nil]

end

end Filling

section

variable (R : Sexpr → Expr → Prop)

/-- What a template at a level of quasiquotation is filled to, given what its expressions are
resolved to. -/
inductive Fills : Nat → Sexpr → Filling → Prop
  | literal {level : Nat} {a : Atom} {location : Option Location} :
      Fills level (.literal a location) (.atom a)
  | identifier {level : Nat} {name : String} {location : Option Location} :
      Fills level (.identifier name location) (.atom (.symbol name))
  | nil {level : Nat} {location : Option Location} : Fills level (.list [] location) (.atom .nil)
  | unquote {template head arg : Sexpr} {e : Expr}
      (form : template.levelForm? = some (.unquote, head, arg)) (resolved : R arg e) :
      Fills 1 template (.value e)
  | lower {level : Nat} {template head arg : Sexpr} {mark : QuoteMark} {f : Filling}
      (form : template.levelForm? = some (mark, head, arg)) (marked : mark ≠ .quasiquote)
      (inner : Fills (level + 1) arg f) : Fills (level + 2) template (.form head f)
  | raise {level : Nat} {template head arg : Sexpr} {f : Filling}
      (form : template.levelForm? = some (.quasiquote, head, arg))
      (inner : Fills (level + 1) arg f) : Fills level template (.form head f)
  | splice {template first rest head arg : Sexpr} {e : Expr} {g : Filling}
      (plain : template.levelForm? = none) (parts : template.uncons? = some (first, rest))
      (form : first.levelForm? = some (.unquoteSplicing, head, arg)) (resolved : R arg e)
      (tail : Fills 1 rest g) : Fills 1 template (.splice e g)
  | pair {level : Nat} {template first rest : Sexpr} {f g : Filling}
      (plain : template.levelForm? = none) (parts : template.uncons? = some (first, rest))
      (car : Fills level first f) (tail : Fills level rest g) : Fills level template (.pair f g)
  /-- An element is no tail, so nothing in a vector is a keyword but at the head of an element. -/
  | vector {level : Nat} {items : List Sexpr} {location : Option Location} {f : Filling}
      (elements : Fills level (.withTail (some (.list [] location)) items location) f) :
      Fills level (.vector items location) (.vector f)

end

namespace Sexpr

variable (P : Sexpr → Prop)

mutual

/-- A template whose expressions are as given. No list in it ends in a keyword with its operand,
which is how a form behind a dot is read, but for an unquotation at level one. -/
def Plain : Sexpr → Nat → Prop
  | list [head, arg] _, level =>
    match head.levelMark? with
    | some .quasiquote => arg.Plain (level + 1)
    | some _ => if level = 1 then P arg else arg.Plain (level - 1)
    | none => head.Plain level ∧ arg.Plain level
  | list items _, level => PlainItems true items level
  | dotted items tail _, level => items ≠ [] ∧ PlainItems false items level ∧ tail.Plain level
  | vector items _, level =>
    PlainItems false items level ∧ (level = 1 → Resolving.endsInUnquote levelMark? items = false)
  | _, _ => True

/-- Items in a row, with their tails if they are those of a list. -/
def PlainItems : (tails : Bool) → List Sexpr → Nat → Prop
  | _, [], _ => True
  | true, [head, arg], level =>
    match head.levelMark? with
    | some mark => mark = .unquote ∧ level = 1 ∧ P arg
    | none => head.Plain level ∧ arg.Plain level
  | tails, s :: ss, level => s.Plain level ∧ PlainItems tails ss level

end

end Sexpr

section

variable {R : Sexpr → Expr → Prop}

theorem Sexpr.toDatum_of_levelForm? {s head arg : Sexpr} {mark : QuoteMark}
    (h : s.levelForm? = some (mark, head, arg)) :
    Filling.form head (.ofDatum arg.toDatum) = .ofDatum s.toDatum := by
  unfold levelForm? at h
  split at h
  · obtain ⟨m, -, hm⟩ := Option.map_eq_some_iff.mp h
    cases hm
    rfl
  · cases h

/-- A form that changes the level is filled by what its mark says. -/
theorem Fills.of_form {level : Nat} {template head arg : Sexpr} {mark : QuoteMark} {f : Filling}
    (h : Fills R level template f) (hm : template.levelForm? = some (mark, head, arg)) :
    mark = .quasiquote ∧ (∃ g, Fills R (level + 1) arg g) ∨
      mark = .unquote ∧ level = 1 ∨
      mark ≠ .quasiquote ∧ ∃ n g, level = n + 2 ∧ Fills R (n + 1) arg g := by
  cases h with
  | literal => cases hm
  | identifier => cases hm
  | nil => cases hm
  | unquote form resolved =>
    cases form.symm.trans hm
    exact .inr (.inl ⟨rfl, rfl⟩)
  | lower form marked inner =>
    cases form.symm.trans hm
    exact .inr (.inr ⟨marked, _, _, rfl, inner⟩)
  | raise form inner =>
    cases form.symm.trans hm
    exact .inl ⟨rfl, _, inner⟩
  | splice plain => cases plain.symm.trans hm
  | pair plain => cases plain.symm.trans hm
  | vector => cases hm

/-- The expressions of a filling are those of the template, resolved. -/
theorem Fills.resolved {level : Nat} {template : Sexpr} {f : Filling} (h : Fills R level template f) :
    ∀ e ∈ f.expressions, ∃ s, R s e := by
  have hform {head : Sexpr} {g : Filling} (hg : ∀ e ∈ g.expressions, ∃ s, R s e) :
      ∀ e ∈ (Filling.form head g).expressions, ∃ s, R s e := by
    intro e he
    refine hg e ?_
    simpa [Filling.form, Filling.expressions, Filling.expressions_ofDatum] using he
  induction h with
  | literal => exact nofun
  | identifier => exact nofun
  | nil => exact nofun
  | @unquote _ _ arg e form resolved =>
    intro x hx
    obtain rfl := List.mem_singleton.mp hx
    exact ⟨arg, resolved⟩
  | lower form marked inner ih => exact hform ih
  | raise form inner ih => exact hform ih
  | @splice _ _ _ _ arg e g plain parts form resolved tail ih =>
    intro x hx
    obtain rfl | hx := List.mem_cons.mp hx
    · exact ⟨arg, resolved⟩
    · exact ih x hx
  | pair plain parts car tail ihf ihg =>
    intro x hx
    exact (List.mem_append.mp hx).elim (ihf x) (ihg x)
  | vector elements ih => exact ih

theorem Fills.of_raise {level : Nat} {template head arg : Sexpr} {f : Filling}
    (h : Fills R level template f) (hm : template.levelForm? = some (.quasiquote, head, arg)) :
    ∃ g, Fills R (level + 1) arg g := by
  obtain ⟨-, hg⟩ | ⟨hq, -⟩ | ⟨hq, -⟩ := h.of_form hm
  · exact hg
  · cases hq
  · exact absurd rfl hq

theorem Fills.of_lower {level : Nat} {template head arg : Sexpr} {mark : QuoteMark} {f : Filling}
    (h : Fills R (level + 2) template f) (hm : template.levelForm? = some (mark, head, arg))
    (hq : mark ≠ .quasiquote) : ∃ g, Fills R (level + 1) arg g := by
  obtain ⟨hmark, -⟩ | ⟨-, hl⟩ | ⟨-, n, g, hl, hg⟩ := h.of_form hm
  · exact absurd hmark hq
  · cases hl
  · cases hl
    exact ⟨g, hg⟩

/-- There is nothing to splice items into but a list. -/
theorem not_fills_splicing {template head arg : Sexpr}
    (hm : template.levelForm? = some (.unquoteSplicing, head, arg)) (f : Filling) :
    ¬ Fills R 1 template f := by
  intro h
  obtain ⟨hq, -⟩ | ⟨hq, -⟩ | ⟨-, n, g, hl, -⟩ := h.of_form hm
  · cases hq
  · cases hq
  · cases hl

theorem Fills.of_vector {level : Nat} {items : List Sexpr} {location : Option Location}
    {f : Filling} (h : Fills R level (.vector items location) f) :
    ∃ g, Fills R level (.withTail (some (.list [] location)) items location) g := by
  cases h with
  | vector elements => exact ⟨_, elements⟩
  | unquote form => cases form
  | lower form => cases form
  | raise form => cases form
  | splice _ parts => cases parts
  | pair _ parts => cases parts

/-- What is no such form is filled part by part. -/
theorem Fills.of_parts {level : Nat} {template first rest : Sexpr} {f : Filling}
    (h : Fills R level template f) (hm : template.levelForm? = none)
    (hp : template.uncons? = some (first, rest)) :
    ((∃ g, Fills R level first g) ∨ level = 1 ∧
      ∃ head arg, first.levelForm? = some (.unquoteSplicing, head, arg)) ∧
    ∃ g, Fills R level rest g := by
  cases h with
  | literal => cases hp
  | identifier => cases hp
  | nil => cases hp
  | unquote form => cases form.symm.trans hm
  | lower form => cases form.symm.trans hm
  | raise form => cases form.symm.trans hm
  | splice plain parts form resolved tail =>
    cases parts.symm.trans hp
    exact ⟨.inr ⟨rfl, _, _, form⟩, _, tail⟩
  | pair plain parts car tail =>
    cases parts.symm.trans hp
    exact ⟨.inl ⟨_, car⟩, _, tail⟩
  | vector => cases hp

namespace Resolving

theorem endsInUnquote_cons {mark? : Sexpr → Option QuoteMark} {s : Sexpr} {ss : List Sexpr}
    (h : endsInUnquote mark? (s :: ss) = false) : endsInUnquote mark? ss = false := by
  unfold endsInUnquote at h ⊢
  rw [List.reverse_cons] at h
  cases hr : ss.reverse with
  | nil => rfl
  | cons last more =>
    cases more with
    | nil => rfl
    | cons marker more => simpa [hr] using h

end Resolving

end

namespace Sexpr

variable {P : Sexpr → Prop}

theorem levelForm?_list {items : List Sexpr} {location : Option Location} {head arg : Sexpr}
    {mark : QuoteMark} (h : (list items location).levelForm? = some (mark, head, arg)) :
    items = [head, arg] ∧ head.levelMark? = some mark := by
  unfold levelForm? at h
  split at h
  · rename_i heq
    cases heq
    obtain ⟨m, hm, hmark⟩ := Option.map_eq_some_iff.mp h
    cases hmark
    exact ⟨rfl, hm⟩
  · cases h

theorem ofDatum_vector (items : List Sexpr) (location : Option Location) :
    Filling.ofDatum (vector items location).toDatum =
      .vector (.ofDatum (withTail (some (list [] location)) items location).toDatum) := by
  have hdata : (withTail (some (list [] location)) items location).toDatum =
      .listWithTail (toData items) .nil := by
    cases items <;> rfl
  have hlist (ds : List Datum) : Filling.ofData ds = .ofDatum (.listWithTail ds .nil) := by
    induction ds with
    | nil => rfl
    | cons d ds ih =>
      rw [Filling.ofData, ih]
      rfl
  rw [hdata, ← hlist]
  rfl

theorem levelMark?_of_levelForm? {head arg : Sexpr} {location : Option Location}
    (h : (list [head, arg] location).levelForm? = none) : head.levelMark? = none :=
  Option.map_eq_none_iff.mp h

theorem levelMark?_ne_quote (s : Sexpr) : s.levelMark? ≠ some .quote := by
  cases s with
  | identifier name location =>
    intro h
    have hmem := List.mem_of_find?_eq_some h
    simp at hmem
  | _ => exact nofun

/-- The operand of a form is a template at another level, or an expression. -/
theorem Plain.operand {s head arg : Sexpr} {mark : QuoteMark} {level : Nat} (h : s.Plain P level)
    (hs : s.levelForm? = some (mark, head, arg)) :
    mark = .quasiquote ∧ arg.Plain P (level + 1) ∨
      mark ≠ .quasiquote ∧ if level = 1 then P arg else arg.Plain P (level - 1) := by
  cases s with
  | list items location =>
    obtain ⟨rfl, hm⟩ := levelForm?_list hs
    rw [Plain, hm] at h
    cases mark with
    | quasiquote => exact .inl ⟨rfl, h⟩
    | _ => exact .inr ⟨nofun, h⟩
  | _ => cases hs

/-- The items of a list that is no form. -/
theorem Plain.listItems {items : List Sexpr} {location : Option Location} {level : Nat}
    (h : (list items location).Plain P level) (hn : (list items location).levelForm? = none) :
    PlainItems P true items level := by
  by_cases hpair : ∃ head arg, items = [head, arg]
  · obtain ⟨head, arg, rfl⟩ := hpair
    have hm := levelMark?_of_levelForm? hn
    rw [Plain, hm] at h
    rwa [PlainItems, hm]
  · rwa [Plain] at h
    exact fun head arg hitems => hpair ⟨head, arg, hitems⟩

/-- The first of some items is an unquotation of the only other one, or stands for itself. -/
theorem PlainItems.split {tail : Option Sexpr} {s : Sexpr} {ss : List Sexpr} {level : Nat}
    (h : PlainItems P tail.isNone (s :: ss) level) (location : Option Location) :
    (tail = none ∧ level = 1 ∧ s.levelMark? = some .unquote ∧ ∃ e, ss = [e] ∧ P e) ∨
      s.Plain P level ∧ PlainItems P tail.isNone ss level ∧
        (withTail tail (s :: ss) location).levelForm? = none := by
  cases tail with
  | some tail =>
    rw [Option.isNone_some, PlainItems] at h
    · exact .inr ⟨h.1, h.2, rfl⟩
    · rintro head hfalse
      cases hfalse
  | none =>
    rw [Option.isNone_none] at h ⊢
    by_cases hss : ∃ e, ss = [e]
    · obtain ⟨e, rfl⟩ := hss
      rw [PlainItems] at h
      cases hm : s.levelMark? with
      | some mark =>
        rw [hm] at h
        obtain ⟨rfl, rfl, he⟩ := h
        exact .inl ⟨rfl, rfl, rfl, e, rfl, he⟩
      | none =>
        rw [hm] at h
        refine .inr ⟨h.1, ?_, ?_⟩
        · rw [PlainItems]
          · exact ⟨h.2, trivial⟩
          · rintro arg - hfalse
            cases hfalse
        · simp [withTail, levelForm?, hm]
    · rw [PlainItems] at h
      · refine .inr ⟨h.1, h.2, ?_⟩
        rw [withTail, levelForm?]
        rintro head arg l hl
        cases hl
        exact hss ⟨arg, rfl⟩
      · exact fun arg _ hl => hss ⟨arg, hl⟩

end Sexpr

section

open Resolving (hasUnquote anyUnquote endsInUnquote)

variable {R : Sexpr → Expr → Prop} {P : Sexpr → Prop}

theorem hasUnquote_of_mark {head arg : Sexpr} {location : Option Location} {level : Nat}
    {mark : QuoteMark} (h : head.levelMark? = some mark) (hm : mark ≠ .quasiquote) :
    hasUnquote Sexpr.levelMark? (.list [head, arg] location) level =
      (level == 1 || hasUnquote Sexpr.levelMark? arg (level - 1)) := by
  rw [hasUnquote, h]
  cases mark with
  | quasiquote => exact absurd rfl hm
  | _ => rfl

theorem hasUnquote_list {items : List Sexpr} {location : Option Location} {level : Nat}
    (h : (Sexpr.list items location).levelForm? = none) :
    hasUnquote Sexpr.levelMark? (.list items location) level =
      (level == 1 && endsInUnquote Sexpr.levelMark? items ||
        anyUnquote Sexpr.levelMark? items level) := by
  by_cases hpair : ∃ head arg, items = [head, arg]
  · obtain ⟨head, arg, rfl⟩ := hpair
    have hm := Sexpr.levelMark?_of_levelForm? h
    simp [hasUnquote, anyUnquote, endsInUnquote, hm]
  · rw [hasUnquote]
    exact fun head arg hitems => hpair ⟨head, arg, hitems⟩

mutual

/-- A template with nothing to evaluate stands for itself. -/
theorem Fills.constant : (template : Sexpr) → (level : Nat) → 0 < level →
    template.Plain P level → hasUnquote Sexpr.levelMark? template level = false →
      Fills R level template (.ofDatum template.toDatum)
  | .literal _ _, _, _, _, _ => .literal
  | .identifier _ _, _, _, _, _ => .identifier
  | .list items location, level, hl, hp, hu => by
    cases hform : (Sexpr.list items location).levelForm? with
    | some form =>
      obtain ⟨mark, head, arg⟩ := form
      obtain ⟨rfl, hm⟩ := Sexpr.levelForm?_list hform
      rw [← Sexpr.toDatum_of_levelForm? hform]
      obtain ⟨rfl, harg⟩ | ⟨hmark, harg⟩ := hp.operand hform
      · rw [hasUnquote, hm] at hu
        exact .raise hform (Fills.constant arg (level + 1) (Nat.succ_pos level) harg hu)
      · rw [hasUnquote_of_mark hm hmark, Bool.or_eq_false_iff, beq_eq_false_iff_ne] at hu
        rw [if_neg hu.1] at harg
        obtain ⟨n, rfl⟩ : ∃ n, level = n + 2 := ⟨level - 2, by omega⟩
        exact .lower hform hmark (Fills.constant arg (n + 1) (Nat.succ_pos n) harg hu.2)
    | none =>
      rw [hasUnquote_list hform, Bool.or_eq_false_iff] at hu
      exact Fills.constantItems none location items level hl (hp.listItems hform)
        (fun _ h1 => by simpa [h1] using hu.1) hu.2 .nil
  | .dotted [] _ _, _, _, hp, _ => by
    rw [Sexpr.Plain] at hp
    exact absurd rfl hp.1
  | .dotted (item :: items) tail location, level, hl, hp, hu => by
    rw [Sexpr.Plain] at hp
    rw [hasUnquote, Bool.or_eq_false_iff] at hu
    exact Fills.constantItems (some tail) location (item :: items) level hl hp.2.1 nofun hu.1
      (Fills.constant tail level hl hp.2.2 hu.2)
  | .vector items location, level, hl, hp, hu => by
    rw [Sexpr.Plain] at hp
    rw [hasUnquote] at hu
    rw [Sexpr.ofDatum_vector]
    exact .vector (Fills.constantItems (some (.list [] location)) location items level hl hp.1
      nofun hu .nil)

theorem Fills.constantItems (tail : Option Sexpr) (location : Option Location) :
    (items : List Sexpr) → (level : Nat) → 0 < level →
    Sexpr.PlainItems P tail.isNone items level →
    (tail = none → level = 1 → endsInUnquote Sexpr.levelMark? items = false) →
    anyUnquote Sexpr.levelMark? items level = false →
    Fills R level (.withTail tail [] location)
      (.ofDatum (Sexpr.withTail tail [] location).toDatum) →
      Fills R level (.withTail tail items location)
        (.ofDatum (Sexpr.withTail tail items location).toDatum)
  | [], _, _, _, _, _, hend => hend
  | s :: ss, level, hl, hp, he, hu, hend => by
    rw [anyUnquote, Bool.or_eq_false_iff] at hu
    have hparts := Sexpr.uncons?_withTail tail s ss location
    rw [Sexpr.toDatum_of_uncons? hparts]
    obtain ⟨rfl, rfl, hm, e, rfl, -⟩ | ⟨hs, hss, hplain⟩ := hp.split location
    · have hends := he rfl rfl
      simp [endsInUnquote, hm] at hends
    · exact .pair hplain hparts (Fills.constant s level hl hs hu.1)
        (Fills.constantItems tail location ss level hl hss
          (fun ht h1 => Resolving.endsInUnquote_cons (he ht h1)) hu.2 hend)

end

end

end RegisterScheme
