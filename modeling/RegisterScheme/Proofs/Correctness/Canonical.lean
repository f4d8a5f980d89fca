import RegisterScheme.Proofs.Correctness.Parsing
import RegisterScheme.Proofs.Sexpr.Canonical
import RegisterScheme.Proofs.Token.Leaves
import RegisterScheme.Proofs.Value.Fresh

/-! What is read is canonical: no datum is spelled in two ways, so that expressions are equal as the
data they stand for. -/

namespace RegisterScheme

def Token.Kind.isFloat : Token.Kind → Bool
  | literal (.float _) => true
  | _ => false

namespace Sexpr

open Lexer

variable {P : Token.Kind → Prop} {s t tail : Sexpr} {ss ts : List Sexpr}

/-- A tail of a list, but not the empty one. -/
theorem Canonical.tail_toDatum (h : tail.Canonical IsLeaf)
    (not_list : ∀ more l, tail ≠ .list more l)
    (not_dotted : ∀ more last l, tail ≠ .dotted more last l) :
    tail.toDatum.IsTail ∧ Datum.nil.equal tail.toDatum = false ∧
      tail.toDatum.equal .nil = false := by
  cases h with
  | @literal a _ kind =>
    have hnil : a ≠ .nil := by
      rintro rfl
      exact kind.1 rfl
    cases a <;> simp_all [toDatum, Datum.IsTail, Datum.equal, Atom.equal]
  | identifier => simp [toDatum, Datum.IsTail, Datum.equal, Atom.equal]
  | list => exact absurd rfl (not_list _ _)
  | dotted => exact absurd rfl (not_dotted _ _ _)
  | vector => simp [toDatum, Datum.IsTail, Datum.equal]

theorem equalItems_toData (h : ∀ s ∈ ss, ∀ t ∈ ts, s.toDatum.equal t.toDatum = s.equal t) :
    Datum.equalItems (toData ss) (toData ts) = equalItems ss ts := by
  induction ss generalizing ts with
  | nil => cases ts <;> rfl
  | cons s ss ih =>
    cases ts with
    | nil => rfl
    | cons t ts =>
      have hfirst := h s (by simp) t (by simp)
      have hmore := @ih ts fun s hs t ht => h s (by simp [hs]) t (by simp [ht])
      rw [toData, toData, Datum.equalItems, equalItems, hfirst, hmore]

theorem symbol_equal_literal {a : Atom} {name : String} (h : IsLeaf (.literal a))
    (h' : IsLeaf (.identifier name)) : a.equal (.symbol name) = false ∧
      (Atom.symbol name).equal a = false := by
  cases a with
  | symbol name' =>
    have hne : name' ≠ name := by
      rintro rfl
      have hkinds := (h.2 name' (.inr rfl)).symm.trans (h'.2 name' (.inl rfl))
      simp at hkinds
    simp [Atom.equal, hne, hne.symm]
  | _ => simp [Atom.equal]

theorem Canonical.unequal_list (h : tail.Canonical IsLeaf)
    (not_list : ∀ more l, tail ≠ .list more l)
    (not_dotted : ∀ more last l, tail ≠ .dotted more last l) (items : List Sexpr)
    (l : Option Location) : tail.toDatum.equal (Sexpr.list items l).toDatum = false ∧
      (Sexpr.list items l).toDatum.equal tail.toDatum = false := by
  obtain ⟨htail, hnil, hnil'⟩ := h.tail_toDatum not_list not_dotted
  have hlist := Datum.equal_listWithTail htail (e := .nil) trivial [] (toData items)
  have hlist' := Datum.equal_listWithTail (d := .nil) trivial htail (toData items) []
  rw [hnil', Bool.and_false] at hlist
  rw [hnil, Bool.and_false] at hlist'
  exact ⟨hlist, hlist'⟩

theorem Canonical.unequal_dotted (h : tail.Canonical IsLeaf)
    (not_list : ∀ more l, tail ≠ .list more l)
    (not_dotted : ∀ more last l, tail ≠ .dotted more last l) {items : List Sexpr} {last : Sexpr}
    (some_item : items ≠ []) (hlast : last.toDatum.IsTail) (l : Option Location) :
    tail.toDatum.equal (Sexpr.dotted items last l).toDatum = false ∧
      (Sexpr.dotted items last l).toDatum.equal tail.toDatum = false := by
  obtain ⟨htail, -, -⟩ := h.tail_toDatum not_list not_dotted
  have hlist := Datum.equal_listWithTail htail hlast [] (toData items)
  have hlist' := Datum.equal_listWithTail hlast htail (toData items) []
  obtain ⟨s, ss, rfl⟩ := List.exists_cons_of_ne_nil some_item
  exact ⟨hlist, hlist'⟩

/-- Expressions are equal as their data are. -/
theorem Canonical.equal_toDatum (hs : s.Canonical IsLeaf) (ht : t.Canonical IsLeaf) :
    s.toDatum.equal t.toDatum = s.equal t := by
  induction hs generalizing t with
  | literal kind =>
    have hs := Canonical.literal (l := none) kind
    cases ht with
    | literal => rfl
    | identifier kind' => exact (symbol_equal_literal kind kind').1
    | list => exact (hs.unequal_list (by simp) (by simp) _ none).1
    | dotted some_item not_list not_dotted _ last =>
      have hlast := (last.tail_toDatum not_list not_dotted).1
      exact (hs.unequal_dotted (by simp) (by simp) some_item hlast none).1
    | vector => rfl
  | identifier kind =>
    have hs := Canonical.identifier (l := none) kind
    cases ht with
    | literal kind' => exact (symbol_equal_literal kind' kind).2
    | identifier => rfl
    | list => exact (hs.unequal_list (by simp) (by simp) _ none).1
    | dotted some_item not_list not_dotted _ last =>
      have hlast := (last.tail_toDatum not_list not_dotted).1
      exact (hs.unequal_dotted (by simp) (by simp) some_item hlast none).1
    | vector => rfl
  | @list items _ parts ih =>
    cases ht with
    | literal kind' =>
      exact ((Canonical.literal (l := none) kind').unequal_list (by simp) (by simp) _ none).2
    | identifier kind' =>
      exact ((Canonical.identifier (l := none) kind').unequal_list (by simp) (by simp) _ none).2
    | @list items' _ parts' =>
      have hitems := equalItems_toData fun s hs t ht => ih s hs (parts' t ht)
      have hlist := Datum.equal_listWithTail (d := .nil) trivial (e := .nil) trivial
        (toData items) (toData items')
      rw [hitems] at hlist
      exact hlist.trans (Bool.and_true _)
    | @dotted items' _ _ some_item not_list not_dotted _ last =>
      obtain ⟨hlast, hnil, -⟩ := last.tail_toDatum not_list not_dotted
      have hlist := Datum.equal_listWithTail (d := .nil) trivial hlast (toData items)
        (toData items')
      rw [hnil, Bool.and_false] at hlist
      exact hlist
    | vector parts' =>
      exact ((Canonical.vector (l := none) parts').unequal_list (by simp) (by simp) _ none).2
  | @dotted items tail _ some_item not_list not_dotted parts last ih ih' =>
    obtain ⟨hlast, -, hnil⟩ := last.tail_toDatum not_list not_dotted
    cases ht with
    | literal kind' =>
      have ht := Canonical.literal (l := none) kind'
      exact (ht.unequal_dotted (by simp) (by simp) some_item hlast none).2
    | identifier kind' =>
      have ht := Canonical.identifier (l := none) kind'
      exact (ht.unequal_dotted (by simp) (by simp) some_item hlast none).2
    | @list items' _ parts' =>
      have hlist := Datum.equal_listWithTail hlast (e := .nil) trivial (toData items)
        (toData items')
      rw [hnil, Bool.and_false] at hlist
      exact hlist
    | @dotted items' _ _ some_item' not_list' not_dotted' parts' last' =>
      have hlast' := (last'.tail_toDatum not_list' not_dotted').1
      have hitems := equalItems_toData fun s hs t ht => ih s hs (parts' t ht)
      have hlist := Datum.equal_listWithTail hlast hlast' (toData items) (toData items')
      rw [hitems, ih' last'] at hlist
      exact hlist
    | vector parts' =>
      have ht := Canonical.vector (l := none) parts'
      exact (ht.unequal_dotted (by simp) (by simp) some_item hlast none).2
  | vector parts ih =>
    have hs := Canonical.vector (l := none) parts
    cases ht with
    | literal => rfl
    | identifier => rfl
    | list => exact (hs.unequal_list (by simp) (by simp) _ none).1
    | dotted some_item not_list not_dotted _ last =>
      have hlast := (last.tail_toDatum not_list not_dotted).1
      exact (hs.unequal_dotted (by simp) (by simp) some_item hlast none).1
    | vector parts' => exact equalItems_toData fun s hs t ht => ih s hs (parts' t ht)

/-- Without floats, an expression is equal to itself. -/
theorem Canonical.equal_self (h : s.Canonical fun kind => kind.isFloat = false) :
    s.equal s := by
  have hitems {ss : List Sexpr} (hss : ∀ s ∈ ss, s.equal s) : equalItems ss ss := by
    induction ss with
    | nil => rfl
    | cons s ss ih => simp_all [equalItems]
  induction h with
  | @literal a _ kind =>
    rw [equal]
    cases a with
    | float x => cases kind
    | nil => rfl
    | _ => exact beq_self_eq_true _
  | identifier => simp [equal]
  | list _ ih => exact hitems ih
  | dotted _ _ _ _ _ ih ih' => simp [equal, hitems ih, ih']
  | vector _ ih => exact hitems ih

/-- One of the tokens, or the name that a mark stands for. -/
def IsKindOf (tokens : List Token) (kind : Token.Kind) : Prop :=
  (∃ t ∈ tokens, t.kind = kind) ∨ ∃ m : QuoteMark, kind = .identifier m.name

/-- One of the expressions that a text is read as, with these tokens on the way. -/
def FromText (s : Sexpr) (tokens : List Token) : Prop :=
  ∃ options origin text limit ss, tokenize options origin text = .ok tokens ∧
    readAll limit tokens = .ok ss ∧ s ∈ ss

variable {tokens : List Token} {limit : Nat}

theorem canonical_of_readAll (h : readAll limit tokens = .ok ss) :
    ∀ s ∈ ss, s.Canonical (IsKindOf tokens) :=
  (series_of_readAll h).canonical (fun m => .inr ⟨m, rfl⟩) fun t ht => .inl ⟨t, ht, rfl⟩

theorem FromText.canonical (h : s.FromText tokens) :
    s.Canonical IsLeaf ∧ s.Canonical (IsKindOf tokens) := by
  obtain ⟨options, origin, text, limit, ss, htokens, hread, hs⟩ := h
  have hs := canonical_of_readAll hread s hs
  refine ⟨hs.mono ?_, hs⟩
  rintro kind (⟨t, ht, rfl⟩ | ⟨m, rfl⟩)
  · exact isLeaf_of_tokenize htokens t ht
  · exact isLeaf_mark m

/-- Whatever is read is dotted only where it has to be. So expressions that are read of any texts
are equal exactly if the data are that they stand for; and if the text has no floats, each is equal
to itself. -/
theorem readAll_canonical :
    (∀ limit tokens ss, readAll limit tokens = .ok ss →
      ∀ s ∈ ss, s.Canonical (IsKindOf tokens)) ∧
    (∀ (s t : Sexpr) tokens tokens', s.FromText tokens → t.FromText tokens' → ∀ i j,
      i + s.toDatum.objects ≤ j ∨ j + t.toDatum.objects ≤ i →
        (Value.ofDatum i s.toDatum).equal (Value.ofDatum j t.toDatum) = s.equal t) ∧
    ∀ (s : Sexpr) tokens, s.FromText tokens → (∀ t ∈ tokens, t.kind.isFloat = false) →
      s.equal s := by
  refine ⟨fun limit tokens ss => canonical_of_readAll, fun s t tokens tokens' hs ht i j hij => ?_,
    fun s tokens hs hfloats => ?_⟩
  · rw [Value.equal_ofDatum hij, hs.canonical.1.equal_toDatum ht.canonical.1]
  · have hcanonical := hs.canonical.2
    refine (hcanonical.mono ?_).equal_self
    rintro kind (⟨t, ht, rfl⟩ | ⟨m, rfl⟩)
    · exact hfloats t ht
    · rfl

/-- A dotted tail that goes on as a list, and the list in one. -/
theorem readAll_canonical_dotted : ∃ (s t : Sexpr) (tokens tokens' : List Token),
    tokenize .standard "data" "(a . (:k . #(1)))" = .ok tokens ∧
      tokenize .standard "data" "(a :k . #(1))" = .ok tokens' ∧
      readAll 128 tokens = .ok [s] ∧ readAll 128 tokens' = .ok [t] ∧ s.equal t ∧ s.equal s ∧
      (Value.ofDatum 0 s.toDatum).equal (Value.ofDatum s.toDatum.objects t.toDatum) ∧
      s.Canonical (IsKindOf tokens) := by
  have hread : Except.toOption (do
      let tokens ← tokenize .standard "data" "(a . (:k . #(1)))"
      let s ← readOne tokens
      let tokens' ← tokenize .standard "data" "(a :k . #(1))"
      let t ← readOne tokens'
      return (s.equal t, tokens.any (·.kind.isFloat))) = some (true, false) := by decide +kernel
  obtain ⟨tokens, htokens, h⟩ := ok_of_bind (ok_of_toOption hread)
  obtain ⟨s, hs, h⟩ := ok_of_bind h
  obtain ⟨tokens', htokens', h⟩ := ok_of_bind h
  obtain ⟨t, ht, h⟩ := ok_of_bind h
  obtain ⟨hequal, hfloatless⟩ := Prod.mk.inj (Except.ok.inj h)
  replace hs := readOne_eq_ok.mp hs
  replace ht := readOne_eq_ok.mp ht
  have hfloats : ∀ t ∈ tokens, t.kind.isFloat = false := by simpa using hfloatless
  have hfrom : s.FromText tokens := ⟨_, _, _, _, _, htokens, hs, by simp⟩
  have hfrom' : t.FromText tokens' := ⟨_, _, _, _, _, htokens', ht, by simp⟩
  obtain ⟨hcanonical, hdata, hself⟩ := readAll_canonical
  have hvalues := hdata s t tokens tokens' hfrom hfrom' 0 s.toDatum.objects (.inl (by simp))
  exact ⟨s, t, tokens, tokens', htokens, htokens', hs, ht, hequal, hself s tokens hfrom hfloats,
    hvalues.trans hequal, hcanonical _ tokens [s] hs s (by simp)⟩

end Sexpr

end RegisterScheme
