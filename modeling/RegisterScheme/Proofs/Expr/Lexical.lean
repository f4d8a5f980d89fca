import RegisterScheme.Proofs.Expr.Forms

/-! Names are resolved lexically: a name means its innermost declaration, at whatever distance. The
procedures that templates call are the exception. A template makes their names globals of the scope
it stands in, and from there on they hide the declarations further out. -/

namespace RegisterScheme

open ScopeChain

/-- The innermost scope that declares a name is so many scopes further out, and holds the variable
in a register. -/
structure ScopeChain.Declared (c : ScopeChain) (name : String) (distance : Nat) (r : Register) :
    Prop where
  holds : ∃ s, c.scopes[distance]? = some s ∧ s.Holds name r
  nearest : ∀ i < distance, ∀ s, c.scopes[i]? = some s → ∀ q, ¬ s.Holds name q

/-- A variable of the innermost scope leads to a register so many scopes further out. -/
def VariableRef.Reaches (v : VariableRef) (name : String) (distance : Nat) (r : Register)
    (scopes : List Scope) : Prop :=
  match v with
  | .localVariable q => distance = 0 ∧ q = r
  | .global _ => False
  | .captured slot => 0 < distance ∧ ∃ s, scopes.head? = some s ∧
      s.bindings[slot]? = some ⟨name, .variable (.captured distance r)⟩

variable {c : ScopeChain} {name : String} {distance : Nat} {r : Register} {v : VariableRef}

theorem VariableRef.Reaches.grow {a b : List Scope} (h : v.Reaches name distance r a)
    (hg : ScopesGrow a b) : v.Reaches name distance r b := by
  cases v with
  | localVariable q => exact h
  | global slot => exact h
  | captured slot =>
    obtain ⟨hd, s, hs, hb⟩ := h
    cases hg with
    | nil => cases hs
    | cons hst _ =>
      cases hs
      exact ⟨hd, _, rfl, hst.getElem? hb⟩

namespace ScopeChain

/-- There is one innermost declaration. -/
theorem Declared.unique (hc : c.Sound) {distance' : Nat} {r' : Register}
    (h : c.Declared name distance r) (h' : c.Declared name distance' r') :
    distance' = distance ∧ r' = r := by
  obtain ⟨s, hs, hr⟩ := h.holds
  obtain ⟨s', hs', hr'⟩ := h'.holds
  rcases Nat.lt_trichotomy distance' distance with hlt | rfl | hlt
  · exact absurd hr' (h.nearest distance' hlt s' hs' r')
  · obtain rfl : s = s' := Option.some.inj (hs.symm.trans hs')
    obtain ⟨outer, -, hin, -⟩ := hc.inside_at hs
    obtain ⟨b, hb, hn, hreg⟩ := hr
    obtain ⟨b', hb', hn', hreg'⟩ := hr'
    obtain rfl := hin.valid.binding_unique hb hb' (hn.trans hn'.symm)
    exact ⟨rfl, Option.some.inj (hreg'.symm.trans hreg)⟩
  · exact absurd hr (h'.nearest distance hlt s hs r)

end ScopeChain

/-- A captured variable is declared where its capture leads, and in no scope on the way there. -/
theorem ScopesValid.declared_of_captured {s : Scope} {outer : List Scope}
    (h : ScopesValid (s :: outer)) {further : Nat}
    (hb : ⟨name, .variable (.captured further r)⟩ ∈ s.bindings) :
    (∃ o, (s :: outer)[further]? = some o ∧ o.Holds name r) ∧
      ∀ i < further, ∀ t, (s :: outer)[i]? = some t → ∀ q, ¬ t.Holds name q := by
  induction outer generalizing s further with
  | nil =>
    obtain ⟨o, d, ho, -⟩ := h.1.captures name further r hb
    cases ho
  | cons next outer ih =>
    obtain ⟨o, d, ho, rfl, hl⟩ := h.1.captures name further r hb
    obtain rfl : next = o := Option.some.inj ho
    have hhere (q : Register) : ¬ s.Holds name q := h.1.valid.not_holds hb rfl q
    have hrest : (∃ o, (next :: outer)[d]? = some o ∧ o.Holds name r) ∧
        ∀ i < d, ∀ t, (next :: outer)[i]? = some t → ∀ q, ¬ t.Holds name q := by
      obtain ⟨rfl, hh⟩ | hb := hl
      · exact ⟨⟨next, rfl, hh⟩, fun i hi => absurd hi (Nat.not_lt_zero i)⟩
      · exact ih h.2 hb
    refine ⟨hrest.1, fun i hi t ht => ?_⟩
    cases i with
    | zero =>
      cases ht
      exact hhere
    | succ i => exact hrest.2 i (Nat.lt_of_succ_lt_succ hi) t ht

namespace ScopeChain

/-- The nearest scope that binds a name to a variable leads to its innermost declaration. -/
theorem Declared.of_leads (hc : c.Sound) {d further : Nat} {s : Scope} (hs : c.scopes[d]? = some s)
    (hl : s.Leads name further r)
    (hi : ∀ i < d, ∀ t, c.scopes[i]? = some t → t.binds name = false) :
    c.Declared name (d + further) r := by
  obtain ⟨outer, hdrop, hin⟩ := hc.inside_at hs
  have hat (i : Nat) : (s :: outer)[i]? = c.scopes[d + i]? := by
    rw [← hdrop, List.getElem?_drop]
  have hpath : (∃ o, (s :: outer)[further]? = some o ∧ o.Holds name r) ∧
      ∀ i < further, ∀ t, (s :: outer)[i]? = some t → ∀ q, ¬ t.Holds name q := by
    obtain ⟨rfl, hh⟩ | hb := hl
    · exact ⟨⟨s, rfl, hh⟩, fun i hi => absurd hi (Nat.not_lt_zero i)⟩
    · exact ScopesValid.declared_of_captured hin hb
  refine ⟨by rw [← hat]; exact hpath.1, fun i hlt t ht => ?_⟩
  by_cases hid : i < d
  · exact Scope.not_holds_of_binds_eq_false (hi i hid t ht)
  · obtain ⟨k, rfl⟩ := Nat.exists_eq_add_of_le (Nat.not_lt.mp hid)
    exact hpath.2 k (by omega) t (by rw [hat, ht])

end ScopeChain

namespace Resolving

/-- The answer to a declared name leads to its innermost declaration, unless the name has become a
global further in. -/
theorem resolve_reaches (hc : c.Sound) (hd : c.Declared name distance r)
    (hn : ∀ i < distance, ∀ s, c.scopes[i]? = some s → ⟨name, .variable .global⟩ ∉ s.bindings) :
    Resolves c (resolve name) fun res d =>
      (∃ slot, res = .localVariable r slot ∧ distance = 0) ∨
      ∃ slot, res = .captured slot ∧
        (VariableRef.captured slot).Reaches name distance r d.scopes := by
  refine Keeps.bind (P := fun a d => a = c ∧ d = c) ⟨.refl c, rfl, rfl⟩ ?_
  rintro _ c h ⟨rfl, rfl⟩
  obtain ⟨o, ho, hholds⟩ := hd.holds
  cases hf : findIn name c.scopes with
  | none =>
    have hb := findIn_eq_none hf o (List.mem_of_getElem? ho)
    exact absurd hholds (Scope.not_holds_of_binds_eq_false hb r)
  | some found =>
    obtain ⟨d, slot, ⟨name, kind⟩⟩ := found
    obtain ⟨rfl, ⟨s, hs, hb⟩, hi⟩ := findIn_eq_some hf
    have hmem := List.mem_of_getElem? hb
    obtain ⟨outer, -, hin, -⟩ := hc.inside_at hs
    obtain ⟨kind, rfl⟩ := hin.valid.kinds _ hmem
    have hown {q : Register} (hq : kind.register? = some q) : s.Leads name 0 q :=
      .inl ⟨rfl, _, hmem, rfl, hq⟩
    -- the capture leads as far out as the declaration is
    have hcapture {d further : Nat} {q : Register} (hs : c.scopes[d + 1]? = some s)
        (hl : s.Leads name further q)
        (hi : ∀ i < d + 1, ∀ t, c.scopes[i]? = some t → t.binds name = false) :
        Resolves c (captureFrom name (d + 1) (d + 1 + further) q) fun res e =>
          (∃ slot, res = .localVariable r slot ∧ distance = 0) ∨
          ∃ slot, res = .captured slot ∧
            (VariableRef.captured slot).Reaches name distance r e.scopes := by
      obtain ⟨rfl, rfl⟩ := hd.unique hc (.of_leads hc hs hl hi)
      refine (captureFrom_keeps hc (Nat.succ_ne_zero d) hi ⟨s, further, hs, hl, rfl⟩).mono ?_
      rintro res e - ⟨slot, t, rfl, ht, hbt⟩
      exact .inr ⟨slot, rfl, by omega, t, ht, hbt⟩
    cases kind with
    | global =>
      rcases Nat.lt_trichotomy d distance with hlt | rfl | hlt
      · exact absurd hmem (hn d hlt s hs)
      · obtain rfl : s = o := Option.some.inj (hs.symm.trans ho)
        exact absurd hholds (hin.valid.not_holds hmem rfl r)
      · exact absurd hholds (Scope.not_holds_of_binds_eq_false (hi distance hlt o ho) r)
    | argument q k =>
      cases d with
      | zero =>
        obtain ⟨rfl, rfl⟩ := hd.unique hc (.of_leads hc hs (hown rfl) hi)
        exact .pure h (.inl ⟨slot, rfl, rfl⟩)
      | succ d => exact hcapture hs (hown rfl) hi
    | localVariable q =>
      cases d with
      | zero =>
        obtain ⟨rfl, rfl⟩ := hd.unique hc (.of_leads hc hs (hown rfl) hi)
        exact .pure h (.inl ⟨slot, rfl, rfl⟩)
      | succ d => exact hcapture hs (hown rfl) hi
    | captured further q =>
      cases d with
      | zero =>
        obtain ⟨rfl, rfl⟩ := hd.unique hc (.of_leads hc hs (.inr hmem) hi)
        have hpos : 0 < further := by
          obtain ⟨-, e, -, rfl, -⟩ := hin.captures _ _ _ hmem
          exact Nat.succ_pos e
        refine .pure h (.inr ⟨slot, rfl, by omega, s, ?_, ?_⟩)
        · rwa [List.head?_eq_getElem?]
        · rwa [Nat.zero_add]
      | succ d =>
        have hlt := hc.captured_lt hs hb
        change Resolves c (if c.depth ≤ d + 1 + further then _ else _) _
        rw [if_neg (Nat.not_le.mpr hlt)]
        exact hcapture hs (.inr hmem) hi

/-- What a name is resolved to leads to its innermost declaration. -/
theorem variableRef_reaches (hc : c.Sound) (hd : c.Declared name distance r)
    (hn : ∀ i < distance, ∀ s, c.scopes[i]? = some s → ⟨name, .variable .global⟩ ∉ s.bindings)
    (s : Sexpr) :
    Resolves c (variableRef name s) fun v d => v.Reaches name distance r d.scopes := by
  refine Keeps.bind (located_keeps (resolve_reaches hc hd hn) s.location) fun res d _ hres => ?_
  obtain ⟨slot, rfl, hz⟩ | ⟨slot, rfl, hreaches⟩ := hres
  · exact .pure (.refl d) ⟨hz, rfl⟩
  · exact .pure (.refl d) hreaches

end Resolving

namespace Function

/-- `(lambda (append) (lambda () (quasiquote ((unquote-splicing x))) append))` -/
def hidingForms : List Sexpr :=
  let lambda (parameters body : List Sexpr) : Sexpr :=
    .list (.identifier "lambda" none :: .list parameters none :: body) none
  let template : Sexpr := .list [.identifier "quasiquote" none,
    .list [.list [.identifier "unquote-splicing" none, .identifier "x" none] none] none] none
  [lambda [.identifier "append" none] [lambda [] [template, .identifier "append" none]]]

def hidingInner : Function :=
  ⟨none, .none, ⟨[⟨"x", .variable .global⟩, ⟨"append", .variable .global⟩], 0, []⟩,
    .sequence [.call (.reference (.global 1) none)
      [.reference (.global 0) none, .literal ⟨0, .nil⟩ none] none,
      .reference (.global 1) none] none, none⟩

def hidingOuter : Function :=
  ⟨none, { Parameters.none with required := 1 },
    ⟨[⟨"append", .variable (.argument .zero .required)⟩], 1, []⟩, .lambda hidingInner none, none⟩

/-- The template makes `append` a global of its procedure, so the reference behind it does not reach
the parameter. -/
theorem ofProgram_hiding :
    ofProgram .standard 0 hidingForms =
        .ok (⟨none, .none, .empty, .lambda hidingOuter none, none⟩, 0) ∧
      hidingOuter.scope.Holds "append" 0 ∧
      hidingInner.scope.bindings[1]? = some ⟨"append", .variable .global⟩ :=
  ⟨rfl, ⟨_, List.mem_cons_self, rfl, rfl⟩, rfl⟩

end Function

end RegisterScheme
