import RegisterScheme.Proofs.Expr.Forms

/-! Every variable of a resolved program has an address. A procedure mentions only variables of its
own finished scope, and what it captures lies in a register of a procedure around it, as many levels
out as the capture says. -/

namespace RegisterScheme

namespace Expr

/-- The expressions that an expression is put together from. The body of a procedure is not among
them. -/
def parts : Expr → List Expr
  | literal _ _ | reference _ _ | lambda _ _ => []
  | assignment _ value _ => [value]
  | branch test consequent alternative _ => test :: consequent :: alternative.toList
  | cond clauses otherwise _ =>
    clauses.flatMap (fun c => c.test :: c.body.toList) ++ otherwise.toList
  | operation _ operands _ => operands
  | call callee arguments _ => callee :: arguments
  | sequence items _ => items

/-- An expression lies in another of the same procedure, at any depth. -/
inductive Within : Expr → Expr → Prop
  | refl (e : Expr) : Within e e
  | part {d p e : Expr} (part : p ∈ e.parts) (within : Within d p) : Within d e

/-- An expression reads or writes a variable itself; a procedure inside it may mention others. -/
inductive Mentions (e : Expr) (v : VariableRef) : Prop
  | reads {location : Option Location} (within : (reference v location).Within e) : Mentions e v
  | writes {value : Expr} {location : Option Location}
      (within : (assignment v value location).Within e) : Mentions e v

variable {e d : Expr} {v : VariableRef} {scopes : List Scope}

theorem Scoped.part (h : e.Scoped scopes) (hd : d ∈ e.parts) : d.Scoped scopes := by
  cases h with
  | literal | reference | lambda => cases hd
  | assignment _ hvalue => exact List.mem_singleton.mp hd ▸ hvalue
  | branch ht hc ha =>
    rcases List.mem_cons.mp hd with rfl | hd
    · exact ht
    · rcases List.mem_cons.mp hd with rfl | hd
      · exact hc
      · exact ha d (Option.mem_toList.mp hd)
  | cond ht hb ho =>
    rcases List.mem_append.mp hd with hd | hd
    · obtain ⟨c, hc, hd⟩ := List.mem_flatMap.mp hd
      rcases List.mem_cons.mp hd with rfl | hd
      · exact ht c hc
      · exact hb c hc d (Option.mem_toList.mp hd)
    · exact ho d (Option.mem_toList.mp hd)
  | operation _ hes => exact hes d hd
  | call hcallee hes =>
    rcases List.mem_cons.mp hd with rfl | hd
    · exact hcallee
    · exact hes d hd
  | sequence hes => exact hes d hd

theorem Scoped.within (h : e.Scoped scopes) (hd : d.Within e) : d.Scoped scopes := by
  induction hd with
  | refl => exact h
  | part hp _ ih => exact ih (h.part hp)

theorem Scoped.names_of_mentions (h : e.Scoped scopes) (hv : e.Mentions v) :
    ∃ name, v.Names name scopes := by
  cases hv with
  | reads hw =>
    cases h.within hw with
    | reference names => exact ⟨_, names⟩
  | writes hw =>
    cases h.within hw with
    | assignment names _ => exact ⟨_, names⟩

end Expr

namespace Scope

variable {s : Scope}

/-- The next binding with a register has a greater one. -/
theorem Valid.register_lt (hs : s.Valid) {i j : Nat} {b b' : Binding} {r r' : Register}
    (hb : s.bindings[i]? = some b) (hb' : s.bindings[j]? = some b') (hr : b.register? = some r)
    (hr' : b'.register? = some r') (hij : i < j) : r < r' := by
  obtain ⟨hi, rfl⟩ := List.getElem?_eq_some_iff.mp hb
  obtain ⟨hj, rfl⟩ := List.getElem?_eq_some_iff.mp hb'
  have hpairs := List.pairwise_filterMap.mp hs.ascending
  exact List.pairwise_iff_getElem.mp hpairs i j hi hj hij r hr r' hr'

/-- Bindings with the same register are one. -/
theorem Valid.slot_unique (hs : s.Valid) {i j : Nat} {b b' : Binding} {r : Register}
    (hb : s.bindings[i]? = some b) (hb' : s.bindings[j]? = some b') (hr : b.register? = some r)
    (hr' : b'.register? = some r) : i = j := by
  rcases Nat.lt_trichotomy i j with h | h | h
  · exact absurd (hs.register_lt hb hb' hr hr' h) (Nat.lt_irrefl _)
  · exact h
  · exact absurd (hs.register_lt hb' hb hr' hr h) (Nat.lt_irrefl _)

end Scope

namespace Function

/-- A procedure is in the tree of another, inside finished scopes, innermost first. The default of a
parameter is a procedure inside the one that has the parameter. -/
inductive Contains (f : Function) (outer : List Scope) : Function → List Scope → Prop
  | self : Contains f outer f outer
  | default {g d : Function} {scopes : List Scope} {p : OptionalParameter Function}
      (around : Contains f outer g scopes)
      (parameter : p ∈ g.parameters.optional ++ g.parameters.keys) (default : d ∈ p.default) :
      Contains f outer d (g.scope :: scopes)
  | lambda {g d : Function} {scopes : List Scope} {location : Option Location}
      (around : Contains f outer g scopes) (within : (Expr.lambda d location).Within g.body) :
      Contains f outer d (g.scope :: scopes)

/-- The variables that a procedure mentions and captures are there. A register belongs to an argument
or a local, so a binding with a register is one of these. -/
structure Addressed (f : Function) (outer : List Scope) : Prop where
  locals : ∀ r, f.body.Mentions (.localVariable r) → ∃ name, f.scope.Holds name r
  globals : ∀ slot, f.body.Mentions (.global slot) →
    ∃ name, f.scope.bindings[slot]? = some ⟨name, .variable .global⟩
  captured : ∀ slot, f.body.Mentions (.captured slot) →
    ∃ name distance r, f.scope.bindings[slot]? = some ⟨name, .variable (.captured distance r)⟩
  /-- The procedure `distance` levels further out has the variable. -/
  owners : ∀ name distance r, ⟨name, .variable (.captured distance r)⟩ ∈ f.scope.bindings →
    0 < distance ∧ ∃ owner, outer[distance - 1]? = some owner ∧ owner.Holds name r
  distinct : ∀ (i j : Nat) b b' r, f.scope.bindings[i]? = some b → f.scope.bindings[j]? = some b' →
    b.register? = some r → b'.register? = some r → i = j
  below : ∀ b ∈ f.scope.bindings, ∀ r, b.register? = some r → r.val < f.scope.registers

variable {f g : Function} {outer scopes : List Scope}

theorem Scoped.contained (h : f.Scoped outer) (hg : f.Contains outer g scopes) :
    g.Scoped scopes := by
  induction hg with
  | self => exact h
  | default _ hp hd ih =>
    cases ih with
    | intro _ _ _ defaults _ => exact defaults _ hp _ hd
  | lambda _ hw ih =>
    cases ih with
    | intro _ _ _ _ hbody =>
      cases hbody.within hw with
      | lambda hscoped => exact hscoped

theorem Scoped.addressed (h : f.Scoped outer) : f.Addressed outer := by
  cases h with
  | intro valid captures _ _ hbody =>
    refine ⟨fun r hr => ?_, fun slot hs => ?_, fun slot hs => ?_, fun name distance r hb => ?_,
      fun i j b b' r => valid.slot_unique, fun b hb r hr => valid.taken_lt r ?_⟩
    · obtain ⟨name, s, hs, hn⟩ := hbody.names_of_mentions hr
      cases hs
      exact ⟨name, hn⟩
    · obtain ⟨name, s, hs, hn⟩ := hbody.names_of_mentions hs
      cases hs
      exact ⟨name, hn⟩
    · obtain ⟨name, s, hs, hn⟩ := hbody.names_of_mentions hs
      cases hs
      exact ⟨name, hn⟩
    · obtain ⟨d, owner, rfl, howner, hh⟩ := captures name distance r hb
      exact ⟨Nat.succ_pos d, owner, howner, hh⟩
    · exact List.mem_filterMap.mpr ⟨b, hb, hr⟩

/-- In the tree of a resolved program every variable has its address, at any depth. -/
theorem ofProgram_addressed {primitives : Primitives} {first next : Nat} {forms : List Sexpr}
    (h : ofProgram primitives first forms = .ok (f, next)) (hg : f.Contains [] g scopes) :
    g.Addressed scopes := by
  have hf := ofProgram_scoped primitives first forms
  rw [h] at hf
  exact (hf.contained hg).addressed

/-- `(lambda (x) (lambda (y) (lambda () x)))` -/
def curriedForms : List Sexpr :=
  let lambda (parameters : List Sexpr) (body : Sexpr) : Sexpr :=
    .list [.identifier "lambda" none, .list parameters none, body] none
  [lambda [.identifier "x" none] (lambda [.identifier "y" none] (lambda [] (.identifier "x" none)))]

/-- The innermost procedure takes `x` from two levels further out. -/
def curriedInnermost : Function :=
  ⟨none, .none, ⟨[⟨"x", .variable (.captured 2 0)⟩], 0, []⟩, .reference (.captured 0) none, none⟩

def curriedInner : Function :=
  ⟨none, { Parameters.none with required := 1 },
    ⟨[⟨"y", .variable (.argument 0 .required)⟩, ⟨"x", .variable (.captured 1 0)⟩], 1, []⟩,
    .lambda curriedInnermost none, none⟩

def curriedOuter : Function :=
  ⟨none, { Parameters.none with required := 1 }, ⟨[⟨"x", .variable (.argument 0 .required)⟩], 1, []⟩,
    .lambda curriedInner none, none⟩

def curried : Function := ⟨none, .none, .empty, .lambda curriedOuter none, none⟩

theorem ofProgram_addressed_curried :
    ofProgram .standard 0 curriedForms = .ok (curried, 0) ∧
      curried.Contains [] curriedInnermost [curriedInner.scope, curriedOuter.scope, .empty] ∧
      curriedInnermost.body.Mentions (.captured 0) ∧
      curriedInnermost.Addressed [curriedInner.scope, curriedOuter.scope, .empty] := by
  have hresolved : ofProgram .standard 0 curriedForms = .ok (curried, 0) := rfl
  have hcontains : curried.Contains [] curriedInnermost
      [curriedInner.scope, curriedOuter.scope, .empty] :=
    .lambda (.lambda (.lambda .self (.refl _)) (.refl _)) (.refl _)
  exact ⟨hresolved, hcontains, .reads (.refl _), ofProgram_addressed hresolved hcontains⟩

end Function

end RegisterScheme
