import RegisterScheme.Proofs.Scope.Resolution

/-! Expressions whose variables are those of the scopes around them. A procedure brings a finished
scope of its own, which declares its parameters and captures only variables further out. -/

namespace RegisterScheme

/-- The captures of a finished scope are variables of the scopes around it. -/
def Scope.Captures (s : Scope) (outer : List Scope) : Prop :=
  ∀ name distance r, ⟨name, .variable (.captured distance r)⟩ ∈ s.bindings →
    ∃ d o, distance = d + 1 ∧ outer[d]? = some o ∧ o.Holds name r

theorem Scope.Captures.grow {s : Scope} {outer outer' : List Scope} (h : s.Captures outer)
    (hg : ScopesGrow outer outer') : s.Captures outer' := by
  intro name distance r hb
  obtain ⟨d, o, hd, ho, hh⟩ := h name distance r hb
  obtain ⟨p, hp, hop⟩ := forall₂_getElem? hg ho
  exact ⟨d, p, hd, hp, hh.grows hop⟩

/-- The slot, the name and the register of a parameter. -/
def OptionalParameter.entry {φ : Type} (p : OptionalParameter φ) : Nat × String × Register :=
  (p.slot, p.name, p.register)

/-- The parameters are those that a scope declares, in the same order. -/
structure Parameters.Declared {φ : Type} (p : Parameters φ) (s : Scope) : Prop where
  required : p.required = (s.arguments .required).length
  optional : p.optional.map OptionalParameter.entry = s.arguments .optional
  rest : p.rest.toList = (s.arguments .rest).map fun a => a.2.2
  keys : p.keys.map OptionalParameter.entry = s.arguments .key

theorem Parameters.Declared.congr {φ : Type} {p : Parameters φ} {s t : Scope}
    (h : p.Declared s) (hst : ∀ kind, t.arguments kind = s.arguments kind) : p.Declared t :=
  ⟨hst _ ▸ h.required, hst _ ▸ h.optional, hst _ ▸ h.rest, hst _ ▸ h.keys⟩

mutual

/-- An expression inside scopes, innermost first. -/
inductive Expr.Scoped : Expr → List Scope → Prop
  | literal {q : Quotation} {location : Option Location} {scopes : List Scope} :
      Expr.Scoped (.literal q location) scopes
  | reference {name : String} {v : VariableRef} {location : Option Location}
      {scopes : List Scope} (names : v.Names name scopes) :
      Expr.Scoped (.reference v location) scopes
  | assignment {name : String} {v : VariableRef} {value : Expr} {location : Option Location}
      {scopes : List Scope} (names : v.Names name scopes) (value_scoped : value.Scoped scopes) :
      Expr.Scoped (.assignment v value location) scopes
  | branch {test consequent : Expr} {alternative : Option Expr} {location : Option Location}
      {scopes : List Scope} (test_scoped : test.Scoped scopes)
      (consequent_scoped : consequent.Scoped scopes)
      (alternative_scoped : ∀ e ∈ alternative, Expr.Scoped e scopes) :
      Expr.Scoped (.branch test consequent alternative location) scopes
  | cond {clauses : List (Clause Expr)} {otherwise : Option Expr} {location : Option Location}
      {scopes : List Scope} (tests_scoped : ∀ c ∈ clauses, Expr.Scoped c.test scopes)
      (bodies_scoped : ∀ c ∈ clauses, ∀ e ∈ c.body, Expr.Scoped e scopes)
      (otherwise_scoped : ∀ e ∈ otherwise, Expr.Scoped e scopes) :
      Expr.Scoped (.cond clauses otherwise location) scopes
  | operation {op : Operator} {operands : List Expr} {location : Option Location}
      {scopes : List Scope} (accepts : op.arity.accepts operands.length)
      (operands_scoped : ∀ e ∈ operands, Expr.Scoped e scopes) :
      Expr.Scoped (.operation op operands location) scopes
  | call {callee : Expr} {arguments : List Expr} {location : Option Location}
      {scopes : List Scope} (callee_scoped : callee.Scoped scopes)
      (arguments_scoped : ∀ e ∈ arguments, Expr.Scoped e scopes) :
      Expr.Scoped (.call callee arguments location) scopes
  | lambda {f : Function} {location : Option Location} {scopes : List Scope}
      (function_scoped : f.Scoped scopes) : Expr.Scoped (.lambda f location) scopes
  | sequence {items : List Expr} {location : Option Location} {scopes : List Scope}
      (items_scoped : ∀ e ∈ items, Expr.Scoped e scopes) :
      Expr.Scoped (.sequence items location) scopes

/-- A procedure inside scopes, innermost first. -/
inductive Function.Scoped : Function → List Scope → Prop
  | intro {f : Function} {outer : List Scope} (valid : f.scope.Valid)
      (captures : f.scope.Captures outer) (declared : f.parameters.Declared f.scope)
      (defaults : ∀ p ∈ f.parameters.optional ++ f.parameters.keys, ∀ d ∈ p.default,
        Function.Scoped d (f.scope :: outer))
      (body_scoped : f.body.Scoped (f.scope :: outer)) : Function.Scoped f outer

end

/-- Parameters that the innermost scope has declared so far, with their defaults. -/
structure Parameters.DeclaredIn (p : Parameters Function) (c : ScopeChain) : Prop where
  declared : ∃ s, c.scopes.head? = some s ∧ p.Declared s
  defaults : ∀ q ∈ p.optional ++ p.keys, ∀ d ∈ q.default, ScopeChain.Lasting d.Scoped c

end RegisterScheme
