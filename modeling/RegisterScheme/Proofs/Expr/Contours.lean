import RegisterScheme.Proofs.Expr.Clashes
import RegisterScheme.Proofs.Expr.Lexical
import RegisterScheme.Proofs.Expr.Outline

/-! Which variable a name means, told from the text of a program. Every procedure declares its
parameters or the names that it binds, and what its body defines, and a name means the innermost
declaration around it. -/

namespace RegisterScheme

open ScopeChain Resolving

namespace Sexpr

/-- The expressions that an expression is made of, itself among them. -/
inductive PartOf (p : Sexpr) : Sexpr → Prop
  | self : PartOf p p
  | list {s : Sexpr} {items : List Sexpr} {location : Option Location} (mem : s ∈ items)
      (part : PartOf p s) : PartOf p (.list items location)
  | dotted {s tail : Sexpr} {items : List Sexpr} {location : Option Location} (mem : s ∈ items)
      (part : PartOf p s) : PartOf p (.dotted items tail location)
  | tail {tail : Sexpr} {items : List Sexpr} {location : Option Location} (part : PartOf p tail) :
      PartOf p (.dotted items tail location)
  | vector {s : Sexpr} {items : List Sexpr} {location : Option Location} (mem : s ∈ items)
      (part : PartOf p s) : PartOf p (.vector items location)

theorem PartOf.trans {p q s : Sexpr} (h : p.PartOf q) (h' : q.PartOf s) : p.PartOf s := by
  induction h' with
  | self => exact h
  | list mem _ ih => exact .list mem ih
  | dotted mem _ ih => exact .dotted mem ih
  | tail _ ih => exact .tail ih
  | vector mem _ ih => exact .vector mem ih

theorem PartOf.height_le {p s : Sexpr} (h : p.PartOf s) : p.height ≤ s.height := by
  induction h with
  | self => exact Nat.le_refl _
  | list mem _ ih => exact Nat.le_trans ih (Nat.le_of_lt (height_lt_list mem))
  | dotted mem _ ih => exact Nat.le_trans ih (Nat.le_of_lt (height_lt_dotted mem))
  | tail _ ih =>
    rw [height]
    omega
  | vector mem _ ih =>
    rw [height]
    have := heightOfItems_le.mp (Nat.le_refl _) _ mem
    omega

/-- Somewhere in the text stands what looks like a definition of the name. -/
def MayDefine (table : Primitives) (name : String) (s : Sexpr) : Prop :=
  ∃ head place target forms location,
    PartOf (.list (.identifier head place :: target :: forms) location) s ∧
      table.find? head = some (.form .define) ∧ definedName? target = some name

/-- Somewhere in the text stands the keyword of templates. -/
def Quotes (table : Primitives) (s : Sexpr) : Prop :=
  ∃ name place, PartOf (.identifier name place) s ∧ table.find? name = some (.form .quasiquote)

/-- The parameters in a parameter list and what stands behind its dot. -/
def formals : Sexpr → List Sexpr × Option Sexpr
  | .list items _ => (items, none)
  | .dotted items tail _ => (items, some tail)
  | s => ([], some s)

theorem height_le_of_mem_formals {item s : Sexpr} (h : item ∈ s.formals.1) :
    item.height ≤ s.height := by
  unfold formals at h
  split at h
  · exact Nat.le_of_lt (height_lt_list h)
  · exact Nat.le_of_lt (height_lt_dotted h)
  · cases h

/-- The name that an item of a list of bindings binds. -/
def boundName? : Sexpr → Option String
  | .identifier name _ | .list [.identifier name _] _ | .list [.identifier name _, _] _ => some name
  | _ => none

/-- The level of a template inside a form that changes it. -/
def levelInside (level : Nat) : SpecialForm → Option Nat
  | .quasiquote => some (level + 1)
  | .unquote | .unquoteSplicing => some (level - 1)
  | _ => none

end Sexpr

/-- What the text of a procedure says of the names in its scope. -/
structure Contour where
  /-- The names that are declared before anything there is resolved. -/
  declares : String → Prop
  /-- The names that have a declaration at all. -/
  admits : String → Prop
  /-- Whether there are templates. -/
  templates : Prop

namespace Contour

/-- The contour of a procedure with some names of its own and a text. -/
def ofText (table : Primitives) (names : List String) (declares : String → Prop)
    (text : List Sexpr) : Contour where
  declares := declares
  admits name := name ∈ names ∨ ∃ s ∈ text, s.MayDefine table name
  templates := ∃ s ∈ text, s.Quotes table

/-- The contour of a procedure that declares its own names and no others. -/
def ofNames (table : Primitives) (names : List String) (text : List Sexpr) : Contour :=
  ofText table names (· ∈ names) text

/-- A scope holds what its procedure declares, and nothing else. -/
structure Fits (k : Contour) (s : Scope) : Prop where
  declares : ∀ name, k.declares name → ∃ r, s.Holds name r
  admits : ∀ name r, s.Holds name r → k.admits name

/-- A template of the procedure calls a procedure by this name, and has made it a global. -/
def Hides (k : Contour) (s : Scope) (name : String) : Prop :=
  k.templates ∧ name ∈ Scope.templateProcedures ∧ ⟨name, .variable .global⟩ ∈ s.bindings

end Contour

/-- The procedures around a place, innermost first: what their texts say, and their scopes. -/
structure Nest where
  contours : List Contour
  scopes : List Scope

namespace Nest

def push (nest : Nest) (k : Contour) (s : Scope) : Nest :=
  ⟨k :: nest.contours, s :: nest.scopes⟩

/-- A variable is the one that the innermost procedure around a place declares by this name, unless
a template of a procedure further in hides it. -/
def Designates (nest : Nest) (name : String) (v : VariableRef) : Prop :=
  ∀ distance k, nest.contours[distance]? = some k → k.declares name →
    (∀ i < distance, ∀ k' t, nest.contours[i]? = some k' → nest.scopes[i]? = some t →
      (∀ q, ¬ t.Holds name q) ∧ ¬ k'.Hides t name) →
    ∃ s r, nest.scopes[distance]? = some s ∧ s.Holds name r ∧
      v.Reaches name distance r nest.scopes

end Nest

/-- A form at the level of a body was resolved as a definition of the name, also inside `begin`. -/
inductive Defines (table : Primitives) : Sexpr → Expr → String → Prop
  | define {head name : String} {place location location' : Option Location} {target : Sexpr}
      {forms : List Sexpr} {v : VariableRef} {value : Expr}
      (keyword : table.find? head = some (.form .define))
      (defined : definedName? target = some name) :
      Defines table (.list (.identifier head place :: target :: forms) location)
        (.assignment v value location') name
  | begin {head name : String} {place location location' : Option Location} {forms : List Sexpr}
      {es : List Expr} {i : Nat} {s : Sexpr} {e : Expr}
      (keyword : table.find? head = some (.form .begin)) (form : forms[i]? = some s)
      (item : es[i]? = some e) (defines : Defines table s e name) :
      Defines table (.list (.identifier head place :: forms) location) (.sequence es location') name

/-- The body of a procedure defines the name. -/
inductive BodyDefines (table : Primitives) : List Sexpr → Expr → String → Prop
  | single {s : Sexpr} {e : Expr} {name : String} (defines : Defines table s e name) :
      BodyDefines table [s] e name
  | several {forms : List Sexpr} {es : List Expr} {location : Option Location} {i : Nat} {s : Sexpr}
      {e : Expr} {name : String} (several : forms.length ≠ 1) (form : forms[i]? = some s)
      (item : es[i]? = some e) (defines : Defines table s e name) :
      BodyDefines table forms (.sequence es location) name

/-- The procedures for default values. -/
def Parameters.defaults (p : Parameters Function) : List Function :=
  (p.optional ++ p.keys).filterMap (·.default)

/-- The contour at a default value, which sees only the parameters before it. -/
def Contour.ofDefault (table : Primitives) (items : List Sexpr) (tail : Option Sexpr)
    (before forms : List Sexpr) : Contour :=
  .ofText table (parameterNames items tail) (· ∈ parameterNames before none) (items ++ forms)

mutual

/-- An expression of a program and what it was resolved to, inside some procedures. Every variable
in it, assigned or referred to, is the one that its name designates there. -/
inductive Lexical (table : Primitives) : Nest → Sexpr → Expr → Prop
  | atom {nest : Nest} {a : Atom} {q : Quotation} {l l' : Option Location} :
      Lexical table nest (.literal a l) (.literal q l')
  | vector {nest : Nest} {items : List Sexpr} {q : Quotation} {l l' : Option Location} :
      Lexical table nest (.vector items l) (.literal q l')
  | nil {nest : Nest} {q : Quotation} {l l' : Option Location} :
      Lexical table nest (.list [] l) (.literal q l')
  | reference {nest : Nest} {name : String} {v : VariableRef} {l l' : Option Location}
      (target : nest.Designates name v) :
      Lexical table nest (.identifier name l) (.reference v l')
  | call {nest : Nest} {head : Sexpr} {operands : List Sexpr} {callee : Expr} {es : List Expr}
      {l l' : Option Location} (parts : LexicalForms table nest (head :: operands) (callee :: es)) :
      Lexical table nest (.list (head :: operands) l) (.call callee es l')
  | operation {nest : Nest} {name : String} {op : Operator} {operands : List Sexpr}
      {es : List Expr} {place l l' : Option Location}
      (operator : table.find? name = some (.operator op))
      (parts : LexicalForms table nest operands es) :
      Lexical table nest (.list (.identifier name place :: operands) l) (.operation op es l')
  | form {nest : Nest} {name : String} {form : SpecialForm} {operands : List Sexpr} {e : Expr}
      {place l : Option Location} (keyword : table.find? name = some (.form form))
      (special : LexicalSpecial table nest form operands e) :
      Lexical table nest (.list (.identifier name place :: operands) l) e

inductive LexicalForms (table : Primitives) : Nest → List Sexpr → List Expr → Prop
  | nil {nest : Nest} : LexicalForms table nest [] []
  | cons {nest : Nest} {s : Sexpr} {e : Expr} {ss : List Sexpr} {es : List Expr}
      (head : Lexical table nest s e) (tail : LexicalForms table nest ss es) :
      LexicalForms table nest (s :: ss) (e :: es)

/-- A special form by its operands. -/
inductive LexicalSpecial (table : Primitives) : Nest → SpecialForm → List Sexpr → Expr → Prop
  | quote {nest : Nest} {datum : Sexpr} {q : Quotation} {l : Option Location} :
      LexicalSpecial table nest .quote [datum] (.literal q l)
  | quasiquote {nest : Nest} {template : Sexpr} {e : Expr}
      (filled : LexicalTemplate table nest template 1 e) :
      LexicalSpecial table nest .quasiquote [template] e
  | branch {nest : Nest} {test consequent : Sexpr} {alternative : List Sexpr} {t c : Expr}
      {a : List Expr} {l : Option Location}
      (parts : LexicalForms table nest (test :: consequent :: alternative) (t :: c :: a)) :
      LexicalSpecial table nest .if (test :: consequent :: alternative) (.branch t c a.head? l)
  | cond {nest : Nest} {forms : List Sexpr} {cs : List (Clause Expr)} {otherwise : Option Expr}
      {l : Option Location} (parts : LexicalClauses table nest forms cs otherwise) :
      LexicalSpecial table nest .cond forms (.cond cs otherwise l)
  | when {nest : Nest} {test : Sexpr} {forms : List Sexpr} {t c : Expr} {l : Option Location}
      (tested : Lexical table nest test t) (body : LexicalSequence table nest forms c) :
      LexicalSpecial table nest .when (test :: forms) (.branch t c none l)
  | unless {nest : Nest} {test : Sexpr} {forms : List Sexpr} {t c : Expr} {l l' : Option Location}
      (tested : Lexical table nest test t) (body : LexicalSequence table nest forms c) :
      LexicalSpecial table nest .unless (test :: forms)
        (.branch (.operation .not [t] l) c none l')
  | lambda {nest : Nest} {ps : Sexpr} {forms : List Sexpr} {f : Function} {l : Option Location}
      (procedure : LexicalLambda table nest ps.formals.1 ps.formals.2 forms f) :
      LexicalSpecial table nest .lambda (ps :: forms) (.lambda f l)
  | namedLambda {nest : Nest} {ps head : Sexpr} {items forms : List Sexpr} {tail : Option Sexpr}
      {f : Function} {l : Option Location} (formals : ps.formals = (head :: items, tail))
      (procedure : LexicalLambda table nest items tail forms f) :
      LexicalSpecial table nest .namedLambda (ps :: forms) (.lambda f l)
  | define {nest : Nest} {name : String} {forms : List Sexpr} {v : VariableRef} {e : Expr}
      {place l : Option Location} (target : nest.Designates name v)
      (value : LexicalValue table nest forms e) :
      LexicalSpecial table nest .define (.identifier name place :: forms) (.assignment v e l)
  | defineProcedure {nest : Nest} {name : String} {header : Sexpr} {items forms : List Sexpr}
      {tail : Option Sexpr} {v : VariableRef} {f : Function} {place l l' : Option Location}
      (formals : header.formals = (.identifier name place :: items, tail))
      (target : nest.Designates name v)
      (procedure : LexicalLambda table nest items tail forms f) :
      LexicalSpecial table nest .define (header :: forms) (.assignment v (.lambda f l) l')
  | assign {nest : Nest} {name : String} {value : Sexpr} {v : VariableRef} {e : Expr}
      {place l : Option Location} (target : nest.Designates name v)
      (assigned : Lexical table nest value e) :
      LexicalSpecial table nest .assign [.identifier name place, value] (.assignment v e l)
  | begin {nest : Nest} {forms : List Sexpr} {es : List Expr} {l : Option Location}
      (parts : LexicalForms table nest forms es) :
      LexicalSpecial table nest .begin forms (.sequence es l)
  | let {nest : Nest} {items forms : List Sexpr} {es : List Expr} {f : Function}
      {place l l' : Option Location} (inits : LexicalInits table nest items es)
      (body : LexicalBody table nest (items.filterMap Sexpr.boundName?) forms forms f) :
      LexicalSpecial table nest .let (.list items place :: forms) (.call (.lambda f l) es l')
  /-- The loop is a procedure inside another, which declares the name of the loop. -/
  | namedLet {nest : Nest} {name : String} {items forms : List Sexpr} {es : List Expr}
      {wrapper loop : Function} {k : Contour} {v : VariableRef}
      {place place' l l₁ l₂ l₃ l₄ l₅ l₆ : Option Location}
      (inits : LexicalInits table nest items es)
      (contour : k = .ofNames table [name] forms) (fits : k.Fits wrapper.scope)
      (target : (nest.push k wrapper.scope).Designates name v)
      (body : LexicalBody table (nest.push k wrapper.scope) (items.filterMap Sexpr.boundName?) forms
        forms loop)
      (wraps : wrapper.body =
        .sequence [.assignment v (.lambda loop l) l₁, .reference v l₂] l₃) :
      LexicalSpecial table nest .let (.identifier name place :: .list items place' :: forms)
        (.call (.call (.lambda wrapper l₄) [] l₅) es l₆)
  | letStar {nest : Nest} {items forms : List Sexpr} {e : Expr} {place : Option Location}
      (nested : LexicalLetStar table nest items forms e) :
      LexicalSpecial table nest .letStar (.list items place :: forms) e
  /-- The initial values see the bound names, but not what the body defines. -/
  | letrec {nest : Nest} {items forms : List Sexpr} {f : Function} {k k' : Contour}
      {declares : String → Prop} {es : List Expr} {e : Expr} {place l l₁ l₂ : Option Location}
      (contour : k = .ofNames table (items.filterMap Sexpr.boundName?) (items ++ forms))
      (assignments : LexicalAssignments table (nest.push k f.scope) items es)
      (contour' : k' = .ofText table (items.filterMap Sexpr.boundName?) declares (items ++ forms))
      (own : ∀ name ∈ items.filterMap Sexpr.boundName?, declares name)
      (definitions : ∀ name, BodyDefines table forms e name → declares name)
      (fits : k'.Fits f.scope) (body : LexicalSequence table (nest.push k' f.scope) forms e)
      (assigns : f.body = .sequence (es ++ [e]) l) :
      LexicalSpecial table nest .letrec (.list items place :: forms) (.call (.lambda f l₁) [] l₂)

/-- The value of a definition, if there is one. -/
inductive LexicalValue (table : Primitives) : Nest → List Sexpr → Expr → Prop
  | given {nest : Nest} {s : Sexpr} {e : Expr} (value : Lexical table nest s e) :
      LexicalValue table nest [s] e
  | missing {nest : Nest} {q : Quotation} {l : Option Location} :
      LexicalValue table nest [] (.literal q l)

inductive LexicalSequence (table : Primitives) : Nest → List Sexpr → Expr → Prop
  | single {nest : Nest} {s : Sexpr} {e : Expr} (only : Lexical table nest s e) :
      LexicalSequence table nest [s] e
  | several {nest : Nest} {forms : List Sexpr} {es : List Expr} {l : Option Location}
      (several : forms.length ≠ 1) (parts : LexicalForms table nest forms es) :
      LexicalSequence table nest forms (.sequence es l)

inductive LexicalClauses (table : Primitives) :
    Nest → List Sexpr → List (Clause Expr) → Option Expr → Prop
  | nil {nest : Nest} : LexicalClauses table nest [] [] none
  | otherwise {nest : Nest} {forms : List Sexpr} {e : Expr} {place l : Option Location}
      (body : LexicalSequence table nest forms e) :
      LexicalClauses table nest [.list (.identifier "else" place :: forms) l] [] (some e)
  | test {nest : Nest} {test : Sexpr} {t : Expr} {rest : List Sexpr} {cs : List (Clause Expr)}
      {otherwise : Option Expr} {l : Option Location} (tested : Lexical table nest test t)
      (more : LexicalClauses table nest rest cs otherwise) :
      LexicalClauses table nest (.list [test] l :: rest) (⟨t, none⟩ :: cs) otherwise
  | body {nest : Nest} {test : Sexpr} {t e : Expr} {forms rest : List Sexpr}
      {cs : List (Clause Expr)} {otherwise : Option Expr} {l : Option Location}
      (tested : Lexical table nest test t) (body : LexicalSequence table nest forms e)
      (more : LexicalClauses table nest rest cs otherwise) :
      LexicalClauses table nest (.list (test :: forms) l :: rest) (⟨t, some e⟩ :: cs) otherwise

/-- A procedure that declares some names, and what its body defines. -/
inductive LexicalBody (table : Primitives) :
    Nest → (names : List String) → (text forms : List Sexpr) → Function → Prop
  | intro {nest : Nest} {names : List String} {text forms : List Sexpr} {f : Function}
      {declares : String → Prop} {k : Contour} (contour : k = .ofText table names declares text)
      (own : ∀ name ∈ names, declares name)
      (definitions : ∀ name, BodyDefines table forms f.body name → declares name)
      (fits : k.Fits f.scope)
      (body : LexicalSequence table (nest.push k f.scope) forms f.body) :
      LexicalBody table nest names text forms f

/-- A procedure with a parameter list. -/
inductive LexicalLambda (table : Primitives) :
    Nest → (items : List Sexpr) → (tail : Option Sexpr) → (forms : List Sexpr) → Function → Prop
  | intro {nest : Nest} {items forms : List Sexpr} {tail : Option Sexpr} {f : Function}
      (defaults : LexicalDefaults table nest.contours (f.scope :: nest.scopes)
        (Contour.ofDefault table items tail · forms) items f.parameters.defaults)
      (body : LexicalBody table nest (parameterNames items tail) (items ++ forms) forms f) :
      LexicalLambda table nest items tail forms f

/-- The default values in a parameter list, each in the contour of the parameters before it. -/
inductive LexicalDefaults (table : Primitives) : List Contour → List Scope →
    (contour : List Sexpr → Contour) → List Sexpr → List Function → Prop
  | nil {outer : List Contour} {scopes : List Scope} {contour : List Sexpr → Contour} :
      LexicalDefaults table outer scopes contour [] []
  | name {outer : List Contour} {scopes : List Scope} {contour : List Sexpr → Contour}
      {items : List Sexpr} {fs : List Function} {name : String} {l : Option Location}
      (before : LexicalDefaults table outer scopes contour items fs) :
      LexicalDefaults table outer scopes contour (items ++ [.identifier name l]) fs
  | default {outer : List Contour} {scopes : List Scope} {contour : List Sexpr → Contour}
      {items : List Sexpr} {fs : List Function} {head form : Sexpr} {f : Function}
      {l : Option Location} (before : LexicalDefaults table outer scopes contour items fs)
      (value : LexicalBody table ⟨contour items :: outer, scopes⟩ [] [form] [form] f) :
      LexicalDefaults table outer scopes contour (items ++ [.list [head, form] l]) (fs ++ [f])

/-- The initial values in a list of bindings. -/
inductive LexicalInits (table : Primitives) : Nest → List Sexpr → List Expr → Prop
  | nil {nest : Nest} : LexicalInits table nest [] []
  | given {nest : Nest} {head init : Sexpr} {e : Expr} {items : List Sexpr} {es : List Expr}
      {l : Option Location} (value : Lexical table nest init e)
      (more : LexicalInits table nest items es) :
      LexicalInits table nest (.list [head, init] l :: items) (e :: es)
  | missing {nest : Nest} {item : Sexpr} {q : Quotation} {items : List Sexpr} {es : List Expr}
      {l : Option Location} (bare : Outline.initialForm? item = none)
      (more : LexicalInits table nest items es) :
      LexicalInits table nest (item :: items) (.literal q l :: es)

/-- The assignments of initial values to names that see each other. -/
inductive LexicalAssignments (table : Primitives) : Nest → List Sexpr → List Expr → Prop
  | nil {nest : Nest} : LexicalAssignments table nest [] []
  | cons {nest : Nest} {item : Sexpr} {name : String} {v : VariableRef} {e : Expr}
      {items : List Sexpr} {es : List Expr} {l : Option Location}
      (bound : item.boundName? = some name) (target : nest.Designates name v)
      (value : LexicalInits table nest [item] [e]) (more : LexicalAssignments table nest items es) :
      LexicalAssignments table nest (item :: items) (.assignment v e l :: es)

/-- Bindings each of which is a procedure inside that of the one before. -/
inductive LexicalLetStar (table : Primitives) : Nest → (items forms : List Sexpr) → Expr → Prop
  | last {nest : Nest} {items forms : List Sexpr} {es : List Expr} {f : Function}
      {l l' : Option Location} (inits : LexicalInits table nest items es)
      (body : LexicalBody table nest (items.filterMap Sexpr.boundName?) forms forms f)
      (last : items.length ≤ 1) :
      LexicalLetStar table nest items forms (.call (.lambda f l) es l')
  | more {nest : Nest} {item item' : Sexpr} {items forms : List Sexpr} {es : List Expr}
      {f : Function} {k : Contour} {l l' : Option Location}
      (inits : LexicalInits table nest [item] es)
      (contour : k = .ofNames table ([item].filterMap Sexpr.boundName?) (item' :: items ++ forms))
      (fits : k.Fits f.scope)
      (nested : LexicalLetStar table (nest.push k f.scope) (item' :: items) forms f.body) :
      LexicalLetStar table nest (item :: item' :: items) forms (.call (.lambda f l) es l')

/-- A template at a level of quasiquotation. Its helpers are globals. -/
inductive LexicalTemplate (table : Primitives) : Nest → Sexpr → (level : Nat) → Expr → Prop
  | constant {nest : Nest} {template : Sexpr} {level : Nat} {q : Quotation}
      {l : Option Location} : LexicalTemplate table nest template level (.literal q l)
  | unquote {nest : Nest} {name : String} {arg : Sexpr} {e : Expr} {place l : Option Location}
      (keyword : table.find? name = some (.form .unquote)) (value : Lexical table nest arg e) :
      LexicalTemplate table nest (.list [.identifier name place, arg] l) 1 e
  | nested {nest : Nest} {name : String} {form : SpecialForm} {arg : Sexpr} {level inner : Nat}
      {e : Expr} {q q' : Quotation} {place l l₁ l₂ l₃ l₄ : Option Location}
      (keyword : table.find? name = some (.form form))
      (inside : Sexpr.levelInside level form = some inner)
      (filled : LexicalTemplate table nest arg inner e) :
      LexicalTemplate table nest (.list [.identifier name place, arg] l) level
        (.operation .cons [.literal q l₁, .operation .cons [e, .literal q' l₂] l₃] l₄)
  | list {nest : Nest} {items : List Sexpr} {level : Nat} {e : Expr} {l : Option Location}
      (filled : LexicalItems table nest none items level e) :
      LexicalTemplate table nest (.list items l) level e
  | dotted {nest : Nest} {items : List Sexpr} {tail : Sexpr} {level : Nat} {e : Expr}
      {l : Option Location} (filled : LexicalItems table nest (some tail) items level e) :
      LexicalTemplate table nest (.dotted items tail l) level e
  | vector {nest : Nest} {items : List Sexpr} {level slot : Nat} {e : Expr}
      {l l₁ l₂ : Option Location} (filled : LexicalItems table nest none items level e)
      (helper : (VariableRef.global slot).Names "list->vector" nest.scopes) :
      LexicalTemplate table nest (.vector items l) level
        (.call (.reference (.global slot) l₁) [e] l₂)

/-- The items of a template in front of its tail. -/
inductive LexicalItems (table : Primitives) :
    Nest → (tail : Option Sexpr) → List Sexpr → (level : Nat) → Expr → Prop
  | nil {nest : Nest} {level : Nat} {q : Quotation} {l : Option Location} :
      LexicalItems table nest none [] level (.literal q l)
  | tail {nest : Nest} {tail : Sexpr} {level : Nat} {e : Expr}
      (filled : LexicalTemplate table nest tail level e) :
      LexicalItems table nest (some tail) [] level e
  | unquote {nest : Nest} {name : String} {arg : Sexpr} {e : Expr} {place : Option Location}
      (keyword : table.find? name = some (.form .unquote)) (value : Lexical table nest arg e) :
      LexicalItems table nest none [.identifier name place, arg] 1 e
  | splice {nest : Nest} {tail : Option Sexpr} {name : String} {arg : Sexpr} {items : List Sexpr}
      {slot : Nat} {e rest : Expr} {place l l₁ l₂ : Option Location}
      (keyword : table.find? name = some (.form .unquoteSplicing))
      (value : Lexical table nest arg e) (more : LexicalItems table nest tail items 1 rest)
      (helper : (VariableRef.global slot).Names "append" nest.scopes) :
      LexicalItems table nest tail (.list [.identifier name place, arg] l :: items) 1
        (.call (.reference (.global slot) l₁) [e, rest] l₂)
  | cons {nest : Nest} {tail : Option Sexpr} {item : Sexpr} {items : List Sexpr} {level : Nat}
      {e rest : Expr} {l : Option Location} (filled : LexicalTemplate table nest item level e)
      (more : LexicalItems table nest tail items level rest) :
      LexicalItems table nest tail (item :: items) level (.operation .cons [e, rest] l)

end

end RegisterScheme
