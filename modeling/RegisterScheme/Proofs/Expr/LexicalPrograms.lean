import RegisterScheme.Proofs.Expr.SettledForms

/-! Programs are lexical: every variable in a resolved program is the one that its name designates
where it stands, whatever was resolved before it. -/

namespace RegisterScheme

open ScopeChain

variable {table : Primitives} {k : Contour} {ρ : List Contour} {c d : ScopeChain}

namespace Resolving

variable {expand : Expand} {n : Nat}

theorem call_settles (he : Lexicalizes table expand n) (hc : c.Realizes table (k :: ρ))
    {head : Sexpr} {operands : List Sexpr} (hs : ∀ s ∈ head :: operands, k.Spans table n s)
    (place location : Option Location) :
    Settles table (k :: ρ) c (do
      let callee ← expand head
      return Expr.call callee (← operands.mapM expand) location) fun e scopes =>
        Lexical table ⟨k :: ρ, scopes⟩ (.list (head :: operands) place) e := by
  refine (he.settles hc (hs head List.mem_cons_self)).bind fun callee d _ hd hcallee => ?_
  refine (mapM_settles he hd fun s hm => hs s (List.mem_cons_of_mem _ hm)).bind
    fun es g hdg hg hes => .pure hg fun scopes hscopes => ?_
  exact .call (.cons (hcallee scopes (hdg.trans hscopes)) (hes scopes hscopes))

/-- What a name at the head of a list means there. -/
theorem primitiveAt_eq_ok {name : String} {p : Option (String × Primitive)}
    (h : ((·.map fun p => (name, p)) <$> primitive? name : Resolving _) c = .ok p d) :
    d = c ∧ p = (c.primitive? name).map fun p => (name, p) := by
  rw [map_eq_pure_bind] at h
  obtain ⟨q, b, hq, h⟩ := answers_of_bind h
  obtain ⟨rfl, rfl⟩ := primitive?_eq_ok hq
  cases h
  exact ⟨rfl, rfl⟩

theorem compound_settles (he : Lexicalizes table expand n) (hc : c.Realizes table (k :: ρ))
    {head : Sexpr} {operands : List Sexpr} {location : Option Location}
    (hs : k.Spans table (n + 1) (.list (head :: operands) location)) (s : Sexpr) :
    Settles table (k :: ρ) c (compound expand head operands s) fun e scopes =>
      Lexical table ⟨k :: ρ, scopes⟩ (.list (head :: operands) location) e := by
  have hparts : ∀ s ∈ head :: operands, k.Spans table n s := fun s => hs.item
  unfold compound
  split
  · rename_i name hname
    obtain ⟨place, rfl⟩ : ∃ place, head = .identifier name place := by
      cases head <;> simp_all [Sexpr.identifier?]
    refine Settles.read (fun _ _ h => primitiveAt_eq_ok h) ?_
    rintro p rfl
    cases hp : c.primitive? name with
    | none => exact call_settles he hc hparts _ _
    | some p =>
      have hkeyword := hc.primitive?_eq_some hp
      cases p with
      | form form =>
        exact (specialForm_settles he hc hkeyword hs s).mono fun e d _ he scopes hscopes =>
          .form hkeyword (he scopes hscopes)
      | operator op =>
        refine Settles.read (fun _ _ h => checkArity_eq_ok h) fun _ _ => ?_
        exact (mapM_settles he hc fun s hm => hparts s (List.mem_cons_of_mem _ hm)).bind
          fun es d _ hd hes => .pure hd fun scopes hscopes =>
            .operation hkeyword (hes scopes hscopes)
  · exact call_settles he hc hparts _ _

theorem expandWith_settles (he : Lexicalizes table expand n) (hc : c.Realizes table (k :: ρ))
    {s : Sexpr} (hs : k.Spans table (n + 1) s) :
    Settles table (k :: ρ) c (expandWith expand s) fun e scopes =>
      Lexical table ⟨k :: ρ, scopes⟩ s e := by
  unfold expandWith
  split
  · exact literal_settles hc _ _ fun _ _ => .atom
  · exact literal_settles hc _ _ fun _ _ => .vector
  · exact (variableRef_settles hc _ _).bind fun v d _ hd hv => .pure hd fun scopes hs =>
      .reference (hv scopes hs)
  · exact literal_settles hc _ _ fun _ _ => .nil
  · exact compound_settles he hc hs _
  · exact .throw _

/-- What looks like a form and did not come out as a call has its keyword. -/
theorem keyword_of_expandWith (hc : c.Realizes table ρ) {name : String} {form : SpecialForm}
    (hkeyword : table.find? name = some (.form form)) {place location : Option Location}
    {operands : List Sexpr} {e : Expr}
    (h : expandWith expand (.list (.identifier name place :: operands) location) c = .ok e d)
    (he : ∀ callee es l, e ≠ .call callee es l) : c.primitive? name = some (.form form) := by
  cases hp : c.primitive? name with
  | some p => exact (hc.primitive?_eq_some hp).symm.trans hkeyword
  | none =>
    rw [expandWith, compound] at h
    obtain ⟨p, b, hprimitive, h⟩ := answers_of_bind h
    obtain ⟨rfl, rfl⟩ := primitiveAt_eq_ok hprimitive
    rw [hp] at h
    obtain ⟨callee, b, -, h⟩ := answers_of_bind h
    obtain ⟨es, b', -, h⟩ := answers_of_bind h
    cases h
    exact absurd rfl (he callee es _)

theorem expandWith_introduces (he : Lexicalizes table expand n) (hc : c.Realizes table (k :: ρ))
    {s : Sexpr} (hs : k.Spans table (n + 1) s) {e : Expr} {name : String}
    (h : expandWith expand s c = .ok e d) (hdefines : Defines table s e name) :
    Introduces c.primitive? s name := by
  cases hdefines with
  | define keyword defined => exact .define (keyword_of_expandWith hc keyword h nofun) defined
  | begin keyword form item defines =>
    have hbegin := keyword_of_expandWith hc keyword h nofun
    rw [expandWith_form hbegin, specialForm] at h
    obtain ⟨_, b, harity, hbody⟩ := answers_of_bind h
    obtain ⟨rfl, -⟩ := checkArity_eq_ok harity
    obtain ⟨es, b', hes, hanswer⟩ := answers_of_bind hbody
    cases hanswer
    exact .begin hbegin (List.mem_of_getElem? form) (mapM_introduces he hc
      (fun s hm => hs.item (List.mem_cons_of_mem _ hm)) hes form item defines)

theorem expandWithin_lexicalizes (table : Primitives) (n : Nat) :
    Lexicalizes table (expandWithin n) n := by
  induction n with
  | zero => exact ⟨fun _ _ => .throw _, fun _ _ h => by cases h⟩
  | succ n ih =>
    exact ⟨fun hc hs => expandWith_settles ih hc hs,
      fun hc hs h => expandWith_introduces ih hc hs h⟩

/-- The scope of a program, in which nothing is declared. -/
theorem realizes_start (table : Primitives) (nextObject : Nat) (hk : ∀ name, ¬ k.declares name) :
    Realizes table { ScopeChain.start table nextObject with scopes := [.empty] } [k] where
  sound := ⟨List.cons_ne_nil _ _, Scope.inside_empty _, trivial⟩
  primitives := rfl
  fits := .cons ⟨fun name hn => absurd hn (hk name),
    fun _ _ h => by simp [Scope.Holds, Scope.empty] at h⟩ .nil
  hidden i j s t hij _ ht := by
    have hj : j < [Scope.empty].length := (List.getElem?_eq_some_iff.mp ht).1
    rw [List.length_singleton] at hj
    omega

/-- A whole program, in the scope that it leaves. -/
theorem program_lexical {forms : List Sexpr} {f : Function} {nextObject : Nat}
    (h : program forms (.start table nextObject) = .ok f d) :
    LexicalSequence table ⟨[.ofNames table [] forms], [f.scope]⟩ forms f.body := by
  have hforms : ∀ s ∈ forms,
      (Contour.ofNames table [] forms).Spans table (Sexpr.heightOfItems forms) s := fun s hs =>
    ⟨Contour.ofText_covers hs, Sexpr.heightOfItems_le.mp (Nat.le_refl _) s hs⟩
  have hstart : Realizes table { ScopeChain.start table nextObject with scopes := [.empty] }
      [.ofNames table [] forms] := realizes_start table nextObject fun _ => List.not_mem_nil
  obtain ⟨⟨e, s⟩, b, hscope, hanswer⟩ := answers_of_bind h
  cases hanswer
  obtain ⟨b, hact, hs, -⟩ := answers_of_inScope hscope
  obtain ⟨-, hb, he⟩ := (sequence_settles (expandWithin_lexicalizes table _) hstart hforms
    _).outcome e b hact
  obtain ⟨t, outer, ht, -, houter⟩ := hb.exists_head
  cases houter
  obtain ⟨rfl, -⟩ := List.cons.inj (hs.symm.trans ht)
  exact ht ▸ he.now

end Resolving

namespace Function

/-- Programs are lexical. In a resolved program every name means its innermost declaration, where
what a body defines is declared throughout the body, unless a scope on the way got the name only
while its text was resolved, or a template there hides the name. -/
theorem ofProgram_lexical {primitives : Primitives} {first next : Nat} {forms : List Sexpr}
    {f : Function} (h : ofProgram primitives first forms = .ok (f, next)) :
    LexicalSequence primitives ⟨[.ofNames primitives [] forms], [f.scope]⟩ forms f.body := by
  unfold ofProgram at h
  cases hp : Resolving.program forms (.start primitives first) with
  | error e d =>
    rw [hp] at h
    cases h
  | ok g d =>
    rw [hp] at h
    cases h
    exact Resolving.program_lexical hp

/-- `((lambda () (define g (lambda () x)) (define x 1) (g)))` -/
def laterForms : List Sexpr :=
  let name (s : String) : Sexpr := .identifier s none
  let list (items : List Sexpr) : Sexpr := .list items none
  [list [list [name "lambda", list [],
    list [name "define", name "g", list [name "lambda", list [], name "x"]],
    list [name "define", name "x", .literal (.integer 1) none], list [name "g"]]]]

/-- The register of `x`. -/
def laterRegister : Register := ⟨1, Nat.one_lt_succ_succ 254⟩

def laterInner : Function :=
  ⟨some "g", .none, ⟨[⟨"x", .variable (.captured 1 laterRegister)⟩], 0, []⟩,
    .reference (.captured 0) none, none⟩

def laterOuter : Function :=
  ⟨none, .none, ⟨[⟨"g", .variable (.localVariable .zero)⟩,
      ⟨"x", .variable (.localVariable laterRegister)⟩], 2, []⟩,
    .sequence [.assignment (.localVariable .zero) (.lambda laterInner none) none,
      .assignment (.localVariable laterRegister) (.literal ⟨0, .atom (.integer 1)⟩ none) none,
      .call (.reference (.localVariable .zero) none) [] none] none, none⟩

/-- What is lexical leaves one variable for the reference in front of the definition. -/
theorem reaches_of_later {k : Contour} {s : Scope}
    (h : LexicalSequence .standard ⟨[k], [s]⟩ laterForms
      (.call (.lambda laterOuter none) [] none)) :
    (VariableRef.captured 0).Reaches "x" 1 laterRegister
      [laterInner.scope, laterOuter.scope, s] := by
  cases h with | single only =>
  cases only with | call parts =>
  cases parts with | cons callee _ =>
  cases callee with | form keyword special =>
  cases keyword
  cases special with | lambda procedure =>
  cases procedure with | intro _ body =>
  cases body with | intro contour _ definitions _ body =>
  have hdeclares := definitions "x" (.several (i := 1) (by decide) rfl rfl (.define rfl rfl))
  cases body with | several _ parts =>
  cases parts with | cons first _ =>
  cases first with | form keyword special =>
  cases keyword
  cases special with
  | defineProcedure formals => cases formals
  | define _ value =>
    cases value with | given value =>
    cases value with | form keyword special =>
    cases keyword
    cases special with | lambda procedure =>
    cases procedure with | intro _ body =>
    cases body with | intro _ _ _ _ body =>
    cases body with | single only =>
    cases only with | reference target =>
    obtain ⟨t, r, ht, ⟨b, hb, hname, hr⟩, hreaches⟩ :=
      target 1 _ rfl (contour ▸ hdeclares) fun i hi k t _ ht => by
        obtain rfl := Nat.lt_one_iff.mp hi
        cases ht
        refine ⟨fun q ⟨b, hb, _, hq⟩ => ?_, fun hhides => ?_⟩
        · cases List.mem_singleton.mp hb
          cases hq
        · cases List.mem_singleton.mp hhides.2.2
    cases ht
    -- the binding of `x` is the second one
    cases hb with
    | head => exact absurd hname (by decide)
    | tail _ hb =>
      cases List.mem_singleton.mp hb
      cases hr
      exact hreaches

/-- In the procedure in front of the definition the name is the variable behind it. -/
theorem ofProgram_lexical_later :
    ofProgram .standard 0 laterForms =
        .ok (⟨none, .none, .empty, .call (.lambda laterOuter none) [] none, none⟩, 0) ∧
      LexicalSequence .standard ⟨[.ofNames .standard [] laterForms], [.empty]⟩ laterForms
        (.call (.lambda laterOuter none) [] none) ∧
      (VariableRef.captured 0).Reaches "x" 1 laterRegister
        [laterInner.scope, laterOuter.scope, .empty] :=
  have h : ofProgram .standard 0 laterForms =
      .ok (⟨none, .none, .empty, .call (.lambda laterOuter none) [] none, none⟩, 0) := rfl
  have hlexical := ofProgram_lexical h
  ⟨h, hlexical, reaches_of_later hlexical⟩

end Function

end RegisterScheme
