import RegisterScheme.Proofs.Evaluation.Evaluate
import RegisterScheme.Proofs.Expr.Quasi
import RegisterScheme.Proofs.Value.Datum

/-! The value of a quasiquotation: evaluating the expression for a template gives its filling, from
left to right and each expression once, and fails where an expression or a splice does. -/

namespace RegisterScheme

open Evaluating

/-- The procedures that templates call are in the globals of their names. -/
structure World.HasTemplateProcedures (w : World) : Prop where
  append : w.globals "append" = some (.native (.standard .append))
  listToVector : w.globals "list->vector" = some (.native (.standard .listToVector))

theorem World.HasTemplateProcedures.withNext {w : World} (h : w.HasTemplateProcedures)
    (next : Nat) : World.HasTemplateProcedures { w with nextObject := next } :=
  ⟨h.append, h.listToVector⟩

theorem Value.listItems?_listFrom (id : Nat) (vs : List Value) :
    (listFrom id .nil vs).listItems? = some vs := by
  induction vs generalizing id with
  | nil => rfl
  | cons v vs ih => rw [listFrom, listItems?, ih, Option.map_some]

namespace Filling

section

variable (eval : Expr → Evaluating Value)

/-- What a filling gives in a world, if expressions are evaluated as given. The identities of new
objects are left open. -/
inductive Yields : Filling → World → EStateM.Result Failure World Value → Prop
  | atom {a : Atom} {w : World} : Yields (.atom a) w (.ok (.atom a) w)
  | value {e : Expr} {w : World} : Yields (.value e) w (eval e w)
  | pair {f g : Filling} {w w₁ w₂ : World} {car cdr : Value} {id next : Nat}
      (first : Yields f w (.ok car w₁)) (rest : Yields g w₁ (.ok cdr w₂)) :
      Yields (.pair f g) w (.ok (.pair id car cdr) { w₂ with nextObject := next })
  | car_fails {f g : Filling} {w w₁ : World} {x : Failure} (first : Yields f w (.error x w₁)) :
      Yields (.pair f g) w (.error x w₁)
  | cdr_fails {f g : Filling} {w w₁ w₂ : World} {car : Value} {x : Failure}
      (first : Yields f w (.ok car w₁)) (rest : Yields g w₁ (.error x w₂)) :
      Yields (.pair f g) w (.error x w₂)
  | splice {e : Expr} {g : Filling} {w w₁ w₂ : World} {u cdr : Value} {us : List Value}
      {id next : Nat} (first : eval e w = .ok u w₁) (rest : Yields g w₁ (.ok cdr w₂))
      (list : u.listItems? = some us) :
      Yields (.splice e g) w (.ok (.listFrom id cdr us) { w₂ with nextObject := next })
  | splice_fails {e : Expr} {g : Filling} {w w₁ : World} {x : Failure}
      (first : eval e w = .error x w₁) : Yields (.splice e g) w (.error x w₁)
  | splice_cdr_fails {e : Expr} {g : Filling} {w w₁ w₂ : World} {u : Value} {x : Failure}
      (first : eval e w = .ok u w₁) (rest : Yields g w₁ (.error x w₂)) :
      Yields (.splice e g) w (.error x w₂)
  | splice_no_list {e : Expr} {g : Filling} {w w₁ w₂ : World} {u cdr : Value}
      {place : Option Location} (first : eval e w = .ok u w₁) (rest : Yields g w₁ (.ok cdr w₂))
      (no_list : u.listItems? = none) : Yields (.splice e g) w
        (.error ((Failure.runtime (.wrongType "list" u.shown)).located place) w₂)
  | vector {f : Filling} {w w₁ : World} {v : Value} {vs : List Value} {id next : Nat}
      (items : Yields f w (.ok v w₁)) (list : v.listItems? = some vs) :
      Yields (.vector f) w (.ok (.vector id vs) { w₁ with nextObject := next })
  | vector_fails {f : Filling} {w w₁ : World} {x : Failure} (items : Yields f w (.error x w₁)) :
      Yields (.vector f) w (.error x w₁)
  | vector_no_list {f : Filling} {w w₁ : World} {v : Value} {place : Option Location}
      (items : Yields f w (.ok v w₁)) (no_list : v.listItems? = none) : Yields (.vector f) w
        (.error ((Failure.runtime (.wrongType "list" v.shown)).located place) w₁)

end

variable {eval : Expr → Evaluating Value}

mutual

/-- A datum gives itself, and nothing is evaluated. -/
theorem yields_ofDatum {w : World} {v : Value} {d : Datum} (h : v.Shows d) :
    (ofDatum d).Yields eval w (.ok v w) := by
  cases d with
  | atom a =>
    obtain rfl := Value.shows_atom.mp h
    exact .atom
  | pair a b =>
    obtain ⟨id, car, cdr, rfl, hcar, hcdr⟩ := Value.shows_pair.mp h
    exact .pair (yields_ofDatum hcar) (yields_ofDatum hcdr)
  | vector ds =>
    obtain ⟨id, items, rfl, hitems⟩ := Value.shows_vector.mp h
    exact .vector (yields_ofData hitems 0) (Value.listItems?_listFrom 0 items)

theorem yields_ofData {w : World} {vs : List Value} {ds : List Datum} (h : Value.AllShow vs ds)
    (id : Nat) : (ofData ds).Yields eval w (.ok (.listFrom id .nil vs) w) := by
  cases ds with
  | nil =>
    obtain rfl := Value.allShow_nil.mp h
    exact .atom
  | cons d ds =>
    obtain ⟨u, us, rfl, hu, hus⟩ := Value.allShow_cons.mp h
    exact .pair (yields_ofDatum hu) (yields_ofData hus (id + 1))

end

end Filling

theorem Native.call_append (host : Host) (u v : Value) :
    Native.call host (.standard .append) [u, v] = (do
      let us ← (liftM u.toListItems : Allocating (List Value))
      Allocating.listWithTail us v) := by
  change StandardNative.appendLists [u, v] = _
  simp [StandardNative.appendLists]

theorem Native.call_listToVector (host : Host) (u : Value) :
    Native.call host (.standard .listToVector) [u] = (do
      Allocating.vector (← (liftM u.toListItems : Allocating (List Value)))) := rfl

namespace Evaluating

variable {call : Value → List Value → Evaluating Value} {here : Nat} {scope : Scope}
  {w w₁ w₂ : World}

theorem values_two_of_ok {a b : Expr} {u v : Value}
    (ha : evaluate call here scope true a w = .ok u w₁)
    (hb : evaluate call here scope true b w₁ = .ok v w₂) :
    values call here scope [a, b] w = .ok [u, v] w₂ := by
  rw [values, bind_of_ok ha, values, bind_assoc, bind_of_ok hb]
  rfl

theorem values_two_of_error {a b : Expr} {u : Value} {x : Failure}
    (ha : evaluate call here scope true a w = .ok u w₁)
    (hb : evaluate call here scope true b w₁ = .error x w₂) :
    values call here scope [a, b] w = .error x w₂ := by
  rw [values, bind_of_ok ha, values, bind_assoc, bind_of_error hb]

theorem values_cons_of_error {a : Expr} {es : List Expr} {x : Failure}
    (ha : evaluate call here scope true a w = .error x w₁) :
    values call here scope (a :: es) w = .error x w₁ := by
  rw [values, bind_of_error ha]

theorem values_one_of_ok {a : Expr} {u : Value}
    (ha : evaluate call here scope true a w = .ok u w₁) :
    values call here scope [a] w = .ok [u] w₁ := by
  rw [values, bind_of_ok ha]
  rfl

theorem evaluate_global {slot : Nat} {name : String} {place : Option Location} {v : Value}
    (hs : scope.bindings[slot]? = some ⟨name, .variable .global⟩) (hv : w.globals name = some v) :
    evaluate call here scope true (.reference (.global slot) place) w = .ok v w := by
  have hplace : Evaluating.place here scope (.global slot) = pure (.global name) := by
    rw [Evaluating.place, hs]
  rw [evaluate]
  change (Evaluating.place here scope (.global slot) >>= _) w = _
  rw [hplace, pure_bind, read]
  change EStateM.Result.ok ((w.globals name).getD .nil) w = _
  rw [hv]
  rfl

/-- A call of a native that a global holds. -/
theorem evaluate_callGlobal {m : Machine} {run : Closure → List Value → Evaluating Value}
    {slot : Nat} {name : String} {place location : Option Location} {n : Native} {es : List Expr}
    (hs : scope.bindings[slot]? = some ⟨name, .variable .global⟩)
    (hn : w.globals name = some (.native n)) :
    evaluate (m.evaluateWith run) here scope true
        (.call (.reference (.global slot) place) es location) w =
      (values (m.evaluateWith run) here scope es >>= fun vs =>
        located location (allocating (n.call m.host vs))) w := by
  rw [evaluate, bind_of_ok (evaluate_global hs hn)]
  rfl

theorem located_of_ok {α : Type} {act : Evaluating α} {a : α} (h : act w = .ok a w₁)
    (location : Option Location) : located location act w = .ok a w₁ :=
  tryCatch_of_ok h

theorem located_of_error {α : Type} {act : Evaluating α} {x : Failure} (h : act w = .error x w₁)
    (location : Option Location) :
    located location act w = .error (x.located location) w₁ :=
  tryCatch_of_error h

theorem append_of_list {host : Host} {u v : Value} {us : List Value} (hu : u.listItems? = some us)
    (w : World) : allocating (Native.call host (.standard .append) [u, v]) w =
      .ok (.listFrom w.nextObject v us) { w with nextObject := w.nextObject + us.length } := by
  rw [Native.call_append, Value.toListItems, hu]
  rfl

theorem append_of_no_list {host : Host} {u v : Value} (hu : u.listItems? = none) (w : World) :
    allocating (Native.call host (.standard .append) [u, v]) w =
      .error (.runtime (.wrongType "list" u.shown)) w := by
  rw [Native.call_append, Value.toListItems, hu]
  rfl

theorem listToVector_of_list {host : Host} {u : Value} {us : List Value}
    (hu : u.listItems? = some us) (w : World) :
    allocating (Native.call host (.standard .listToVector) [u]) w =
      .ok (.vector w.nextObject us) { w with nextObject := w.nextObject + 1 } := by
  rw [Native.call_listToVector, Value.toListItems, hu]
  rfl

theorem listToVector_of_no_list {host : Host} {u : Value} (hu : u.listItems? = none) (w : World) :
    allocating (Native.call host (.standard .listToVector) [u]) w =
      .error (.runtime (.wrongType "list" u.shown)) w := by
  rw [Native.call_listToVector, Value.toListItems, hu]
  rfl

/-- A new pair of two values. -/
theorem evaluate_cons {a b : Expr} {location : Option Location} :
    evaluate call here scope true (.operation .cons [a, b] location) =
      values call here scope [a, b] >>= fun vs => located location (operate .cons vs) := by
  rw [evaluate]
  · simp
  · simp

/-- What is evaluated leaves the procedures that templates call where they are. -/
def KeepsTemplateProcedures (act : Evaluating Value) : Prop :=
  ∀ w : World, w.HasTemplateProcedures → ∀ v w', act w = .ok v w' → w'.HasTemplateProcedures

end Evaluating

namespace Filling

/-- Evaluating the expression that builds a filling gives what the filling does. -/
theorem Built.yields {f : Filling} {e : Expr} {scopes : List Scope} (hf : f.Built scopes e)
    {scope : Scope} (hs : scopes.head? = some scope) {m : Machine}
    {run : Closure → List Value → Evaluating Value} {here : Nat}
    (hk : ∀ x ∈ f.expressions,
      KeepsTemplateProcedures (evaluate (m.evaluateWith run) here scope true x)) {w : World}
    (hw : w.HasTemplateProcedures) :
    f.Yields (evaluate (m.evaluateWith run) here scope true) w
        (evaluate (m.evaluateWith run) here scope true e w) ∧
      ∀ v w', evaluate (m.evaluateWith run) here scope true e w = .ok v w' →
        w'.HasTemplateProcedures := by
  induction hf generalizing w with
  | @constant q location =>
    have hq : evaluate (m.evaluateWith run) here scope true (.literal q location) w =
        .ok (.ofQuotation q) w := by
      rw [evaluate]
      rfl
    rw [hq]
    refine ⟨yields_ofDatum (Value.shows_ofDatum q.first q.datum), fun v w' h => ?_⟩
    cases h
    exact hw
  | @value x => exact ⟨.value, fun v w' => hk x (List.mem_singleton_self x) w hw v w'⟩
  | @pair f g a d location _ _ ihf ihg =>
    obtain ⟨hfy, hfk⟩ := ihf (fun x hx => hk x (List.mem_append_left _ hx)) hw
    rw [evaluate_cons]
    cases ha : evaluate (m.evaluateWith run) here scope true a w with
    | error x w₁ =>
      rw [bind_of_error (values_cons_of_error ha)]
      exact ⟨.car_fails (ha ▸ hfy), nofun⟩
    | ok u w₁ =>
      obtain ⟨hgy, hgk⟩ := ihg (fun x hx => hk x (List.mem_append_right _ hx)) (hfk u w₁ ha)
      cases hd : evaluate (m.evaluateWith run) here scope true d w₁ with
      | error x w₂ =>
        rw [bind_of_error (values_two_of_error ha hd)]
        exact ⟨.cdr_fails (ha ▸ hfy) (hd ▸ hgy), nofun⟩
      | ok v w₂ =>
        rw [bind_of_ok (values_two_of_ok ha hd)]
        have hcons : located location (operate .cons [u, v]) w₂ =
            .ok (.pair w₂.nextObject u v) { w₂ with nextObject := w₂.nextObject + 1 } :=
          located_of_ok rfl location
        rw [hcons]
        refine ⟨.pair (ha ▸ hfy) (hd ▸ hgy), fun _ w' h => ?_⟩
        cases h
        exact (hgk v w₂ hd).withNext _
  | @splice g x d slot place location names _ ihg =>
    obtain ⟨_, hhead, hslot⟩ := names
    cases hs.symm.trans hhead
    rw [evaluate_callGlobal hslot hw.append]
    cases hx : evaluate (m.evaluateWith run) here scope true x w with
    | error e w₁ =>
      rw [bind_of_error (values_cons_of_error hx)]
      exact ⟨.splice_fails hx, nofun⟩
    | ok u w₁ =>
      have hw₁ := hk x List.mem_cons_self w hw u w₁ hx
      obtain ⟨hgy, hgk⟩ := ihg (fun y hy => hk y (List.mem_cons_of_mem x hy)) hw₁
      cases hd : evaluate (m.evaluateWith run) here scope true d w₁ with
      | error e w₂ =>
        rw [bind_of_error (values_two_of_error hx hd)]
        exact ⟨.splice_cdr_fails hx (hd ▸ hgy), nofun⟩
      | ok v w₂ =>
        rw [bind_of_ok (values_two_of_ok hx hd)]
        cases hu : u.listItems? with
        | none =>
          rw [located_of_error (append_of_no_list hu w₂)]
          exact ⟨.splice_no_list hx (hd ▸ hgy) hu, nofun⟩
        | some us =>
          rw [located_of_ok (append_of_list hu w₂)]
          refine ⟨.splice hx (hd ▸ hgy) hu, fun _ w' h => ?_⟩
          cases h
          exact (hgk v w₂ hd).withNext _
  | @vector f list slot place location names _ ihf =>
    obtain ⟨_, hhead, hslot⟩ := names
    cases hs.symm.trans hhead
    rw [evaluate_callGlobal hslot hw.listToVector]
    obtain ⟨hfy, hfk⟩ := ihf hk hw
    cases hl : evaluate (m.evaluateWith run) here scope true list w with
    | error e w₁ =>
      rw [bind_of_error (values_cons_of_error hl)]
      exact ⟨.vector_fails (hl ▸ hfy), nofun⟩
    | ok u w₁ =>
      rw [bind_of_ok (values_one_of_ok hl)]
      cases hu : u.listItems? with
      | none =>
        rw [located_of_error (listToVector_of_no_list hu w₁)]
        exact ⟨.vector_no_list (hl ▸ hfy) hu, nofun⟩
      | some us =>
        rw [located_of_ok (listToVector_of_list hu w₁)]
        refine ⟨.vector (hl ▸ hfy) hu, fun _ w' h => ?_⟩
        cases h
        exact (hfk u w₁ hl).withNext _

end Filling

namespace Resolving

open ScopeChain

variable {expand : Expand} {F : Failure → Prop} {R : Sexpr → Expr → Prop} {c : ScopeChain}

theorem primitive?_of_levelMark? {name : String} {place : Option Location}
    (h : levelMark? c (.identifier name place) = some .quasiquote) :
    c.primitive? name = some (.form .quasiquote) := by
  unfold levelMark? at h
  dsimp only at h
  split at h
  · assumption
  · cases h
  · cases h
  · cases h

/-- A template in a quasiquotation is filled as a datum, once its expressions are resolved to what
they mean. Evaluation gives what the filling does, in every later scope and in every world where
the expressions leave the procedures that templates call alone. -/
theorem quasiquote_yields (hc : c.Sound) (hu : c.Unshadowed) {template : Sexpr}
    (hp : template.Plain (ResolvesTo expand c F R) 1) (place location : Option Location) :
    Keeps Extends (Unfilled F R 1 template) c
      (expandWith expand (.list [.identifier "quasiquote" place, template] location))
      fun e d => ∃ f, Fills R 1 template f ∧ ∀ scope outer, ScopesGrow d.scopes (scope :: outer) →
        ∀ (m : Machine) (run : Closure → List Value → Evaluating Value) (here : Nat) (w : World),
          w.HasTemplateProcedures →
          (∀ x ∈ f.expressions,
            KeepsTemplateProcedures (evaluate (m.evaluateWith run) here scope true x)) →
          f.Yields (evaluate (m.evaluateWith run) here scope true) w
            (evaluate (m.evaluateWith run) here scope true e w) := by
  have hexpand : expandWith expand (.list [.identifier "quasiquote" place, template] location) c =
      quasi expand template 1 c :=
    expandWith_form (primitive?_of_levelMark? (hu.marks (.identifier "quasiquote" place))) _ _ _
  have h := quasi_fills hc (.refl c) hu template 1 Nat.one_pos hp
  refine .congr hexpand (h.mono fun e d _ he => ?_)
  obtain ⟨-, f, hf, hb⟩ := he
  exact ⟨f, hf, fun scope outer hs m run here w hw hk => ((hb _ hs).yields rfl hk hw).1⟩

/-- The template behind `(quasiquote (a #((unquote 5)) (unquote-splicing ()) . (unquote 5)))`. -/
def mixedTemplate : Sexpr :=
  let form (keyword : String) (s : Sexpr) : Sexpr := .list [.identifier keyword none, s] none
  let five : Sexpr := .literal (.integer 5) none
  .list [.identifier "a" none, .vector [form "unquote" five] none,
    form "unquote-splicing" (.list [] none), .identifier "unquote" none, five] none

/-- The innermost scope is that of the program, and empty. -/
def programChain : ScopeChain := ⟨.standard, [.empty], 0⟩

theorem programChain_sound : programChain.Sound :=
  ⟨List.cons_ne_nil _ _, Scope.inside_empty _, trivial⟩

theorem programChain_unshadowed : programChain.Unshadowed := by
  refine .of_standard programChain_sound rfl (fun s hs b hb => ?_) fun s hs b hb => ?_
  · rw [List.mem_singleton.mp hs] at hb
    cases hb
  · cases hs
    cases hb

/-- What is quoted as it stands. -/
def Quotes (s : Sexpr) (e : Expr) : Prop := ∃ first, e = .literal ⟨first, s.toDatum⟩ s.location

theorem resolvesTo_quotes {s : Sexpr} {b : ScopeChain}
    (h : ∀ c : ScopeChain, expand s c = literal s.toDatum s c) :
    ResolvesTo expand b (fun _ => False) Quotes s := by
  refine fun c _ hu => .congr (h c) (.answers rfl ?_ ⟨⟨hu.marks, hu.procedures⟩, c.nextObject, rfl⟩)
  exact ⟨rfl, ScopesExtend.refl _, fun hc => ⟨hc.ne_nil, hc.valid⟩⟩

/-- Only the procedures that templates call are globals. -/
def templateWorld : World where
  environments := #[]
  globals name :=
    if name = "append" then some (.native (.standard .append))
    else if name = "list->vector" then some (.native (.standard .listToVector))
    else none
  procedures := #[]
  nextObject := 0

theorem quasiquote_yields_mixedTemplate :
    programChain.Sound ∧ programChain.Unshadowed ∧
    mixedTemplate.Plain (ResolvesTo Resolving.expand programChain (fun _ => False) Quotes) 1 ∧
    ∃ e d f scope, expandWith Resolving.expand
        (.list [.identifier "quasiquote" none, mixedTemplate] none) programChain = .ok e d ∧
      d.scopes = [scope] ∧ Fills Quotes 1 mixedTemplate f ∧
      ∀ (m : Machine) (run : Closure → List Value → Evaluating Value),
        f.Yields (evaluate (m.evaluateWith run) 0 scope true) templateWorld
          (evaluate (m.evaluateWith run) 0 scope true e templateWorld) := by
  have hfive : ResolvesTo Resolving.expand programChain (fun _ => False) Quotes
      (.literal (.integer 5) none) := resolvesTo_quotes fun _ => rfl
  have hnil : ResolvesTo Resolving.expand programChain (fun _ => False) Quotes (.list [] none) :=
    resolvesTo_quotes fun _ => rfl
  have hplain : mixedTemplate.Plain
      (ResolvesTo Resolving.expand programChain (fun _ => False) Quotes) 1 :=
    ⟨trivial, ⟨⟨hfive, trivial⟩, fun _ => rfl⟩, hnil, rfl, rfl, hfive⟩
  have hfills : Fills Quotes 1 mixedTemplate _ :=
    .pair rfl rfl .identifier (.pair rfl rfl
      (.vector (.pair rfl rfl (.unquote rfl ⟨0, rfl⟩) .nil))
      (.splice rfl rfl rfl ⟨0, rfl⟩ (.unquote rfl ⟨0, rfl⟩)))
  have h := quasiquote_yields programChain_sound programChain_unshadowed hplain none none
  refine ⟨programChain_sound, programChain_unshadowed, hplain, ?_⟩
  cases he : expandWith Resolving.expand
      (.list [.identifier "quasiquote" none, mixedTemplate] none) programChain with
  | ok e d =>
    obtain ⟨hd, f, hf, hy⟩ := h.of_ok he
    obtain ⟨scope, outer, -, houter, hs⟩ := List.forall₂_cons_left_iff.mp hd.scopes
    obtain rfl := List.forall₂_nil_left_iff.mp houter
    refine ⟨e, d, f, scope, rfl, hs, hf, fun m run => ?_⟩
    refine hy scope [] (hs ▸ .refl _) m run 0 templateWorld ⟨rfl, rfl⟩ fun x hx => ?_
    obtain ⟨s, first, rfl⟩ := hf.resolved x hx
    intro w hw v w' hv
    rw [evaluate] at hv
    cases hv
    exact hw
  | error x d =>
    obtain hx | hx := (h.of_error he).2
    · exact hx.elim
    · exact absurd hfills (hx.2 _)

/-- The template behind `(quasiquote (quasiquote (a . (unquote (b (unquote x))))))`, as it is
read. -/
def nestedTail : Sexpr :=
  let form (keyword : String) (s : Sexpr) : Sexpr := .list [.identifier keyword none, s] none
  form "quasiquote" (.list [.identifier "a" none, .identifier "unquote" none,
    .list [.identifier "b" none, form "unquote" (.identifier "x" none)] none] none)

/-- Behind a dot an unquotation does not lower the level of an inner template: everything is quoted,
though as a datum the template has a variable to evaluate. -/
theorem quasi_nestedTail :
    (∃ d, quasi Resolving.expand nestedTail 1 programChain =
      .ok (.literal ⟨0, nestedTail.toDatum⟩ none) d) ∧
    ∃ f, Fills (fun s e => ∃ d, Resolving.expand s programChain = .ok e d) 1 nestedTail f ∧
      f.expressions = [.reference (.global 0) none] := by
  have hx : ∃ d, Resolving.expand (.identifier "x" none) programChain =
      .ok (.reference (.global 0) none) d := ⟨_, rfl⟩
  exact ⟨⟨_, rfl⟩, _, .raise rfl (.pair rfl rfl .identifier (.lower rfl nofun
    (.pair rfl rfl .identifier (.pair rfl rfl (.unquote rfl hx) .nil)))), rfl⟩

end Resolving

end RegisterScheme
