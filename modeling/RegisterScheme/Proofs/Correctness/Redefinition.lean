import RegisterScheme.Proofs.Expr.Walk
import RegisterScheme.Session

/-! What a text does to the primitives of its session: all that its definitions name are gone if it
compiles, and nothing changes if it does not. Where no scope binds such a name any more, later texts
mean a global by it. -/

namespace RegisterScheme

open ScopeChain Resolving

namespace Primitives

theorem find?_erase (p : Primitives) (name n : String) :
    (p.erase name).find? n = if n = name then Option.none else p.find? n := by
  obtain ⟨entries⟩ := p
  simp only [find?, erase]
  induction entries with
  | nil => simp
  | cons entry entries ih =>
    obtain ⟨key, primitive⟩ := entry
    by_cases hkey : key = name
    · have hfilter : (((key, primitive) :: entries).filter fun e => e.1 != name) =
          entries.filter fun e => e.1 != name := by simp [hkey]
      rw [hfilter, ih, List.lookup_cons]
      by_cases hn : n = name
      · rw [if_pos hn, if_pos hn]
      · have hother : (n == key) = false := by simp [hkey, hn]
        rw [if_neg hn, if_neg hn, hother]
    · have hfilter : (((key, primitive) :: entries).filter fun e => e.1 != name) =
          (key, primitive) :: entries.filter fun e => e.1 != name := by simp [hkey]
      rw [hfilter, List.lookup_cons, List.lookup_cons, ih]
      by_cases hn : n = key
      · have hsame : (n == key) = true := by simp [hn]
        have hne : n ≠ name := by rwa [hn]
        simp only [hsame, if_neg hne]
      · have hother : (n == key) = false := by simp [hn]
        rw [hother]

theorem find?_foldl_erase (names : List String) (p : Primitives) (n : String) :
    (names.foldl erase p).find? n = if n ∈ names then Option.none else p.find? n := by
  induction names generalizing p with
  | nil => simp
  | cons name names ih =>
    rw [List.foldl_cons, ih, find?_erase]
    by_cases hname : n = name <;> simp [hname]

end Primitives

/-- No scope of the chain binds the name, unless as a global. -/
def ScopeChain.Free (c : ScopeChain) (name : String) : Prop :=
  ∀ s ∈ c.scopes, ∀ b ∈ s.bindings, b.name = name → b.kind = .variable .global

namespace ScopeChain.Free

variable {c : ScopeChain} {name : String}

theorem findIn_eq_some (h : c.Free name) {distance slot : Nat} {b : Binding}
    (hf : findIn name c.scopes = some (distance, slot, b)) : b = ⟨name, .variable .global⟩ := by
  obtain ⟨rfl, ⟨s, hs, hb⟩, -⟩ := ScopeChain.findIn_eq_some hf
  have hkind := h s (List.mem_of_getElem? hs) b (List.mem_of_getElem? hb) rfl
  cases b
  exact congrArg _ hkind

theorem primitive?_eq_none (h : c.Free name) (hp : c.primitives.find? name = none) :
    c.primitive? name = none := by
  unfold primitive?
  split
  · rename_i hf
    cases h.findIn_eq_some hf
  · rfl
  · exact hp

theorem bindGlobal (h : c.Free name) (hne : c.scopes ≠ []) :
    ∃ slot d, Resolving.bindGlobal name c = .ok slot d := by
  obtain ⟨s, outer, hs⟩ := List.exists_cons_of_ne_nil hne
  have hcurrent : current c = .ok s c := by
    rw [current, bind_of_ok (x := get) (s := c) rfl, hs]
    rfl
  rw [Resolving.bindGlobal, bind_of_ok hcurrent]
  cases hf : s.find? name with
  | none =>
    have hdefine := Scope.define_of_not_binds (.variable .global) none (Scope.find?_eq_none.mp hf)
    exact ⟨_, _, by dsimp only; rw [update_eq hs, hdefine]⟩
  | some found =>
    obtain ⟨slot, b⟩ := found
    obtain ⟨hb, hname⟩ := Scope.find?_eq_some hf
    have hkind := h s (by rw [hs]; exact List.mem_cons_self) b (List.mem_of_getElem? hb) hname
    obtain ⟨n, kind⟩ := b
    obtain rfl : kind = .variable .global := hkind
    exact ⟨slot, c, rfl⟩

/-- A name without any other meaning is a global. -/
theorem variableRef (h : c.Free name) (hne : c.scopes ≠ [])
    (hp : c.primitives.find? name = none) (s : Sexpr) :
    ∃ slot d, Resolving.variableRef name s c = .ok (.global slot) d := by
  obtain ⟨slot, d, hbind⟩ := h.bindGlobal hne
  have hget : (get : Resolving ScopeChain) c = .ok c c := rfl
  have hglobal := bind_of_ok (f := fun slot => pure (Resolution.global slot)) hbind
  obtain ⟨slot, d, hresolve⟩ : ∃ slot d, resolve name c = .ok (.global slot) d := by
    rw [resolve, bind_of_ok hget]
    cases hf : findIn name c.scopes with
    | none =>
      dsimp only
      rw [if_neg (by simp [hne]), hp]
      exact ⟨slot, d, hglobal⟩
    | some found =>
      obtain ⟨distance, slot', b⟩ := found
      obtain rfl := h.findIn_eq_some hf
      cases distance with
      | zero => exact ⟨slot', c, rfl⟩
      | succ distance => exact ⟨slot, d, hglobal⟩
  refine ⟨slot, d, ?_⟩
  rw [Resolving.variableRef, located, bind_of_ok (tryCatch_of_ok hresolve)]
  rfl

theorem expand_identifier (h : c.Free name) (hne : c.scopes ≠ [])
    (hp : c.primitives.find? name = none) (location : Option Location) :
    ∃ slot d, expand (.identifier name location) c = .ok (.reference (.global slot) location) d := by
  obtain ⟨slot, d, href⟩ := h.variableRef hne hp (.identifier name location)
  have hbind := bind_of_ok (f := fun v => pure (Expr.reference v location)) href
  exact ⟨slot, d, hbind⟩

theorem expand_call (h : c.Free name) (hne : c.scopes ≠ [])
    (hp : c.primitives.find? name = none) {operands : List Sexpr}
    {location place : Option Location} {e : Expr} {d : ScopeChain}
    (hexpand : expand (.list (.identifier name location :: operands) place) c = .ok e d) :
    ∃ slot args, e = .call (.reference (.global slot) location) args place := by
  have hprimitive : Resolving.primitive? name c = .ok none c := by
    rw [← h.primitive?_eq_none hp]
    rfl
  have hmap : ((·.map fun p => (name, p)) <$> Resolving.primitive? name :
      Resolving (Option (String × Primitive))) c = .ok none c := by
    rw [map_eq_pure_bind, bind_of_ok hprimitive]
    rfl
  obtain ⟨n, hn⟩ : ∃ n, Sexpr.heightOfItems (.identifier name location :: operands) = n + 1 := by
    simp only [Sexpr.heightOfItems, Sexpr.height]
    exact ⟨_, (Nat.sub_add_cancel (by omega)).symm⟩
  obtain ⟨slot, d', hhead⟩ := h.expand_identifier hne hp location
  have hcallee : expandWithin (n + 1) (.identifier name location) c =
      .ok (.reference (.global slot) location) d' := hhead
  have hcompound : expand (.list (.identifier name location :: operands) place) c =
      (do
        let args ← operands.mapM (expandWithin (n + 1))
        return Expr.call (.reference (.global slot) location) args place) d' := by
    rw [expand, Sexpr.height, hn, expandWithin, expandWith, compound]
    dsimp only [Sexpr.identifier?]
    rw [bind_of_ok hmap]
    dsimp only
    rw [bind_of_ok hcallee]
    rfl
  rw [hcompound] at hexpand
  obtain ⟨args, d'', -, hcall⟩ := answers_of_bind hexpand
  cases hcall
  exact ⟨slot, args, rfl⟩

end ScopeChain.Free

namespace Session

/-- A session after another, whatever came between them. -/
inductive Later (s : Session) : Session → Prop
  | now : Later s s
  | compile {t : Session} (before : Later s t) (origin text : String) :
      Later s (t.compile origin text).2
  | execute {t : Session} (before : Later s t) (template : Template) :
      Later s (t.execute template).2
  | apply {t : Session} (before : Later s t) (callee : Value) (args : List Value) :
      Later s (t.apply callee args).2
  | withGlobals {t : Session} (before : Later s t) (g : Globals) : Later s (t.withGlobals g)

theorem run_primitives {α : Type} (s : Session) (act : Running α) :
    (s.run act).2.primitives = s.primitives := by
  unfold run
  split <;> rfl

theorem compile_find?_eq_none {s : Session} {name : String} (h : s.primitives.find? name = none)
    (origin text : String) : (s.compile origin text).2.primitives.find? name = none := by
  unfold compile
  split
  · rename_i p _
    rw [Primitives.find?_foldl_erase, h, ite_self]
  · exact h

/-- What is no primitive will be none. -/
theorem Later.find?_eq_none {s t : Session} (h : s.Later t) {name : String}
    (hname : s.primitives.find? name = none) : t.primitives.find? name = none := by
  induction h with
  | now => exact hname
  | compile _ origin text ih => exact compile_find?_eq_none ih origin text
  | execute _ _ ih => rwa [Session.execute, run_primitives]
  | apply _ _ _ ih => rwa [Session.apply, run_primitives]
  | withGlobals _ _ ih => exact ih

/-- The primitives that a program shadows are those that its outline defines. -/
theorem shadowed_of_ok {options : ReadOptions} {primitives : Primitives} {first : Nat}
    {origin text : String} {p : Program}
    (h : Program.ofText options primitives first origin text = .ok p) :
    ∃ forms, Sexpr.ofText options origin text = .ok forms ∧ ∀ name, name ∈ p.shadowed ↔
      name ∈ (Outline.ofProgram primitives forms).defined ∧ (primitives.find? name).isSome := by
  obtain ⟨⟨f, next⟩, hf, h⟩ := ok_of_bind h
  obtain ⟨template, -, h⟩ := ok_of_bind h
  obtain ⟨forms, hforms, hf⟩ := ok_of_bind hf
  cases h
  unfold Function.ofProgram at hf
  split at hf
  · rename_i hprogram
    cases hf
    exact ⟨forms, hforms, Follows.program hprogram⟩
  · cases hf

/-- What was the form of a procedure is a call after its redefinition, and hides no definition. -/
example : (Outline.ofProgram .standard [
    .list [.identifier "define" none, .identifier "lambda" none] none,
    .list [.identifier "lambda" none, .list [] none,
      .list [.identifier "define" none, .identifier "car" none] none] none]).defined =
    ["lambda", "car"] := by
  decide

/-- A text that compiles leaves everything but the primitives that its definitions name, outside of
procedures. A text that does not leaves everything. -/
theorem compile_redefines (s : Session) (origin text : String) :
    match s.compile origin text with
    | (.error _, t) => t = s
    | (.ok _, t) =>
      (∃ next, t = { s with
        primitives := t.primitives, store := { s.store with nextObject := next } }) ∧
      ∃ forms, Sexpr.ofText s.options origin text = .ok forms ∧
        let defined := (Outline.ofProgram s.primitives forms).defined
        (∀ name, t.primitives.find? name =
          if name ∈ defined then none else s.primitives.find? name) ∧
        (∀ name ∉ defined, ∀ scopes next,
          ScopeChain.primitive? ⟨t.primitives, scopes, next⟩ name =
            ScopeChain.primitive? ⟨s.primitives, scopes, next⟩ name) ∧
        ∀ name ∈ defined, ∀ u, t.Later u → ∀ c : ScopeChain, c.primitives = u.primitives →
          c.scopes ≠ [] → c.Free name →
          (∀ location, ∃ slot d, expand (.identifier name location) c =
            .ok (.reference (.global slot) location) d) ∧
          ∀ operands location place e d,
            expand (.list (.identifier name location :: operands) place) c = .ok e d →
              ∃ slot args, e = .call (.reference (.global slot) location) args place := by
  unfold compile
  cases hp : Program.ofText s.options s.primitives s.store.nextObject origin text with
  | error f => rfl
  | ok p =>
    obtain ⟨forms, hforms, hshadowed⟩ := shadowed_of_ok hp
    have hfind (name : String) : (p.shadowed.foldl Primitives.erase s.primitives).find? name =
        if name ∈ (Outline.ofProgram s.primitives forms).defined then none
        else s.primitives.find? name := by
      rw [Primitives.find?_foldl_erase]
      by_cases hname : name ∈ (Outline.ofProgram s.primitives forms).defined
      · rw [if_pos hname]
        cases hfound : s.primitives.find? name with
        | none => rw [ite_self]
        | some primitive => rw [if_pos ((hshadowed name).mpr ⟨hname, by rw [hfound]; rfl⟩)]
      · rw [if_neg hname, if_neg fun h => hname ((hshadowed name).mp h).1]
    refine ⟨⟨p.nextObject, rfl⟩, forms, hforms, hfind, fun name hname scopes next => ?_,
      fun name hname u hu c hc hne hfree => ?_⟩
    · have hsame := hfind name
      rw [if_neg hname] at hsame
      simp only [ScopeChain.primitive?, hsame]
    · have hgone := hfind name
      rw [if_pos hname] at hgone
      have hnone : c.primitives.find? name = none := hc ▸ hu.find?_eq_none hgone
      exact ⟨hfree.expand_identifier hne hnone, fun _ _ _ _ _ => hfree.expand_call hne hnone⟩

end Session

end RegisterScheme
