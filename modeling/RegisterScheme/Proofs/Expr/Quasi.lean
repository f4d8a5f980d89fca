import RegisterScheme.Proofs.Expr.Filling
import RegisterScheme.Proofs.Expr.Forms

/-! The expression for a template builds what the template is filled to as data, whatever is nested
in it, as long as no form that changes the level stands behind a dot. -/

namespace RegisterScheme

open ScopeChain

/-- The keywords and the procedures that templates call have their meaning in the innermost
scope. -/
structure ScopeChain.Unshadowed (c : ScopeChain) : Prop where
  marks : ∀ s, Resolving.levelMark? c s = s.levelMark?
  procedures : ∀ s ∈ c.scopes.head?, ∀ b ∈ s.bindings, b.name ∈ Scope.templateProcedures →
    b.kind = .variable .global

/-- An expression that builds a filled template. The procedures that it calls are globals. -/
inductive Filling.Built (scopes : List Scope) : Filling → Expr → Prop
  | constant {q : Quotation} {location : Option Location} :
      Filling.Built scopes (.ofDatum q.datum) (.literal q location)
  | value {e : Expr} : Filling.Built scopes (.value e) e
  | pair {f g : Filling} {car cdr : Expr} {location : Option Location}
      (car_built : Filling.Built scopes f car) (cdr_built : Filling.Built scopes g cdr) :
      Filling.Built scopes (.pair f g) (.operation .cons [car, cdr] location)
  | splice {g : Filling} {e cdr : Expr} {slot : Nat} {place location : Option Location}
      (names : (VariableRef.global slot).Names "append" scopes)
      (cdr_built : Filling.Built scopes g cdr) : Filling.Built scopes (.splice e g)
        (.call (.reference (.global slot) place) [e, cdr] location)
  | vector {f : Filling} {list : Expr} {slot : Nat} {place location : Option Location}
      (names : (VariableRef.global slot).Names "list->vector" scopes)
      (items_built : Filling.Built scopes f list) : Filling.Built scopes (.vector f)
        (.call (.reference (.global slot) place) [list] location)

namespace ScopeChain

variable {c : ScopeChain} {s : Scope} {outer : List Scope} {name : String}

theorem Sound.primitive?_eq (hc : c.Sound) (name : String) :
    c.primitive? name = none ∧ (∃ s ∈ c.scopes, ∃ b ∈ s.bindings, b.name = name) ∨
      c.primitive? name = c.primitives.find? name := by
  unfold primitive?
  cases hf : findIn name c.scopes with
  | none => exact .inr rfl
  | some found =>
    obtain ⟨distance, slot, ⟨n, kind⟩⟩ := found
    obtain ⟨rfl, ⟨s, hs, hb⟩, -⟩ := findIn_eq_some hf
    have hmem := List.mem_of_getElem? hb
    obtain ⟨outer, -, hin, -⟩ := hc.inside_at hs
    obtain ⟨kind, rfl⟩ := hin.valid.kinds _ hmem
    exact .inl ⟨rfl, s, List.mem_of_getElem? hs, _, hmem, rfl⟩

/-- Only the keywords that change the level stand for forms that do. -/
theorem levelMark?_of_standard (name : String) (location : Option Location) :
    (match Primitives.standard.find? name with
      | some (.form .quasiquote) => some QuoteMark.quasiquote
      | some (.form .unquote) => some .unquote
      | some (.form .unquoteSplicing) => some .unquoteSplicing
      | _ => none) = (Sexpr.identifier name location).levelMark? := by
  by_cases hq : name = "quasiquote"
  · subst hq
    rfl
  by_cases hu : name = "unquote"
  · subst hu
    rfl
  by_cases hs : name = "unquote-splicing"
  · subst hs
    rfl
  have hnone : (Sexpr.identifier name location).levelMark? = none := by
    simp [Sexpr.levelMark?, QuoteMark.name, Ne.symm hq, Ne.symm hu, Ne.symm hs]
  have hstandard : Primitives.standard.entries.all (fun p =>
      p.2 != .form .quasiquote && p.2 != .form .unquote && p.2 != .form .unquoteSplicing ||
        (p.1 == "quasiquote" || p.1 == "unquote" || p.1 == "unquote-splicing")) = true := by
    decide
  rw [hnone]
  cases hf : Primitives.standard.find? name with
  | none => rfl
  | some p =>
    obtain ⟨l, l', hl, -⟩ := List.lookup_eq_some_iff.mp hf
    have hp := List.all_eq_true.mp hstandard (name, p) (by rw [hl]; simp)
    simp only [bne_iff_ne, beq_iff_eq, Bool.or_eq_true, Bool.and_eq_true, hq, hu, hs,
      or_false] at hp
    split
    · rename_i h
      exact absurd (Option.some.inj h) hp.1.1
    · rename_i h
      exact absurd (Option.some.inj h) hp.1.2
    · rename_i h
      exact absurd (Option.some.inj h) hp.2
    · rfl

/-- Standard primitives, none of whose keywords are bound. -/
theorem Unshadowed.of_standard (hc : c.Sound) (hp : c.primitives = .standard)
    (hm : ∀ s ∈ c.scopes, ∀ b ∈ s.bindings, (Sexpr.identifier b.name none).levelMark? = none)
    (hh : ∀ s ∈ c.scopes.head?, ∀ b ∈ s.bindings, b.name ∈ Scope.templateProcedures →
      b.kind = .variable .global) : c.Unshadowed where
  marks e := by
    cases e with
    | identifier name location =>
      rw [Resolving.levelMark?]
      obtain ⟨hnone, s, hs, b, hb, rfl⟩ | hstd := hc.primitive?_eq name
      · rw [hnone]
        exact (hm s hs b hb).symm
      · rw [hstd, hp]
        exact levelMark?_of_standard name location
    | _ => rfl
  procedures := hh

theorem primitive?_of_binds {slot : Nat} {b : Binding} (hs : c.scopes = s :: outer)
    (hb : s.find? name = some (slot, b)) (hk : b.kind = .variable .global) :
    c.primitive? name = none := by
  obtain ⟨n, kind⟩ := b
  obtain rfl : kind = .variable .global := hk
  rw [primitive?, hs, findIn, hb]

theorem primitive?_congr {t : Scope} (hs : c.scopes = s :: outer)
    (hst : t.find? name = s.find? name) :
    ScopeChain.primitive? { c with scopes := t :: outer } name = c.primitive? name := by
  rw [primitive?, primitive?, hs, findIn, findIn, hst]

/-- A new global takes no keyword its meaning. -/
theorem Unshadowed.addGlobal (h : c.Unshadowed) (hs : c.scopes = s :: outer)
    (hn : s.binds name = false) (ht : name ∈ Scope.templateProcedures) :
    Unshadowed { c with scopes := s.add ⟨name, .variable .global⟩ :: outer } where
  marks e := by
    cases e with
    | identifier n location =>
      by_cases hname : n = name
      · subst hname
        have hmark : (Sexpr.identifier n location).levelMark? = none := by
          obtain rfl | rfl : n = "append" ∨ n = "list->vector" := by
            simpa [Scope.templateProcedures] using ht
          · rfl
          · rfl
        rw [hmark, Resolving.levelMark?, primitive?_of_binds rfl (by
          rw [Scope.find?_add hn, if_pos rfl]) rfl]
      · rw [← h.marks, Resolving.levelMark?, Resolving.levelMark?,
          primitive?_congr hs (by rw [Scope.find?_add hn, if_neg hname])]
    | _ => rfl
  procedures t ht b hb hbn := by
    cases ht
    obtain hb | hb := List.mem_append.mp hb
    · exact h.procedures s (by rw [hs]; rfl) b hb hbn
    · rw [List.mem_singleton.mp hb]

end ScopeChain

namespace Resolving

variable {c : ScopeChain}

/-- A template names the procedure that it calls as a global. -/
theorem global_unshadowed (hc : c.Sound) (hu : c.Unshadowed) {name : String}
    (hn : name ∈ Scope.templateProcedures) (s : Sexpr) :
    ∃ slot d, global name s c = .ok (.global slot) d ∧ c.Extends d ∧ d.Unshadowed ∧
      (VariableRef.global slot).Names name d.scopes := by
  obtain ⟨slot, d, hbind, hd⟩ : ∃ slot d, bindGlobal name c = .ok slot d ∧ d.Unshadowed := by
    obtain ⟨t, outer, hs⟩ := hc.exists_head
    have hcurrent : current c = .ok t c := by
      rw [current, bind_of_ok (x := get) (s := c) rfl, hs]
      rfl
    rw [bindGlobal, bind_of_ok hcurrent]
    cases hf : t.find? name with
    | none =>
      have hb := Scope.find?_eq_none.mp hf
      refine ⟨t.bindings.length, _, ?_, hu.addGlobal hs hb hn⟩
      change update _ c = _
      rw [update_eq hs, Scope.define_of_not_binds _ _ hb]
    | some found =>
      obtain ⟨slot, b⟩ := found
      obtain ⟨hb, rfl⟩ := Scope.find?_eq_some hf
      have hk := hu.procedures t (by rw [hs]; rfl) b (List.mem_of_getElem? hb) hn
      obtain ⟨n, kind⟩ := b
      obtain rfl : kind = .variable .global := hk
      exact ⟨slot, c, rfl, hu⟩
  have hglobal : global name s c = .ok (.global slot) d := by
    rw [global]
    exact bind_of_ok (tryCatch_of_ok hbind)
  obtain ⟨hcd, hnames⟩ := (global_keeps hc s (.inl hn)).of_ok hglobal
  exact ⟨slot, d, hglobal, hcd, hd, hnames⟩

end Resolving

/-- A failure of an unquoted expression, or that of an item to splice where there is no list; the
template has no filling then. -/
def Unfilled (F : Failure → Prop) (R : Sexpr → Expr → Prop) (level : Nat) (template : Sexpr)
    (x : Failure) : Prop :=
  F x ∨ (∃ s : Sexpr, x = .malformed .splicingOutsideList (some s.text) s.location) ∧
    ∀ f, ¬ Fills R level template f

theorem Unfilled.mono {F : Failure → Prop} {R : Sexpr → Expr → Prop} {level level' : Nat}
    {part template : Sexpr} {x : Failure} (h : Unfilled F R level part x)
    (hpart : ∀ f, Fills R level' template f → ∃ g, Fills R level part g) :
    Unfilled F R level' template x :=
  h.imp_right fun hx => ⟨hx.1, fun f hf => (hpart f hf).elim hx.2⟩

/-- The expression builds a filling of the template, and the keywords keep their meaning. -/
def FilledBy (R : Sexpr → Expr → Prop) (level : Nat) (template : Sexpr) (e : Expr)
    (d : ScopeChain) : Prop :=
  d.Unshadowed ∧ ∃ f, Fills R level template f ∧ Lasting (fun scopes => f.Built scopes e) d

namespace Resolving

/-- An expression whose resolution from a chain on ends as said and leaves the keywords alone. -/
def ResolvesTo (expand : Expand) (b : ScopeChain) (F : Failure → Prop) (R : Sexpr → Expr → Prop)
    (s : Sexpr) : Prop :=
  ∀ c, b.Extends c → c.Unshadowed → Keeps Extends F c (expand s) fun e d => d.Unshadowed ∧ R s e

/-- What the resolution of a template amounts to. -/
abbrev FillsWith (F : Failure → Prop) (R : Sexpr → Expr → Prop) (c : ScopeChain) (level : Nat)
    (template : Sexpr) (act : Resolving Expr) : Prop :=
  Keeps Extends (Unfilled F R level template) c act (FilledBy R level template)

variable {expand : Expand} {F : Failure → Prop} {R : Sexpr → Expr → Prop} {b c : ScopeChain}

theorem literal_built (hu : c.Unshadowed) (d : Datum) (s : Sexpr) :
    Keeps Extends F c (literal d s) fun e k =>
      k.Unshadowed ∧ ∀ scopes, (Filling.ofDatum d).Built scopes e :=
  ⟨⟨rfl, ScopesExtend.refl _, fun hc => ⟨hc.ne_nil, hc.valid⟩⟩, ⟨hu.marks, hu.procedures⟩,
    fun _ => .constant (q := ⟨c.nextObject, d⟩)⟩

theorem literal_fills (hu : c.Unshadowed) {level : Nat} {template : Sexpr} {d : Datum}
    (h : Fills R level template (.ofDatum d)) (s : Sexpr) :
    FillsWith F R c level template (literal d s) :=
  (literal_built hu d s).mono fun _ _ _ he => ⟨he.1, _, h, fun scopes _ => he.2 scopes⟩

theorem callGlobal_fills (hc : c.Sound) (hu : c.Unshadowed) {name : String}
    (hn : name ∈ Scope.templateProcedures) {level : Nat} {template : Sexpr} {f : Filling}
    {es : List Expr} (s : Sexpr) (h : Fills R level template f)
    (hb : ∀ slot, Lasting (fun scopes => (VariableRef.global slot).Names name scopes →
      f.Built scopes (.call (.reference (.global slot) s.location) es s.location)) c) :
    FillsWith F R c level template (callGlobal name es s) := by
  obtain ⟨slot, d, hglobal, hcd, hd, hnames⟩ := global_unshadowed hc hu hn s
  refine .answers (bind_of_ok hglobal) hcd ⟨hd, f, h, fun scopes hs => ?_⟩
  exact hb slot scopes (hcd.scopes.grow.trans hs) (hnames.grow hs)

theorem spliced?_eq_some (hu : c.Unshadowed) {level : Nat} {item arg : Sexpr}
    (h : spliced? c level item = some arg) :
    level = 1 ∧ ∃ head, item.levelForm? = some (.unquoteSplicing, head, arg) := by
  unfold spliced? at h
  split at h
  · split at h
    · rename_i head _ _ hcond
      cases h
      rw [Bool.and_eq_true, beq_iff_eq, beq_iff_eq, hu.marks] at hcond
      exact ⟨hcond.1, head, Option.map_eq_some_iff.mpr ⟨_, hcond.2, rfl⟩⟩
    · cases h
  · cases h

theorem spliced?_of_form (hu : c.Unshadowed) {item head arg : Sexpr}
    (h : item.levelForm? = some (.unquoteSplicing, head, arg)) : spliced? c 1 item = some arg := by
  cases item with
  | list items location =>
    obtain ⟨rfl, hm⟩ := Sexpr.levelForm?_list h
    rw [spliced?, hu.marks, hm]
    rfl
  | _ => cases h

theorem levelMark?_eq (hu : c.Unshadowed) : levelMark? c = Sexpr.levelMark? := funext hu.marks

/-- One more item in front of a list that is built. -/
theorem item_fills (hb : b.Sound) (hbc : b.Extends c) {level : Nat}
    {template item rest : Sexpr} (hplain : template.levelForm? = none)
    (hparts : template.uncons? = some (item, rest)) {more : Resolving Expr}
    (hmore : FillsWith F R c level rest more)
    (hsplice : ∀ head arg, level = 1 → item.levelForm? = some (.unquoteSplicing, head, arg) →
      ResolvesTo expand b F R arg)
    (hitem : ∀ d, b.Extends d → d.Unshadowed →
      FillsWith F R d level item (quasi expand item level)) :
    FillsWith F R c level template (do
      let cdr ← more
      match spliced? (← get) level item with
      | some e => callGlobal "append" [← expand e, cdr] item
      | none => return consExpr (← quasi expand item level) cdr item) := by
  refine Keeps.bind (hmore.imp fun x hx => hx.mono fun f hf => (hf.of_parts hplain hparts).2)
    fun cdr d hcd hcdr => ?_
  obtain ⟨hd, g, hg, hgl⟩ := hcdr
  have hbd := hbc.trans hcd
  refine .get_bind ?_
  cases hsp : spliced? d level item with
  | some arg =>
    obtain ⟨rfl, head, hform⟩ := spliced?_eq_some hd hsp
    refine Keeps.bind ((hsplice head arg rfl hform d hbd hd).imp fun x hx => .inl hx)
      fun e k hdk he => ?_
    refine callGlobal_fills ((hbd.trans hdk).sound hb) he.1 (by decide) item
      (.splice hplain hparts hform he.2 hg) fun slot scopes hs hnames => ?_
    exact .splice hnames (hgl scopes (hdk.scopes.grow.trans hs))
  | none =>
    refine Keeps.bind ((hitem d hbd hd).imp fun x hx => hx.mono fun f hf => ?_)
      fun car k hdk hcar => ?_
    · obtain ⟨h | ⟨rfl, head, arg, hform⟩, -⟩ := hf.of_parts hplain hparts
      · exact h
      · cases (spliced?_of_form hd hform).symm.trans hsp
    · obtain ⟨hk, f, hf, hfl⟩ := hcar
      refine .pure (.refl k) ⟨hk, .pair f g, .pair hplain hparts hf hg, fun scopes hs => ?_⟩
      exact .pair (hfl scopes hs) (hgl scopes (hdk.scopes.grow.trans hs))

/-- A form around what its operand becomes. -/
theorem form_fills {level inner : Nat} {template head arg : Sexpr} {act : Resolving Expr}
    (hact : FillsWith F R c inner arg act)
    (hstep : ∀ f, Fills R inner arg f → Fills R level template (.form head f))
    (hback : ∀ f, Fills R level template f → ∃ g, Fills R inner arg g) :
    FillsWith F R c level template (do
      let inner ← act
      let keyword ← literal head.toDatum head
      let nil ← literal .nil template
      return consExpr keyword (consExpr inner nil template) template) := by
  refine Keeps.bind (hact.imp fun x hx => hx.mono hback) fun e d hcd he => ?_
  obtain ⟨hd, f, hf, hfl⟩ := he
  refine Keeps.bind (literal_built hd _ _) fun keyword k hdk hk => ?_
  refine Keeps.bind (literal_built hk.1 _ _) fun nil m hkm hm => ?_
  refine .pure (.refl m) ⟨hm.1, _, hstep f hf, fun scopes hs => ?_⟩
  have hgrown := (hdk.trans hkm).scopes.grow.trans hs
  exact .pair (hk.2 scopes) (.pair (hfl scopes hgrown) (hm.2 scopes))

theorem unquote_fills (hbc : b.Extends c) (hu : c.Unshadowed) {template head arg : Sexpr}
    (hform : template.levelForm? = some (.unquote, head, arg))
    (harg : ResolvesTo expand b F R arg) : FillsWith F R c 1 template (expand arg) :=
  ((harg c hbc hu).imp fun _ hx => .inl hx).mono fun e _ _ he =>
    ⟨he.1, .value e, .unquote hform he.2, fun _ _ => .value⟩

/-- A template without anything to evaluate is quoted, any other one is built. -/
theorem unlessConstant_fills (hu : c.Unshadowed) {level : Nat} (hl : 0 < level)
    {template : Sexpr} {P : Sexpr → Prop} (hp : template.Plain P level) {act : Resolving Expr}
    (hact : FillsWith F R c level template act) :
    FillsWith F R c level template (do
      if !hasUnquote (levelMark? (← get)) template level then literal template.toDatum template
      else act) := by
  refine .get_bind ?_
  rw [levelMark?_eq hu]
  split
  case isTrue h =>
    exact literal_fills hu (Fills.constant template level hl hp (by simpa using h)) template
  case isFalse => exact hact

mutual

/-- The expression for a template builds a filling of it. -/
theorem quasi_fills (hb : b.Sound) {c : ScopeChain} (hbc : b.Extends c) (hu : c.Unshadowed) :
    (template : Sexpr) → (level : Nat) → 0 < level →
      template.Plain (ResolvesTo expand b F R) level →
      FillsWith F R c level template (quasi expand template level)
  | .literal _ _, _, hl, hp => by
    rw [quasi.eq_def]
    exact unlessConstant_fills hu hl hp (literal_fills hu .literal _)
  | .identifier _ _, _, hl, hp => by
    rw [quasi.eq_def]
    exact unlessConstant_fills hu hl hp (literal_fills hu .identifier _)
  | .list items location, level, hl, hp => by
    cases hform : (Sexpr.list items location).levelForm? with
    | some form =>
      obtain ⟨mark, head, arg⟩ := form
      obtain ⟨rfl, hm⟩ := Sexpr.levelForm?_list hform
      rw [quasi]
      refine unlessConstant_fills hu hl hp (.get_bind ?_)
      rw [hu.marks, hm]
      obtain ⟨rfl, harg⟩ | ⟨hmark, harg⟩ := hp.operand hform
      · exact form_fills (quasi_fills hb hbc hu arg (level + 1) (Nat.succ_pos level) harg)
          (fun f hf => .raise hform hf) fun f hf => hf.of_raise hform
      · obtain rfl | ⟨n, rfl⟩ : level = 1 ∨ ∃ n, level = n + 2 := by
          obtain rfl | hne := eq_or_ne level 1
          · exact .inl rfl
          · exact .inr ⟨level - 2, by omega⟩
        · cases mark with
          | quote => exact absurd hm (Sexpr.levelMark?_ne_quote head)
          | quasiquote => exact absurd rfl hmark
          | unquote => exact unquote_fills hbc hu hform harg
          | unquoteSplicing =>
            exact .throw (.refl c) (.inr ⟨⟨_, rfl⟩, not_fills_splicing hform⟩)
        · have hlower := form_fills (quasi_fills hb hbc hu arg (n + 1) (Nat.succ_pos n) harg)
            (fun f hf => Fills.lower hform hmark hf) fun f hf => hf.of_lower hform hmark
          cases mark with
          | quasiquote => exact absurd rfl hmark
          | _ => exact hlower
    | none =>
      have hitems := quasiItems_fills hb hbc hu none location true (fun _ => rfl) items level
        hl (fun d _ hd => literal_fills (d := .nil) hd .nil (.list items location))
        (hp.listItems hform) fun h => absurd rfl h
      by_cases htwo : ∃ head arg, items = [head, arg]
      · obtain ⟨head, arg, rfl⟩ := htwo
        rw [quasi]
        refine unlessConstant_fills hu hl hp (.get_bind ?_)
        rw [hu.marks, Sexpr.levelMark?_of_levelForm? hform]
        exact hitems
      · rw [quasi]
        · exact unlessConstant_fills hu hl hp hitems
        · exact fun head arg h => htwo ⟨head, arg, h⟩
  | .dotted [] _ _, _, _, hp => by
    rw [Sexpr.Plain] at hp
    exact absurd rfl hp.1
  | .dotted (item :: items) tail location, level, hl, hp => by
    rw [quasi]
    refine unlessConstant_fills hu hl hp ?_
    rw [Sexpr.Plain] at hp
    exact quasiItems_fills hb hbc hu (some tail) location false nofun (item :: items) level
      hl (fun d hbd hd => quasi_fills hb hbd hd tail level hl hp.2.2) hp.2.1
      fun _ h => nomatch h
  | .vector items location, level, hl, hp => by
    rw [quasi]
    refine unlessConstant_fills hu hl hp ?_
    rw [Sexpr.Plain] at hp
    have hitems := quasiItems_fills hb hbc hu (some (.list [] location)) location true nofun
      items level hl
      (fun d _ hd => literal_fills (d := .nil) hd .nil (.vector items location)) hp.1
      fun _ _ => hp.2
    refine Keeps.bind (hitems.imp fun x hx => hx.mono fun f hf => hf.of_vector)
      fun e d hcd he => ?_
    obtain ⟨hd, f, hf, hfl⟩ := he
    refine callGlobal_fills ((hbc.trans hcd).sound hb) hd (by decide) _ (.vector hf)
      fun slot scopes hs hnames => ?_
    exact .vector hnames (hfl scopes hs)
termination_by template => sizeOf template

/-- So does the expression for items in front of a tail, given what builds that. -/
theorem quasiItems_fills (hb : b.Sound) {c : ScopeChain} (hbc : b.Extends c) (hu : c.Unshadowed)
    (tail : Option Sexpr) (location : Option Location) (dotted : Bool) {last : Resolving Expr}
    (hdotted : tail = none → dotted = true) :
    (items : List Sexpr) → (level : Nat) → 0 < level →
      (∀ d, b.Extends d → d.Unshadowed →
        FillsWith F R d level (.withTail tail [] location) last) →
      Sexpr.PlainItems (ResolvesTo expand b F R) tail.isNone items level →
      (tail ≠ none → dotted = true → level = 1 →
        endsInUnquote Sexpr.levelMark? items = false) →
      FillsWith F R c level (.withTail tail items location)
        (quasiItems expand dotted last items level)
  | [], level, hl, hlast, hp, hends => by
    rw [quasiItems]
    exact hlast c hbc hu
  | item :: rest, level, hl, hlast, hp, hends => by
    have hparts := Sexpr.uncons?_withTail tail item rest location
    rw [quasiItems]
    refine .get_bind ?_
    dsimp only
    rw [hu.marks]
    obtain ⟨rfl, rfl, hm, e, rfl, he⟩ | ⟨hitem, hrest, hplain⟩ := hp.split location
    · rw [hdotted rfl, hm]
      exact unquote_fills hbc hu (Option.map_eq_some_iff.mpr ⟨_, hm, rfl⟩) he
    · have hgoal := item_fills hb hbc hplain hparts
        (quasiItems_fills hb hbc hu tail location dotted hdotted rest level hl hlast hrest
          fun ht hd h1 => endsInUnquote_cons (hends ht hd h1))
        (fun head arg h1 hform => ?_)
        fun d hbd hd => quasi_fills hb hbd hd item level hl hitem
      · split
        · rename_i e hcond
          rw [Bool.and_eq_true, Bool.and_eq_true, beq_iff_eq, beq_iff_eq] at hcond
          obtain ⟨⟨hd, h1⟩, hm⟩ := hcond
          cases tail with
          | none => cases (Sexpr.levelMark?_of_levelForm? hplain).symm.trans hm
          | some tail =>
            have hfalse := hends (Option.some_ne_none tail) hd h1
            simp [endsInUnquote, hm] at hfalse
        · exact hgoal
      · subst h1
        obtain ⟨hmark, -⟩ | ⟨-, harg⟩ := hitem.operand hform
        · cases hmark
        · exact harg
termination_by items => sizeOf items

end

end Resolving

end RegisterScheme
