import RegisterScheme.Machine.Arguments
import RegisterScheme.Native.Call
import RegisterScheme.Proofs.Template.Alike

/-! Values of two runs that are the same but for the identities of their objects. No procedure but
equality looks at those, and equality only asks which of them are the same. -/

namespace RegisterScheme

/-- What of one run stands for what of another: objects, closures, and activations together with
those around them. -/
structure Correspondence where
  objects : Nat → Nat → Prop
  closures : Closure → Closure → Prop
  environments : Nat → Option Nat → Nat → Option Nat → Prop

namespace Correspondence

instance : Preorder Correspondence where
  le κ μ := (∀ i j, κ.objects i j → μ.objects i j) ∧ (∀ c d, κ.closures c d → μ.closures c d) ∧
    ∀ e p f q, κ.environments e p f q → μ.environments e p f q
  le_refl _ := ⟨fun _ _ h => h, fun _ _ h => h, fun _ _ _ _ h => h⟩
  le_trans _ _ _ h h' := ⟨fun i j hij => h'.1 i j (h.1 i j hij),
    fun c d hcd => h'.2.1 c d (h.2.1 c d hcd),
    fun e p f q h'' => h'.2.2 e p f q (h.2.2 e p f q h'')⟩

/-- Different things stand for different things. -/
structure OneToOne (κ : Correspondence) : Prop where
  objects : ∀ i j i' j', κ.objects i i' → κ.objects j j' → (i = j ↔ i' = j')
  closures : ∀ c d c' d', κ.closures c c' → κ.closures d d' →
    (c.address = d.address ↔ c'.address = d'.address)
  environments : ∀ e p f q e' p' f' q', κ.environments e p e' p' → κ.environments f q f' q' →
    (e = f ↔ e' = f')

/-- So many objects more, from two numbers on. -/
def withObjects (κ : Correspondence) (n n' count : Nat) : Correspondence :=
  { κ with objects := fun i j => κ.objects i j ∨ ∃ m < count, i = n + m ∧ j = n' + m }

theorem le_withObjects (κ : Correspondence) (n n' count : Nat) : κ ≤ κ.withObjects n n' count :=
  ⟨fun _ _ h => .inl h, fun _ _ h => h, fun _ _ _ _ h => h⟩

end Correspondence

namespace Value

variable {κ μ : Correspondence}

/-- The same value with other objects. -/
inductive Alike (κ : Correspondence) : Value → Value → Prop
  | atom (a : Atom) : Alike κ (.atom a) (.atom a)
  | pair {i i' : Nat} {car car' cdr cdr' : Value} (object : κ.objects i i')
      (hcar : Alike κ car car') (hcdr : Alike κ cdr cdr') :
      Alike κ (.pair i car cdr) (.pair i' car' cdr')
  | vector {i i' : Nat} {items items' : List Value} (object : κ.objects i i')
      (hitems : List.Forall₂ (Alike κ) items items') : Alike κ (.vector i items) (.vector i' items')
  | closure {c c' : Closure} (closure : κ.closures c c') (template : c.template.Alike c'.template) :
      Alike κ (.closure c) (.closure c')
  | native (n : StandardNative) : Alike κ (.native (.standard n)) (.native (.standard n))
  | unspecified : Alike κ .unspecified .unspecified

mutual

theorem Alike.mono (h : κ ≤ μ) : {v v' : Value} → v.Alike κ v' → v.Alike μ v'
  | _, _, .atom a => .atom a
  | _, _, .pair hi hcar hcdr => .pair (h.1 _ _ hi) (hcar.mono h) (hcdr.mono h)
  | _, _, .vector hi hitems => .vector (h.1 _ _ hi) (Alike.monoItems h hitems)
  | _, _, .closure hc ht => .closure (h.2.1 _ _ hc) ht
  | _, _, .native n => .native n
  | _, _, .unspecified => .unspecified

theorem Alike.monoItems (h : κ ≤ μ) : {vs vs' : List Value} → List.Forall₂ (Alike κ) vs vs' →
    List.Forall₂ (Alike μ) vs vs'
  | _, _, .nil => .nil
  | _, _, .cons hv hvs => .cons (hv.mono h) (Alike.monoItems h hvs)

end

/-! ### What does not depend on the objects -/

theorem Alike.isTruthy_eq {v v' : Value} (h : v.Alike κ v') : v'.isTruthy = v.isTruthy := by
  cases h <;> rfl

theorem Alike.isNil_eq {v v' : Value} (h : v.Alike κ v') : v'.isNil = v.isNil := by
  cases h <;> rfl

theorem Alike.isNumber_eq {v v' : Value} (h : v.Alike κ v') : v'.isNumber = v.isNumber := by
  cases h <;> rfl

theorem Alike.isProcedure_eq {v v' : Value} (h : v.Alike κ v') :
    v'.isProcedure = v.isProcedure := by
  cases h <;> rfl

theorem Alike.wholeText_eq {v v' : Value} (h : v.Alike κ v') : v'.wholeText = v.wholeText := by
  cases h with
  | closure _ ht =>
    cases ht with
    | intro name => rw [wholeText, wholeText, name]
  | atom | pair | vector | native | unspecified => rfl

mutual

theorem Alike.chars_eq : (v : Value) → {v' : Value} → v.Alike κ v' → v'.chars = v.chars
  | .atom a, _, h => by cases h; rfl
  | .pair i car cdr, _, h => by
    cases h with
    | pair _ hcar hcdr => rw [chars, chars, Alike.chars_eq car hcar, Alike.tailChars_eq cdr hcdr]
  | .vector i items, _, h => by
    cases h with
    | vector _ hitems => rw [chars, chars, Alike.itemChars_eq items hitems]
  | .closure c, _, h => by
    have htext := h.wholeText_eq
    cases h with
    | closure => rw [chars, chars, htext] <;> simp
  | .native n, _, h => by cases h; rfl
  | .unspecified, _, h => by cases h; rfl
  | .template i t, _, h => by cases h

theorem Alike.tailChars_eq : (v : Value) → {v' : Value} → v.Alike κ v' →
    v'.tailChars = v.tailChars
  | .atom a, _, h => by cases h; rfl
  | .pair i car cdr, _, h => by
    cases h with
    | pair _ hcar hcdr =>
      rw [tailChars, tailChars, Alike.chars_eq car hcar, Alike.tailChars_eq cdr hcdr]
  | .vector i items, _, h => by
    cases h with
    | vector _ hitems => rw [tailChars, tailChars, Alike.itemChars_eq items hitems]
  | .closure c, _, h => by
    have htext := h.wholeText_eq
    cases h with
    | closure => rw [tailChars, tailChars, htext] <;> simp
  | .native n, _, h => by cases h; rfl
  | .unspecified, _, h => by cases h; rfl
  | .template i t, _, h => by cases h

theorem Alike.itemChars_eq : (vs : List Value) → {vs' : List Value} →
    List.Forall₂ (Alike κ) vs vs' → itemChars vs' = itemChars vs
  | [], _, h => by cases h; rfl
  | [v], _, h => by
    rcases h with _ | ⟨hv, _ | _⟩
    rw [itemChars, itemChars, Alike.chars_eq v hv]
  | v :: w :: vs, _, h => by
    rcases h with _ | ⟨hv, hvs⟩
    have hmore := Alike.itemChars_eq (w :: vs) hvs
    rcases hvs with _ | ⟨hw, hvs⟩
    change _ ++ ' ' :: itemChars (_ :: _) = _ ++ ' ' :: itemChars (w :: vs)
    rw [Alike.chars_eq v hv, hmore]

end

theorem Alike.text_eq {v v' : Value} (h : v.Alike κ v') : v'.text = v.text :=
  congrArg String.ofList (Alike.chars_eq v h)

/-- The items of alike lists. -/
theorem Alike.listItems? : (v : Value) → {v' : Value} → v.Alike κ v' →
    Option.Rel (List.Forall₂ (Alike κ)) v.listItems? v'.listItems?
  | .pair i car cdr, _, h => by
    cases h with
    | @pair _ _ _ _ _ cdr' _ hcar hcdr =>
      have hrest := Alike.listItems? cdr hcdr
      rw [Value.listItems?, Value.listItems?]
      generalize cdr.listItems? = x, cdr'.listItems? = y at hrest
      cases hrest with
      | none => exact .none
      | some hitems => exact .some (.cons hcar hitems)
  | .atom a, _, h => by
    cases h
    cases a <;> first | exact .some .nil | exact .none
  | .vector i items, _, h => by cases h; exact .none
  | .closure c, _, h => by cases h; exact .none
  | .native n, _, h => by cases h; exact .none
  | .unspecified, _, h => by cases h; exact .none
  | .template i t, _, h => by cases h

mutual

/-- Equality only asks which objects are the same. -/
theorem Alike.equal_eq (hκ : κ.OneToOne) : (v w : Value) → {v' w' : Value} → v.Alike κ v' →
    w.Alike κ w' →
    v'.equal w' = v.equal w
  | .atom a, w, v', w', hv, hw => by
    cases hv
    cases hw <;> rfl
  | .pair i a b, w, v', w', hv, hw => by
    cases hv with
    | pair hi ha hb =>
      cases hw with
      | pair hj hc hd =>
        rw [equal, equal, Alike.equal_eq hκ a _ ha hc, Alike.equal_eq hκ b _ hb hd]
        congr 1
        exact Bool.eq_iff_iff.mpr (by simp [hκ.objects _ _ _ _ hi hj])
      | atom | vector | closure | native | unspecified => rfl
  | .vector i vs, w, v', w', hv, hw => by
    cases hv with
    | vector _ hvs =>
      cases hw with
      | vector _ hws => rw [equal, equal, Alike.equalItems_eq hκ vs _ hvs hws]
      | atom | pair | closure | native | unspecified => rfl
  | .closure c, w, v', w', hv, hw => by
    cases hv with
    | closure hc _ =>
      cases hw with
      | closure hd _ =>
        rw [equal, equal]
        exact Bool.eq_iff_iff.mpr (by simp [hκ.closures _ _ _ _ hc hd])
      | atom | vector | pair | native | unspecified => rfl
  | .native n, w, v', w', hv, hw => by
    cases hv
    cases hw <;> rfl
  | .unspecified, w, v', w', hv, hw => by
    cases hv
    cases hw <;> rfl
  | .template i t, w, v', w', hv, hw => by cases hv

theorem Alike.equalItems_eq (hκ : κ.OneToOne) : (vs ws : List Value) → {vs' ws' : List Value} →
    List.Forall₂ (Alike κ) vs vs' → List.Forall₂ (Alike κ) ws ws' →
    equalItems vs' ws' = equalItems vs ws
  | [], ws, _, _, hvs, hws => by
    cases hvs
    cases hws <;> rfl
  | v :: vs, ws, _, _, hvs, hws => by
    cases hvs with
    | cons hv hvs =>
      cases hws with
      | nil => rfl
      | cons hw hws =>
        rw [equalItems, equalItems, Alike.equal_eq hκ v _ hv hw,
          Alike.equalItems_eq hκ vs _ hvs hws]

end

theorem Alike.eqv_eq (hκ : κ.OneToOne) {v w v' w' : Value} (hv : v.Alike κ v') (hw : w.Alike κ w') :
    v'.eqv w' = v.eqv w := by
  have hequal := Alike.equal_eq hκ v w hv hw
  cases hv with
  | pair hi _ _ =>
    cases hw with
    | pair hj _ _ => exact Bool.eq_iff_iff.mpr (by simp [eqv, hκ.objects _ _ _ _ hi hj])
    | atom | vector | closure | native | unspecified => rfl
  | vector hi _ =>
    cases hw with
    | vector hj _ => exact Bool.eq_iff_iff.mpr (by simp [eqv, hκ.objects _ _ _ _ hi hj])
    | atom | pair | closure | native | unspecified => rfl
  | atom | closure | native | unspecified => cases hw <;> first | rfl | exact hequal

mutual

/-- Values of the same datum. -/
theorem Alike.ofDatum : (d : Datum) → {first first' : Nat} →
    (∀ m < d.objects, κ.objects (first + m) (first' + m)) →
    (Value.ofDatum first d).Alike κ (Value.ofDatum first' d)
  | .atom a, _, _, _ => .atom a
  | .pair car cdr, first, first', h => by
    rw [Datum.objects] at h
    refine .pair (h 0 (Nat.succ_pos _)) (Alike.ofDatum car fun m hm => ?_)
      (Alike.ofDatum cdr fun m hm => ?_)
    · have hm' := h (1 + m) (by omega)
      rwa [← Nat.add_assoc, ← Nat.add_assoc] at hm'
    · have hm' := h (1 + car.objects + m) (by omega)
      rwa [← Nat.add_assoc, ← Nat.add_assoc, ← Nat.add_assoc, ← Nat.add_assoc] at hm'
  | .vector items, first, first', h => by
    rw [Datum.objects] at h
    refine .vector (h 0 (Nat.succ_pos _)) (Alike.ofData items fun m hm => ?_)
    have hm' := h (1 + m) (by omega)
    rwa [← Nat.add_assoc, ← Nat.add_assoc] at hm'

theorem Alike.ofData : (ds : List Datum) → {first first' : Nat} →
    (∀ m < Datum.objectsOfItems ds, κ.objects (first + m) (first' + m)) →
    List.Forall₂ (Alike κ) (Value.ofData first ds) (Value.ofData first' ds)
  | [], _, _, _ => .nil
  | d :: ds, first, first', h => by
    rw [Datum.objectsOfItems] at h
    refine .cons (Alike.ofDatum d fun m hm => h m (by omega)) (Alike.ofData ds fun m hm => ?_)
    have hm' := h (d.objects + m) (by omega)
    rwa [← Nat.add_assoc, ← Nat.add_assoc] at hm'

end

theorem Alike.ofQuotation {r : Renumbering} {q q' : Quotation} (h : q.Alike r q')
    (hr : ∀ i j, r.objects i j → κ.objects i j) :
    (Value.ofQuotation q).Alike κ (Value.ofQuotation q') := by
  unfold Value.ofQuotation
  rw [h.datum]
  exact Alike.ofDatum q.datum fun m hm => hr _ _ (h.objects m hm)

/-! ### Conversions -/

theorem Alike.toNumber {v v' : Value} (h : v.Alike κ v') : Agree Eq v.toNumber v'.toNumber := by
  cases h with
  | atom a => exact .refl (fun _ => rfl) _
  | pair | vector | closure | native | unspecified => exact .error

theorem Alike.toInteger {v v' : Value} (h : v.Alike κ v') : Agree Eq v.toInteger v'.toInteger := by
  cases h with
  | atom a => exact .refl (fun _ => rfl) _
  | pair | vector | closure | native | unspecified => exact .error

theorem Alike.toPair {v v' : Value} (h : v.Alike κ v') :
    Agree (fun p p' => p.1.Alike κ p'.1 ∧ p.2.Alike κ p'.2) v.toPair v'.toPair := by
  cases h with
  | pair _ hcar hcdr => exact .ok ⟨hcar, hcdr⟩
  | atom | vector | closure | native | unspecified => exact .error

theorem Alike.toItems {v v' : Value} (h : v.Alike κ v') :
    Agree (List.Forall₂ (Alike κ)) v.toItems v'.toItems := by
  cases h with
  | vector _ hitems => exact .ok hitems
  | atom | pair | closure | native | unspecified => exact .error

theorem Alike.toListItems {v v' : Value} (h : v.Alike κ v') :
    Agree (List.Forall₂ (Alike κ)) v.toListItems v'.toListItems := by
  have hitems := Alike.listItems? v h
  unfold Value.toListItems
  generalize v.listItems? = x, v'.listItems? = y at hitems
  cases hitems with
  | some h => exact .ok h
  | none => exact .error

theorem Alike.isList_eq {v v' : Value} (h : v.Alike κ v') : v'.isList = v.isList := by
  have hitems := Alike.listItems? v h
  unfold isList
  generalize v.listItems? = x, v'.listItems? = y at hitems
  cases hitems <;> rfl

theorem Alike.keyword?_eq {v v' : Value} (h : v.Alike κ v') :
    Dealing.keyword? v' = Dealing.keyword? v := by
  cases h <;> rfl

end Value

variable {κ : Correspondence}

namespace Arithmetic

theorem agree_checked (mnemonic : String) (n : Int) :
    Agree (Value.Alike κ) (checked mnemonic n) (checked mnemonic n) := by
  unfold checked
  split
  · exact .ok (.atom _)
  · exact .error

theorem agree_integers (op : Arithmetic) (x y : Int64) :
    Agree (Value.Alike κ) (op.integers x y) (op.integers x y) := by
  cases op with
  | add | subtract | multiply => exact agree_checked _ _
  | divide =>
    unfold integers
    dsimp only
    split
    · exact .error
    · split
      · exact .ok (.atom _)
      · exact agree_checked _ _
  | modulo | remainder =>
    unfold integers
    dsimp only
    split
    · exact .error
    · exact agree_checked _ _

theorem agree_apply (op : Arithmetic) {x y x' y' : Value} (hx : x.Alike κ x') (hy : y.Alike κ y') :
    Agree (Value.Alike κ) (op.apply x y) (op.apply x' y') := by
  refine hx.toNumber.bind ?_
  rintro m _ rfl
  refine hy.toNumber.bind ?_
  rintro n _ rfl
  split
  · exact op.agree_integers _ _
  · exact .ok (.atom _)

theorem agree_negate {x x' : Value} (hx : x.Alike κ x') :
    Agree (Value.Alike κ) (negate x) (negate x') := by
  refine hx.toNumber.bind ?_
  rintro m _ rfl
  split
  · exact agree_checked _ _
  · exact .ok (.atom _)

end Arithmetic

theorem Comparison.agree_holds (hκ : κ.OneToOne) (op : Comparison) {x y x' y' : Value}
    (hx : x.Alike κ x') (hy : y.Alike κ y') : Agree Eq (op.holds x y) (op.holds x' y') := by
  have hnumbers {f : Number → Number → Except Failure Bool} :
      Agree Eq (do f (← x.toNumber) (← y.toNumber)) (do f (← x'.toNumber) (← y'.toNumber)) := by
    refine hx.toNumber.bind ?_
    rintro m _ rfl
    refine hy.toNumber.bind ?_
    rintro n _ rfl
    exact .refl (fun _ => rfl) _
  cases op with
  | equivalent => exact .ok (Value.Alike.eqv_eq hκ hx hy).symm
  | equalNumbers | less | lessOrEqual => exact hnumbers

/-! ### Native procedures -/

/-- Two computations that make the same objects and then give values that are alike. -/
def Allocating.Alike (κ : Correspondence) (x y : Allocating Value) : Prop :=
  ∀ n n', Agree (fun p p' => ∃ count, p.2 = n + count ∧ p'.2 = n' + count ∧
    p.1.Alike (κ.withObjects n n' count) p'.1) (x.run n) (y.run n')

namespace Allocating.Alike

theorem pure {v v' : Value} (h : v.Alike κ v') :
    Allocating.Alike κ (Pure.pure v) (Pure.pure v') :=
  fun _ _ => .ok ⟨0, rfl, rfl, h.mono (κ.le_withObjects _ _ _)⟩

theorem boolean {b b' : Bool} (h : b' = b) :
    Allocating.Alike κ (Pure.pure (Value.boolean b)) (Pure.pure (Value.boolean b')) :=
  h ▸ pure (.atom _)

theorem fail (f f' : Failure) : Allocating.Alike κ (Allocating.fail f) (Allocating.fail f') :=
  fun _ _ => .error

/-- What comes after a step that makes no objects. -/
theorem lift_bind {α β : Type} {Q : α → β → Prop} {r : Except Failure α} {r' : Except Failure β}
    (h : Agree Q r r') {f : α → Allocating Value} {g : β → Allocating Value}
    (hf : ∀ a b, Q a b → Allocating.Alike κ (f a) (g b)) :
    Allocating.Alike κ (liftM r >>= f) (liftM r' >>= g) := by
  intro n n'
  cases h with
  | ok hq => exact hf _ _ hq n n'
  | error => exact .error

theorem mapM_bind {α β γ δ : Type} {R : α → β → Prop} {Q : γ → δ → Prop} {as : List α}
    {bs : List β} (h : List.Forall₂ R as bs) {r : α → Except Failure γ} {r' : β → Except Failure δ}
    (hr : ∀ a b, R a b → Agree Q (r a) (r' b)) {f : List γ → Allocating Value}
    {g : List δ → Allocating Value}
    (hf : ∀ cs ds, List.Forall₂ Q cs ds → Allocating.Alike κ (f cs) (g ds)) :
    Allocating.Alike κ ((as.mapM fun a => liftM (r a)) >>= f)
      ((bs.mapM fun b => liftM (r' b)) >>= g) := by
  induction h generalizing f g with
  | nil =>
    rw [List.mapM_nil, List.mapM_nil, pure_bind, pure_bind]
    exact hf [] [] .nil
  | cons hab _ ih =>
    rw [List.mapM_cons, List.mapM_cons, bind_assoc, bind_assoc]
    refine lift_bind (hr _ _ hab) fun c d hcd => ?_
    rw [bind_assoc, bind_assoc]
    refine ih fun cs ds hcds => ?_
    rw [pure_bind, pure_bind]
    exact hf _ _ (.cons hcd hcds)

theorem lift {r r' : Except Failure Value} (h : Agree (Value.Alike κ) r r') :
    Allocating.Alike κ (liftM r) (liftM r') := by
  intro n n'
  cases h with
  | ok hq => exact Allocating.Alike.pure hq n n'
  | error => exact .error

/-- New pairs in front of a tail. -/
theorem listFrom {items items' : List Value} {tail tail' : Value}
    (h : List.Forall₂ (Value.Alike κ) items items') (ht : tail.Alike κ tail') (n n' : Nat) :
    (Value.listFrom n tail items).Alike (κ.withObjects n n' items.length)
      (Value.listFrom n' tail' items') := by
  induction h generalizing n n' with
  | nil => exact ht.mono (κ.le_withObjects _ _ _)
  | @cons v v' items items' hv _ ih =>
    have hle := κ.le_withObjects n n' (items.length + 1)
    have hrest : κ.withObjects (n + 1) (n' + 1) items.length ≤
        κ.withObjects n n' (items.length + 1) := by
      refine ⟨?_, fun _ _ h => h, fun _ _ _ _ h => h⟩
      rintro i j (hij | ⟨m, hm, rfl, rfl⟩)
      · exact .inl hij
      · exact .inr ⟨m + 1, Nat.succ_lt_succ hm, by omega, by omega⟩
    exact .pair (.inr ⟨0, Nat.succ_pos _, rfl, rfl⟩) (hv.mono hle) ((ih _ _).mono hrest)

theorem listWithTail {items items' : List Value} {tail tail' : Value}
    (h : List.Forall₂ (Value.Alike κ) items items') (ht : tail.Alike κ tail') :
    Allocating.Alike κ (listWithTail items tail) (listWithTail items' tail') :=
  fun n n' => .ok ⟨items.length, rfl, by rw [h.length_eq], listFrom h ht n n'⟩

theorem list {items items' : List Value} (h : List.Forall₂ (Value.Alike κ) items items') :
    Allocating.Alike κ (list items) (list items') :=
  listWithTail h (.atom .nil)

theorem cons {car car' cdr cdr' : Value} (hcar : car.Alike κ car') (hcdr : cdr.Alike κ cdr') :
    Allocating.Alike κ (cons car cdr) (cons car' cdr') := by
  intro n n'
  have hle := κ.le_withObjects n n' 1
  exact .ok ⟨1, rfl, rfl, .pair (.inr ⟨0, Nat.one_pos, rfl, rfl⟩) (hcar.mono hle) (hcdr.mono hle)⟩

theorem vector {items items' : List Value} (h : List.Forall₂ (Value.Alike κ) items items') :
    Allocating.Alike κ (vector items) (vector items') := by
  intro n n'
  have hle := κ.le_withObjects n n' 1
  exact .ok ⟨1, rfl, rfl, .vector (.inr ⟨0, Nat.one_pos, rfl, rfl⟩) (h.imp fun _ _ h => h.mono hle)⟩

end Allocating.Alike

namespace StandardNative

open Allocating.Alike

theorem alike_fold (op : Arithmetic) {first first' : Value} {rest rest' : List Value}
    (hf : first.Alike κ first') (h : List.Forall₂ (Value.Alike κ) rest rest') :
    Allocating.Alike κ (fold op first rest) (fold op first' rest') :=
  lift (Agree.foldlM h (fun _ _ _ _ hx hy => op.agree_apply hx hy) hf)

theorem agree_chain (hκ : κ.OneToOne) (op : Comparison) (swap : Bool) {first first' : Value}
    {rest rest' : List Value} (hf : first.Alike κ first')
    (h : List.Forall₂ (Value.Alike κ) rest rest') :
    Agree Eq (chain op swap first rest) (chain op swap first' rest') := by
  induction h generalizing first first' with
  | nil => exact .ok rfl
  | @cons v v' rest rest' hv _ ih =>
    have hholds : Agree Eq (if swap then op.holds v first else op.holds first v)
        (if swap then op.holds v' first' else op.holds first' v') := by
      cases swap with
      | true => exact op.agree_holds hκ hv hf
      | false => exact op.agree_holds hκ hf hv
    unfold chain
    refine hholds.bind ?_
    rintro holds _ rfl
    split
    · exact ih hv
    · exact .ok rfl

theorem alike_comparison (hκ : κ.OneToOne) (op : Comparison) (swap : Bool)
    {args args' : List Value} (h : List.Forall₂ (Value.Alike κ) args args') :
    Allocating.Alike κ (comparison op swap args) (comparison op swap args') := by
  cases h with
  | nil => exact .pure (.atom _)
  | cons hfirst hrest =>
    refine lift_bind (agree_chain hκ op swap hfirst hrest) ?_
    rintro b _ rfl
    exact .pure (.atom _)

theorem forall₂_flatten {α β : Type} {R : α → β → Prop} {as : List (List α)} {bs : List (List β)}
    (h : List.Forall₂ (List.Forall₂ R) as bs) : List.Forall₂ R as.flatten bs.flatten := by
  induction h with
  | nil => exact .nil
  | cons h _ ih => exact List.rel_append h ih

theorem rel_getElem? {α β : Type} {R : α → β → Prop} {as : List α} {bs : List β}
    (h : List.Forall₂ R as bs) (i : Nat) : Option.Rel R as[i]? bs[i]? := by
  induction h generalizing i with
  | nil => exact .none
  | cons h _ ih =>
    cases i with
    | zero => exact .some h
    | succ i => exact ih i

theorem alike_appendLists {args args' : List Value} (h : List.Forall₂ (Value.Alike κ) args args') :
    Allocating.Alike κ (appendLists args) (appendLists args') := by
  unfold appendLists
  rcases List.eq_nil_or_concat' args with rfl | ⟨init, last, rfl⟩
  · cases h
    exact .pure (.atom _)
  · obtain ⟨init', last', rfl, hinit, hlast⟩ := forall₂_concat h
    simp only [List.getLast?_append, List.getLast?_singleton, Option.some_or,
      List.dropLast_concat]
    exact mapM_bind hinit (fun _ _ hv => hv.toListItems) fun _ _ hitems =>
      listWithTail (forall₂_flatten hitems) hlast

theorem alike_vectorItem {v v' index index' : Value} (h : v.Alike κ v')
    (hi : index.Alike κ index') :
    Allocating.Alike κ (vectorItem v index) (vectorItem v' index') := by
  refine lift_bind h.toItems fun items items' hitems => lift_bind hi.toInteger ?_
  rintro i _ rfl
  have hitem : Option.Rel (Value.Alike κ) (if i < 0 then none else items[i.toInt.toNat]?)
      (if i < 0 then none else items'[i.toInt.toNat]?) := by
    split
    · exact .none
    · exact rel_getElem? hitems _
  dsimp only
  generalize (if i < 0 then none else items[i.toInt.toNat]?) = x,
    (if i < 0 then none else items'[i.toInt.toNat]?) = y at hitem
  cases hitem with
  | some h => exact .pure h
  | none => exact .fail _ _

theorem exactly_one {args args' : List Value} (h : List.Forall₂ (Value.Alike κ) args args')
    (harity : (Arity.exactly 1).accepts args.length) :
    ∃ v v', args = [v] ∧ args' = [v'] ∧ v.Alike κ v' := by
  obtain ⟨v, rfl⟩ := List.length_eq_one_iff.mp (beq_iff_eq.mp harity)
  rcases h with _ | ⟨hv, _ | _⟩
  exact ⟨v, _, rfl, rfl, hv⟩

theorem exactly_two {args args' : List Value} (h : List.Forall₂ (Value.Alike κ) args args')
    (harity : (Arity.exactly 2).accepts args.length) :
    ∃ v v' w w', args = [v, w] ∧ args' = [v', w'] ∧ v.Alike κ v' ∧ w.Alike κ w' := by
  obtain ⟨v, w, rfl⟩ := List.length_eq_two.mp (beq_iff_eq.mp harity)
  rcases h with _ | ⟨hv, _ | ⟨hw, _ | _⟩⟩
  exact ⟨v, _, w, _, rfl, rfl, hv, hw⟩

/-- A standard procedure does the same for arguments that are alike. -/
theorem alike_run (hκ : κ.OneToOne) (n : StandardNative) {args args' : List Value}
    (h : List.Forall₂ (Value.Alike κ) args args') (harity : n.arity.accepts args.length) :
    Allocating.Alike κ (n.run args) (n.run args') := by
  cases n with
  | add => exact alike_fold .add (.atom _) h
  | multiply => exact alike_fold .multiply (.atom _) h
  | subtract =>
    rcases h with _ | ⟨hv, _ | ⟨hw, hrest⟩⟩
    · exact .fail _ _
    · exact lift (Arithmetic.agree_negate hv)
    · exact alike_fold .subtract hv (.cons hw hrest)
  | divide =>
    rcases h with _ | ⟨hv, _ | ⟨hw, hrest⟩⟩
    · exact .fail _ _
    · exact lift (Arithmetic.divide.agree_apply (.atom _) hv)
    · exact alike_fold .divide hv (.cons hw hrest)
  | modulo =>
    obtain ⟨v, v', w, w', rfl, rfl, hv, hw⟩ := exactly_two h harity
    exact lift (Arithmetic.modulo.agree_apply hv hw)
  | remainder =>
    obtain ⟨v, v', w, w', rfl, rfl, hv, hw⟩ := exactly_two h harity
    exact lift (Arithmetic.remainder.agree_apply hv hw)
  | equalNumbers => exact alike_comparison hκ .equalNumbers false h
  | less => exact alike_comparison hκ .less false h
  | greater => exact alike_comparison hκ .less true h
  | lessOrEqual => exact alike_comparison hκ .lessOrEqual false h
  | greaterOrEqual => exact alike_comparison hκ .lessOrEqual true h
  | car =>
    obtain ⟨v, v', rfl, rfl, hv⟩ := exactly_one h harity
    exact lift_bind hv.toPair fun _ _ hp => .pure hp.1
  | cdr =>
    obtain ⟨v, v', rfl, rfl, hv⟩ := exactly_one h harity
    exact lift_bind hv.toPair fun _ _ hp => .pure hp.2
  | cons =>
    obtain ⟨v, v', w, w', rfl, rfl, hv, hw⟩ := exactly_two h harity
    exact Allocating.Alike.cons hv hw
  | list => exact Allocating.Alike.list h
  | append => exact alike_appendLists h
  | length =>
    obtain ⟨v, v', rfl, rfl, hv⟩ := exactly_one h harity
    refine lift_bind hv.toListItems fun items items' hitems => ?_
    rw [hitems.length_eq]
    exact .pure (.atom _)
  | isNull =>
    obtain ⟨v, v', rfl, rfl, hv⟩ := exactly_one h harity
    exact boolean hv.isNil_eq
  | isList =>
    obtain ⟨v, v', rfl, rfl, hv⟩ := exactly_one h harity
    exact boolean hv.isList_eq
  | not =>
    obtain ⟨v, v', rfl, rfl, hv⟩ := exactly_one h harity
    exact boolean (congrArg Bool.not hv.isTruthy_eq)
  | isNumber =>
    obtain ⟨v, v', rfl, rfl, hv⟩ := exactly_one h harity
    exact boolean hv.isNumber_eq
  | isProcedure =>
    obtain ⟨v, v', rfl, rfl, hv⟩ := exactly_one h harity
    exact boolean hv.isProcedure_eq
  | isPair | isInteger | isSymbol | isString =>
    obtain ⟨v, v', rfl, rfl, hv⟩ := exactly_one h harity
    exact boolean (by cases hv <;> rfl)
  | isSame | isEquivalent =>
    obtain ⟨v, v', w, w', rfl, rfl, hv, hw⟩ := exactly_two h harity
    exact boolean (Value.Alike.eqv_eq hκ hv hw)
  | isEqual =>
    obtain ⟨v, v', w, w', rfl, rfl, hv, hw⟩ := exactly_two h harity
    exact boolean (Value.Alike.equal_eq hκ v w hv hw)
  | vector => exact Allocating.Alike.vector h
  | vectorRef =>
    obtain ⟨v, v', w, w', rfl, rfl, hv, hw⟩ := exactly_two h harity
    exact alike_vectorItem hv hw
  | vectorLength =>
    obtain ⟨v, v', rfl, rfl, hv⟩ := exactly_one h harity
    refine lift_bind hv.toItems fun items items' hitems => ?_
    rw [hitems.length_eq]
    exact .pure (.atom _)
  | listToVector =>
    obtain ⟨v, v', rfl, rfl, hv⟩ := exactly_one h harity
    exact lift_bind hv.toListItems fun _ _ hitems => Allocating.Alike.vector hitems
  | vectorToList =>
    obtain ⟨v, v', rfl, rfl, hv⟩ := exactly_one h harity
    exact lift_bind hv.toItems fun _ _ hitems => Allocating.Alike.list hitems
  | raise => exact .fail _ _

end StandardNative

end RegisterScheme
