import RegisterScheme.Program
import RegisterScheme.Proofs.Token.Spelling

/-! The tokens that spell a datum are read as an expression that stands for the datum, wherever a
datum may begin, if its parts do not lie too deep. -/

namespace RegisterScheme

theorem malformedFailure_eq_ok {α : Type} {r : Except Malformed α} {a : α}
    (h : malformedFailure r = .ok a) : r = .ok a := by
  cases r with
  | error m => cases h
  | ok b => exact congrArg Except.ok (Except.ok.inj h)

theorem malformedFailure_eq_error {α : Type} {r : Except Malformed α} {e : Failure}
    (h : malformedFailure r = .error e) : ∃ m, r = .error m ∧ e = .error (.malformed m) := by
  cases r with
  | error m => exact ⟨m, rfl, (Except.error.inj h).symm⟩
  | ok a => cases h

namespace Datum

mutual

/-- How much deeper than a datum its deepest part lies in the text. -/
def depth : Datum → Nat
  | atom _ => 0
  | pair car cdr => max (car.depth + 1) cdr.tailDepth
  | vector items => depthOfItems items

/-- The same for what stands behind the first item of a list, measured from the list. -/
def tailDepth : Datum → Nat
  | atom .nil => 0
  | atom _ => 1
  | pair car cdr => max (car.depth + 1) cdr.tailDepth
  | vector items => depthOfItems items + 1

def depthOfItems : List Datum → Nat
  | [] => 0
  | d :: ds => max (d.depth + 1) (depthOfItems ds)

end

theorem tailDepth_atom {a : Atom} (h : a ≠ .nil) : (atom a).tailDepth = 1 := by
  cases a with
  | nil => exact absurd rfl h
  | _ => rw [tailDepth]; simp

theorem listWithTail_append (items more : List Datum) (tail : Datum) :
    listWithTail (items ++ more) tail = listWithTail items (listWithTail more tail) :=
  List.foldr_append

end Datum

namespace Sexpr

theorem toData_append (ss ss' : List Sexpr) : toData (ss ++ ss') = toData ss ++ toData ss' := by
  induction ss with
  | nil => rfl
  | cons s ss ih => rw [List.cons_append, toData, ih, toData, List.cons_append]

theorem toData_reverse_cons (s : Sexpr) (ss : List Sexpr) :
    toData (s :: ss).reverse = toData ss.reverse ++ [s.toDatum] := by
  rw [List.reverse_cons, toData_append, toData, toData]

/-- Splicing a tail that is a list keeps the datum. -/
theorem toDatum_joined (items : List Sexpr) (tail : Sexpr) (location : Location) :
    (Reader.joined items tail location).toDatum =
      .listWithTail (toData items) tail.toDatum := by
  cases tail with
  | list more l | dotted more last l =>
    rw [Reader.joined, toDatum, toDatum, toData_append, Datum.listWithTail_append]
  | literal | identifier | vector => rfl

end Sexpr

namespace Reader

variable {limit : Nat} {r : Reader} {t : Token} {kinds kinds' : List Token.Kind}
  {P Q : Reader → Prop} {done : List Sexpr} {outer : List OpenForm} {d : Datum}
  {location : Location} {items : List Sexpr}

/-- A datum may begin here: the innermost form is no list whose tail is read. -/
def Open (r : Reader) : Prop :=
  match r.pending with
  | .tail .. :: _ => False
  | _ => True

/-- Any tokens of these kinds are read, and lead to a reader with a property. -/
def Reads (limit : Nat) (kinds : List Token.Kind) (r : Reader) (P : Reader → Prop) : Prop :=
  ∀ tokens : List Token, tokens.map Token.kind = kinds →
    ∃ r', tokens.foldlM (step limit) r = .ok r' ∧ P r'

/-- A datum is read into the innermost form. -/
def Finished (done : List Sexpr) (outer : List OpenForm) (d : Datum) (r : Reader) : Prop :=
  ∃ s : Sexpr, s.toDatum = d ∧ r = complete done s outer

theorem Reads.append (h : Reads limit kinds r P) (h' : ∀ r', P r' → Reads limit kinds' r' Q) :
    Reads limit (kinds ++ kinds') r Q := by
  intro tokens htokens
  obtain ⟨ts, ts', rfl, hts, hts'⟩ := List.map_eq_append_iff.mp htokens
  obtain ⟨r', hfold, hP⟩ := h ts hts
  obtain ⟨r'', hfold', hQ⟩ := h' r' hP ts' hts'
  refine ⟨r'', ?_, hQ⟩
  rw [List.foldlM_append, hfold]
  exact hfold'

theorem Reads.cons {kind : Token.Kind}
    (h : ∀ t : Token, t.kind = kind → ∃ r', r.step limit t = .ok r' ∧ Reads limit kinds r' P) :
    Reads limit (kind :: kinds) r P := by
  intro tokens htokens
  obtain ⟨t, ts, rfl, ht, hts⟩ := List.map_eq_cons_iff.mp htokens
  obtain ⟨r', hstep, hreads⟩ := h t ht
  obtain ⟨r'', hfold, hP⟩ := hreads ts hts
  refine ⟨r'', ?_, hP⟩
  rw [List.foldlM_cons, hstep]
  exact hfold

theorem Reads.nil (h : P r) : Reads limit [] r P := by
  intro tokens htokens
  rw [List.map_eq_nil_iff] at htokens
  subst htokens
  exact ⟨r, rfl, h⟩

theorem Reads.one {kind : Token.Kind}
    (h : ∀ t : Token, t.kind = kind → ∃ r', r.step limit t = .ok r' ∧ P r') :
    Reads limit [kind] r P := by
  refine .cons fun t ht => ?_
  obtain ⟨r', hstep, hP⟩ := h t ht
  exact ⟨r', hstep, .nil hP⟩

/-- The reader behind a token with which a datum begins. -/
def begun? (r : Reader) (t : Token) : Option Reader :=
  match t.kind with
  | .opening b => some (r.opened (.list b t.location (r.depth + 1) []))
  | .openVector => some (r.opened (.vector t.location (r.depth + 1) []))
  | .mark m => some (r.opened (.quoted m t.location (r.depth + 1) false))
  | .literal a => some (complete r.done (.literal a (some t.location)) r.pending)
  | .identifier name => some (complete r.done (.identifier name (some t.location)) r.pending)
  | _ => none

/-- Where a datum may begin, only its depth is checked. -/
theorem step_of_begun? {r' : Reader} (hr : r.Open) (hlimit : r.depth < limit)
    (h : r.begun? t = some r') : r.step limit t = .ok r' := by
  have hbegin : r.step limit t = r.begin limit t := by
    unfold step
    unfold begun? at h
    split at h <;> rename_i ht <;> first | cases h; done | rw [ht]
  rw [hbegin]
  unfold begin
  split
  · rename_i hpending
    rw [Open, hpending] at hr
    exact hr.elim
  · rw [checkDepth, if_pos hlimit]
    unfold begun? at h
    split at h <;> rename_i ht <;> cases h <;> rw [ht] <;> rfl

/-- An atom is read as itself. -/
theorem reads_atom (a : Atom) (hr : r.Open) (hlimit : r.depth < limit) :
    Reads limit a.kinds r (Finished r.done r.pending (.atom a)) := by
  have hliteral : Reads limit [.literal a] r (Finished r.done r.pending (.atom a)) :=
    .one fun t ht => ⟨_, step_of_begun? hr hlimit (by rw [begun?, ht]), _, rfl, rfl⟩
  cases a with
  | nil =>
    refine .cons fun t ht => ⟨_, step_of_begun? hr hlimit (by rw [begun?, ht]), ?_⟩
    refine .one fun t' ht' => ⟨_, ?_, .list [] t.location, rfl, rfl⟩
    rw [step, ht']
    rfl
  | symbol name =>
    rw [Atom.kinds]
    split
    · exact hliteral
    · exact .one fun t ht => ⟨_, step_of_begun? hr hlimit (by rw [begun?, ht]), _, rfl, rfl⟩
  | _ => exact hliteral

/-- What stands behind the dot of a list. -/
theorem reads_dotted (hitems : items ≠ []) {k : Nat}
    (h : ∀ dot, Reads limit kinds ⟨done, .dot .round location k items dot :: outer⟩
      (Finished done (.dot .round location k items dot :: outer) d)) :
    Reads limit (.dot :: (kinds ++ [.closing .round]))
      ⟨done, .list .round location k items :: outer⟩
      (Finished done outer (.listWithTail (Sexpr.toData items.reverse) d)) := by
  refine .cons fun t ht => ⟨⟨done, .dot .round location k items t.location :: outer⟩, ?_, ?_⟩
  · obtain ⟨s, ss, rfl⟩ := List.exists_cons_of_ne_nil hitems
    rw [step, ht]
    rfl
  · refine (h t.location).append ?_
    rintro _ ⟨s, hs, rfl⟩
    refine .one fun t' ht' => ⟨_, ?_, Reader.joined items.reverse s location, ?_, rfl⟩
    · rw [step, ht']
      rfl
    · rw [Sexpr.toDatum_joined, hs]

theorem reads_vector {ds : List Datum} (hr : r.Open) (hlimit : r.depth < limit)
    (h : ∀ location, Reads limit (Datum.itemKinds ds)
      ⟨r.done, .vector location (r.depth + 1) [] :: r.pending⟩
      (Finished r.done r.pending (.vector ds))) :
    Reads limit (.openVector :: Datum.itemKinds ds) r (Finished r.done r.pending (.vector ds)) :=
  .cons fun t ht => ⟨_, step_of_begun? hr hlimit (by rw [begun?, ht]; rfl), h t.location⟩

mutual

/-- The tokens of a datum are read as the datum. -/
theorem reads_datum (d : Datum) (r : Reader) (hr : r.Open) {k : Nat} (hk : r.depth = k)
    (hlimit : k + d.depth < limit) : Reads limit d.kinds r (Finished r.done r.pending d) := by
  subst hk
  cases d with
  | atom a =>
    rw [Datum.kinds]
    exact reads_atom a hr hlimit
  | pair car cdr =>
    rw [Datum.depth] at hlimit
    rw [Datum.kinds]
    refine .cons fun t ht => ⟨_, step_of_begun? hr (by omega) (by rw [begun?, ht]), ?_⟩
    refine (reads_datum car ⟨r.done, .list .round t.location (r.depth + 1) [] :: r.pending⟩ trivial
      (k := r.depth + 1) rfl (by omega)).append ?_
    rintro _ ⟨s, rfl, rfl⟩
    exact reads_tail cdr r.done t.location r.depth [s] r.pending (by simp) (by omega)
  | vector items =>
    rw [Datum.depth] at hlimit
    rw [Datum.kinds]
    exact reads_vector hr (by omega) fun location =>
      reads_items items r.done location r.depth [] r.pending hlimit

/-- The tokens behind an item of a list are read as the rest of the list. -/
theorem reads_tail (d : Datum) (done : List Sexpr) (location : Location) (k : Nat)
    (items : List Sexpr) (outer : List OpenForm) (hitems : items ≠ [])
    (hlimit : k + d.tailDepth < limit) :
    Reads limit d.tailKinds ⟨done, .list .round location (k + 1) items :: outer⟩
      (Finished done outer (.listWithTail (Sexpr.toData items.reverse) d)) := by
  cases d with
  | atom a =>
    by_cases ha : a = .nil
    · rw [ha, Datum.tailKinds]
      refine .one fun t ht => ⟨_, ?_, .list items.reverse location, rfl, rfl⟩
      rw [step, ht]
      rfl
    · rw [Datum.tailDepth_atom ha] at hlimit
      rw [Datum.tailKinds_atom ha]
      exact reads_dotted hitems fun dot => reads_atom a trivial hlimit
  | pair car cdr =>
    rw [Datum.tailDepth] at hlimit
    rw [Datum.tailKinds]
    refine (reads_datum car ⟨done, .list .round location (k + 1) items :: outer⟩ trivial
      (k := k + 1) rfl (by omega)).append ?_
    rintro _ ⟨s, rfl, rfl⟩
    have h := reads_tail cdr done location k (s :: items) outer (by simp) (by omega)
    rw [Sexpr.toData_reverse_cons, Datum.listWithTail_append] at h
    exact h
  | vector ds =>
    rw [Datum.tailDepth] at hlimit
    rw [Datum.tailKinds]
    exact reads_dotted hitems fun dot => reads_vector trivial (show k + 1 < limit by omega)
      fun location' => reads_items ds done location' (k + 1) [] _ (by omega)

theorem reads_items (ds : List Datum) (done : List Sexpr) (location : Location) (k : Nat)
    (items : List Sexpr) (outer : List OpenForm) (hlimit : k + Datum.depthOfItems ds < limit) :
    Reads limit (Datum.itemKinds ds) ⟨done, .vector location (k + 1) items :: outer⟩
      (Finished done outer (.vector (Sexpr.toData items.reverse ++ ds))) := by
  cases ds with
  | nil =>
    rw [Datum.itemKinds, List.append_nil]
    refine .one fun t ht => ⟨_, ?_, .vector items.reverse location, rfl, rfl⟩
    rw [step, ht]
    rfl
  | cons d ds =>
    rw [Datum.depthOfItems] at hlimit
    rw [Datum.itemKinds]
    refine (reads_datum d ⟨done, .vector location (k + 1) items :: outer⟩ trivial
      (k := k + 1) rfl (by omega)).append ?_
    rintro _ ⟨s, rfl, rfl⟩
    have h := reads_items ds done location k (s :: items) outer (by omega)
    rw [Sexpr.toData_reverse_cons, List.append_assoc] at h
    exact h

end

end Reader

namespace Sexpr

variable {limit : Nat} {d : Datum} {tokens : List Token}

theorem readAll_of_foldlM {s : Sexpr}
    (h : tokens.foldlM (Reader.step limit) .start = .ok ⟨[s], []⟩) :
    readAll limit tokens = .ok [s] := by
  rw [readAll, h]
  rfl

/-- The tokens of a datum are read as this datum alone. -/
theorem readAll_kinds (h : tokens.map Token.kind = d.kinds) (hlimit : d.depth < limit) :
    ∃ s, readAll limit tokens = .ok [s] ∧ s.toDatum = d := by
  have hread : Reader.Reads limit d.kinds .start (Reader.Finished [] [] d) :=
    Reader.reads_datum d .start trivial (k := 0) rfl (by omega)
  obtain ⟨_, hfold, s, hs, rfl⟩ := hread tokens h
  exact ⟨s, readAll_of_foldlM hfold, hs⟩

/-- A quote mark in front of them makes a quotation, in which the datum lies one deeper. -/
theorem readAll_quoted (h : tokens.map Token.kind = .mark .quote :: d.kinds)
    (hlimit : d.depth + 1 < limit) :
    ∃ s place, readAll limit tokens = .ok [.list [.identifier "quote" place, s] place] ∧
      s.toDatum = d := by
  obtain ⟨t, ts, rfl, ht, hts⟩ := List.map_eq_cons_iff.mp h
  have hmark : Reader.start.step limit t =
      .ok ⟨[], [.quoted .quote t.location 1 false]⟩ :=
    Reader.step_of_begun? trivial (show 0 < limit by omega) (by rw [Reader.begun?, ht]; rfl)
  have hread : Reader.Reads limit d.kinds ⟨[], [.quoted .quote t.location 1 false]⟩
      (Reader.Finished [] [.quoted .quote t.location 1 false] d) :=
    Reader.reads_datum d _ trivial (k := 1) rfl (by omega)
  obtain ⟨_, hfold, s, hs, rfl⟩ := hread ts hts
  refine ⟨s, some t.location, readAll_of_foldlM ?_, hs⟩
  rw [List.foldlM_cons, hmark]
  exact hfold

variable {options : ReadOptions}

/-- The text of a datum is read as the datum. -/
theorem ofText_text (hd : d.Readable) (hlimit : d.depth < options.maxDepth) (origin : String) :
    ∃ s, ofText options origin d.text = .ok [s] ∧ s.toDatum = d := by
  obtain ⟨tokens, htokens, hkinds⟩ := Datum.tokenize_text hd options origin
  obtain ⟨s, hread, hs⟩ := readAll_kinds hkinds hlimit
  exact ⟨s, by rw [ofText, htokens]; exact congrArg malformedFailure hread, hs⟩

theorem ofText_quoted (hd : d.Readable) (hlimit : d.depth + 1 < options.maxDepth)
    (origin : String) : ∃ s place, ofText options origin ("'" ++ d.text) =
      .ok [.list [.identifier "quote" place, s] place] ∧ s.toDatum = d := by
  obtain ⟨tokens, htokens, hkinds⟩ := Datum.tokenize_quoted hd options origin
  obtain ⟨s, place, hread, hs⟩ := readAll_quoted hkinds hlimit
  exact ⟨s, place, by rw [ofText, htokens]; exact congrArg malformedFailure hread, hs⟩

end Sexpr

end RegisterScheme
