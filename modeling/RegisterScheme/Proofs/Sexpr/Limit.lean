import RegisterScheme.Proofs.Outcome
import RegisterScheme.Proofs.Sexpr.Steps

/-! How much depth a reader needs. A smaller limit either changes nothing or makes the reader refuse
a datum for its depth. The depth never exceeds the number of tokens that were read. -/

namespace RegisterScheme

/-- The depth of the data inside a form. -/
def OpenForm.depth : OpenForm → Nat
  | .quoted _ _ d _ | .comment d | .list _ _ d _ | .dot _ _ d _ _ | .tail _ _ d _ _
  | .vector _ d _ => d

namespace Reader

variable {small large limit n : Nat} {r r' : Reader} {t : Token} {tokens : List Token}
  {e : Malformed}

/-- What a reader says of a datum at its limit. -/
def tooDeep (limit : Nat) (place : Option Location) : Malformed :=
  ⟨.nestedBeyond limit, none, place⟩

theorem checkDepth_error {place : Option Location} (h : checkDepth limit r place = .error e) :
    e = tooDeep limit place := by
  unfold checkDepth at h
  split at h
  · cases h
  · exact (Except.error.inj h).symm

/-- What is wrong with a token is not that the input ends. It lies there, or at the dot that the
token stands behind. -/
structure Faulty (r : Reader) (t : Token) (e : Malformed) : Prop where
  kind : e.cause.kind ≠ .incomplete
  place : e.location = some t.location ∨ ∃ b l d items dot outer,
    r.pending = .dot b l d items dot :: outer ∧ e.location = some dot

theorem faulty_here {cause : Malformed.Cause} (h : cause.kind ≠ .incomplete)
    (found : Option String) : Faulty r t ⟨cause, found, some t.location⟩ := ⟨h, .inl rfl⟩

theorem faulty_of_checkDepth (h : checkDepth limit r (some t.location) = .error e) :
    Faulty r t e := by
  rw [checkDepth_error h]
  exact faulty_here (by simp [Malformed.Cause.kind]) none

theorem begin_error (h : begin limit r t = .error e) : Faulty r t e := by
  unfold begin at h
  split at h
  · cases h
    exact faulty_here (by decide) _
  · rcases error_of_bind h with hdepth | ⟨_, -, hkind⟩
    · exact faulty_of_checkDepth hdepth
    · split at hkind
      case h_6 =>
        cases hkind
        exact faulty_here (by simp [Malformed.Cause.kind]) none
      case h_7 =>
        cases hkind
        exact faulty_here (by decide) none
      all_goals cases hkind

theorem matching_error {opened closed : Bracket}
    (h : (if opened = closed then Except.ok r' else fail (.mismatched opened closed)
      (some t.location)) = .error e) : Faulty r t e := by
  split at h
  · cases h
  · cases h
    exact faulty_here (by simp [Malformed.Cause.kind]) none

theorem faulty_dot {done items : List Sexpr} {b : Bracket} {l dot : Location} {d : Nat}
    {outer : List OpenForm} : Faulty ⟨done, .dot b l d items dot :: outer⟩ t
      ⟨.nothingAfterDot, none, some dot⟩ :=
  ⟨by simp [Malformed.Cause.kind], .inr ⟨b, l, d, items, dot, outer, rfl, rfl⟩⟩

theorem step_error (h : step limit r t = .error e) : Faulty r t e := by
  obtain ⟨done, pending⟩ := r
  unfold step at h
  split at h
  · unfold close at h
    split at h
    case h_4 hp =>
      obtain rfl : pending = _ := hp
      cases h
      exact faulty_dot
    case h_5 => exact begin_error h
    all_goals exact matching_error h
  · unfold dot at h
    split at h
    case h_2 => cases h
    case h_4 hp =>
      obtain rfl : pending = _ := hp
      cases h
      exact faulty_dot
    case h_5 => exact begin_error h
    all_goals
      cases h
      exact faulty_here (by decide) none
  · unfold comment at h
    split at h
    case h_2 =>
      rcases error_of_bind h with hdepth | ⟨_, -, hok⟩
      · exact faulty_of_checkDepth hdepth
      · cases hok
    case h_3 => exact begin_error h
    all_goals cases h
  · exact begin_error h

theorem checkDepth_of_le (h : small ≤ large) (place : Option Location) :
    checkDepth small r place = checkDepth large r place ∨
      checkDepth small r place = .error (tooDeep small place) := by
  unfold checkDepth
  by_cases hr : r.depth < small
  · rw [if_pos hr, if_pos (Nat.lt_of_lt_of_le hr h)]
    exact .inl rfl
  · rw [if_neg hr]
    exact .inr rfl

theorem begin_of_le (h : small ≤ large) : begin small r t = begin large r t ∨
    begin small r t = .error (tooDeep small (some t.location)) := by
  unfold begin
  split
  · exact .inl rfl
  · rcases checkDepth_of_le (r := r) h (some t.location) with hr | hr
    · rw [hr]
      exact .inl rfl
    · rw [hr]
      exact .inr rfl

theorem step_of_le (h : small ≤ large) : step small r t = step large r t ∨
    step small r t = .error (tooDeep small (some t.location)) := by
  have hbegin : begin small r t = begin large r t ∨ _ := begin_of_le h
  unfold step
  split
  · unfold close
    split
    case h_5 => exact hbegin
    all_goals exact .inl rfl
  · unfold dot
    split
    case h_5 => exact hbegin
    all_goals exact .inl rfl
  · unfold comment
    split
    case h_2 =>
      rcases checkDepth_of_le (r := r) h (some t.location) with hr | hr
      · rw [hr]
        exact .inl rfl
      · rw [hr]
        exact .inr rfl
    case h_3 => exact hbegin
    all_goals exact .inl rfl
  · exact hbegin

theorem finish_of_le (h : small ≤ large) (last : Option Location) :
    finish small last r = finish large last r ∨
      finish small last r = .error (tooDeep small none) := by
  unfold finish
  split
  case h_8 =>
    rcases checkDepth_of_le (r := r) h none with hr | hr
    · rw [hr]
      exact .inl rfl
    · rw [hr]
      exact .inr rfl
  all_goals exact .inl rfl

theorem finish_eq_ok {last : Option Location} {ss : List Sexpr}
    (h : finish limit last r = .ok ss) : r.pending = [] ∧ ss = r.done.reverse := by
  unfold finish at h
  split at h
  case h_1 hp => exact ⟨hp, (Except.ok.inj h).symm⟩
  case h_8 =>
    unfold checkDepth at h
    split at h
    · cases h
    · cases h
  all_goals cases h

/-- The end of input is the only error there, unless a comment covers a datum that lies too deep. -/
theorem finish_error {last : Option Location} (h : finish limit last r = .error e) :
    e.cause.kind = .incomplete ∨
      e = tooDeep limit none ∧ limit ≤ r.depth ∧ ∃ d outer, r.pending = .comment d :: outer := by
  unfold finish at h
  split at h
  case h_1 => cases h
  case h_8 =>
    rename_i d outer hp
    unfold checkDepth at h
    split at h
    · cases h
      exact .inl rfl
    · cases h
      exact .inr ⟨rfl, Nat.le_of_not_lt (by assumption), d, outer, hp⟩
  all_goals
    cases h
    exact .inl rfl

/-- No token is a datum that lies too deep. -/
theorem step_of_deep {d : Nat} {outer : List OpenForm} (hp : r.pending = .comment d :: outer)
    (hr : limit ≤ r.depth) (t : Token) :
    step limit r t = .error (tooDeep limit (some t.location)) := by
  have hbegin : begin limit r t = .error (tooDeep limit (some t.location)) := by
    unfold begin
    rw [hp]
    dsimp only
    rw [checkDepth, if_neg (Nat.not_lt.mpr hr)]
    rfl
  unfold step
  split
  · rw [close, hp]
    exact hbegin
  · rw [dot, hp]
    exact hbegin
  · rw [comment, hp]
    exact hbegin
  · exact hbegin

theorem foldlM_of_le (h : small ≤ large) (tokens : List Token) (r : Reader) :
    tokens.foldlM (step small) r = tokens.foldlM (step large) r ∨
      ∃ place, tokens.foldlM (step small) r = .error (tooDeep small place) := by
  induction tokens generalizing r with
  | nil => exact .inl rfl
  | cons t tokens ih =>
    rw [List.foldlM_cons, List.foldlM_cons]
    rcases step_of_le (r := r) (t := t) h with hs | hs
    · rw [hs]
      cases step large r t with
      | error e => exact .inl rfl
      | ok r' => exact ih r'
    · rw [hs]
      exact .inr ⟨_, rfl⟩

/-- What each token that is taken keeps, given the tokens before it, a whole run keeps. -/
theorem foldlM_keeps {P : List Token → Reader → Prop}
    (hstep : ∀ before r t r', P before r → step limit r t = .ok r' → P (before ++ [t]) r')
    (before : List Token) (hr : P before r) (h : tokens.foldlM (step limit) r = .ok r') :
    P (before ++ tokens) r' := by
  induction tokens generalizing before r with
  | nil =>
    cases h
    rwa [List.append_nil]
  | cons t tokens ih =>
    rw [List.foldlM_cons] at h
    obtain ⟨next, hs, hrest⟩ := ok_of_bind h
    have hnext := ih _ (hstep before r t next hr hs) hrest
    rwa [List.append_assoc] at hnext

/-- No open form holds data deeper than `n`. -/
def Within (n : Nat) (pending : List OpenForm) : Prop :=
  ∀ form ∈ pending, form.depth ≤ n

theorem depth_cons (done : List Sexpr) (form : OpenForm) (outer : List OpenForm) :
    depth ⟨done, form :: outer⟩ = form.depth := by
  cases form <;> rfl

theorem Within.depth_le (h : Within n r.pending) : r.depth ≤ n := by
  obtain ⟨done, pending⟩ := r
  cases pending with
  | nil => exact Nat.zero_le n
  | cons form outer =>
    rw [depth_cons]
    exact h form List.mem_cons_self

theorem Within.head {form : OpenForm} {outer : List OpenForm} (h : Within n (form :: outer)) :
    form.depth ≤ n :=
  h form List.mem_cons_self

theorem Within.outer {form : OpenForm} {outer : List OpenForm} (h : Within n (form :: outer)) :
    Within n outer :=
  fun f hf => h f (List.mem_cons_of_mem form hf)

theorem Within.cons {form : OpenForm} {outer : List OpenForm} (hf : form.depth ≤ n)
    (h : Within n outer) : Within n (form :: outer) :=
  List.forall_mem_cons.mpr ⟨hf, h⟩

theorem Within.mono {m : Nat} {pending : List OpenForm} (h : Within n pending) (hm : n ≤ m) :
    Within m pending :=
  fun f hf => Nat.le_trans (h f hf) hm

theorem Within.complete {pending : List OpenForm} (h : Within n pending) (done : List Sexpr)
    (s : Sexpr) : Within n (complete done s pending).pending := by
  induction pending generalizing s with
  | nil => exact h
  | cons form outer ih =>
    cases form with
    | quoted => exact ih h.outer _
    | comment => exact h.outer
    | list | dot | vector | tail => exact .cons h.head h.outer

theorem Within.noted {pending : List OpenForm} (h : Within n pending) :
    Within n (noted pending) := by
  unfold Reader.noted
  split
  · exact .cons h.head h.outer
  · exact h

theorem Within.takes (h : Within n r.pending) (ht : Takes r t r') :
    Within (n + 1) r'.pending := by
  have hmono : Within (n + 1) r.pending := h.mono (Nat.le_succ n)
  have hdepth : r.depth + 1 ≤ n + 1 := Nat.succ_le_succ h.depth_le
  cases ht with
  | datum free begins =>
    unfold begun? at begins
    split at begins
    · cases begins
      exact .cons hdepth hmono
    · cases begins
      exact .cons hdepth hmono
    · cases begins
      exact .cons hdepth hmono
    · cases begins
      exact hmono.complete _ _
    · cases begins
      exact hmono.complete _ _
    · cases begins
  | list | tail | vector => exact hmono.outer.complete _ _
  | dot => exact .cons hmono.head hmono.outer
  | comment => exact .cons (Nat.le_trans (commentDepth_le r) hdepth) hmono.noted

/-- So many tokens make data at most so deep. -/
theorem within_of_foldlM (h : tokens.foldlM (step limit) start = .ok r) :
    Within tokens.length r.pending := by
  have hall := foldlM_keeps (P := fun before r => Within before.length r.pending)
    (fun before r t r' hr hs => by
      rw [List.length_append]
      exact hr.takes (takes_of_step hs))
    [] (by simp [Within, start]) h
  rwa [List.nil_append] at hall

end Reader

end RegisterScheme
