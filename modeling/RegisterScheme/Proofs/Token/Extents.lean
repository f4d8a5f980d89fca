import Mathlib.Data.List.TakeWhile
import RegisterScheme.Proofs.Token.Spelling

/-! How far a token reaches. A recogniser takes its own characters and looks at no more than the next
one, so it takes the same where the text that follows begins alike, or delimits the token. -/

namespace RegisterScheme

namespace Lexer

/-- What follows a token may be replaced: it begins alike, or with a delimiter. -/
def Replaces (ds rest : List Char) : Prop :=
  atDelimiter ds ∨ ds.head? = rest.head?

/-- A recogniser takes as many characters from the front of the text, whatever replaces the rest. -/
def Takes {ε α : Type} (recognise : List Char → Except ε (α × Nat)) (cs : List Char) (a : α)
    (size : Nat) : Prop :=
  ∃ own rest, cs = own ++ rest ∧ own.length = size ∧
    ∀ ds, Replaces ds rest → recognise (own ++ ds) = .ok (a, size)

variable {c : Char} {cs ds own rest read : List Char} {kind : Token.Kind} {size n : Nat}

theorem Replaces.atDelimiter (h : Replaces ds rest) (hr : atDelimiter rest) : atDelimiter ds := by
  rcases h with h | h
  · exact h
  · cases ds with
    | nil => rfl
    | cons d ds =>
      obtain ⟨more, rfl⟩ := List.head?_eq_some_iff.mp h.symm
      exact hr

theorem Replaces.append (h : Replaces ds rest) : Replaces (cs ++ ds) (cs ++ rest) := by
  cases cs with
  | nil => exact h
  | cons c cs => exact .inr rfl

/-- Characters of a kind that no delimiter is of, as many as there are. -/
theorem exists_takeWhile {inside : Char → Bool} (hi : ∀ c, isDelimiter c → inside c = false)
    (cs : List Char) : ∃ own rest, cs = own ++ rest ∧ cs.takeWhile inside = own ∧
      ∀ ds, Replaces ds rest → (own ++ ds).takeWhile inside = own := by
  refine ⟨cs.takeWhile inside, cs.dropWhile inside, List.takeWhile_append_dropWhile.symm, rfl, ?_⟩
  intro ds hds
  have hown : ∀ c ∈ cs.takeWhile inside, inside c := fun c hc => List.mem_takeWhile_imp hc
  rcases hds with hds | hds
  · exact atDelimiter_takeWhile _ hds hi hown
  · rw [List.takeWhile_append_of_pos hown]
    have hrest := List.head?_dropWhile_not inside cs
    rw [← hds] at hrest
    cases ds with
    | nil => simp
    | cons d ds =>
      have hd : inside d = false := by simpa using hrest
      simp [hd]

/-! ### Literals -/

/-- A string ends with its closing quote, whatever follows. -/
theorem stringBody_eq_ok {s : String} (h : stringBody cs read n = .ok (s, size)) :
    ∃ own rest, cs = own ++ rest ∧ size = n + own.length ∧
      ∀ ds, stringBody (own ++ ds) read n = .ok (s, size) := by
  fun_induction stringBody cs read n with
  | case1 rest read n =>
    cases h
    exact ⟨['"'], rest, rfl, rfl, fun ds => by simp [stringBody]⟩
  | case2 e cs read n c he ih =>
    obtain ⟨own, rest, rfl, rfl, hown⟩ := ih h
    refine ⟨'\\' :: e :: own, rest, rfl, by simp only [List.length_cons]; omega, ?_⟩
    intro ds
    rw [List.cons_append, List.cons_append, stringBody, he]
    exact hown ds
  | case3 => cases h
  | case4 => cases h
  | case5 c cs read n hquote hescape hlast ih =>
    obtain ⟨own, rest, rfl, rfl, hown⟩ := ih h
    refine ⟨c :: own, rest, rfl, by simp only [List.length_cons]; omega, ?_⟩
    intro ds
    have hbackslash : c ≠ '\\' := by
      rintro rfl
      cases hcs : own ++ rest with
      | nil => exact hlast rfl hcs
      | cons e more => exact hescape e more rfl hcs
    rw [List.cons_append, stringBody]
    · exact hown ds
    · exact hquote
    · exact fun _ _ hc => absurd hc hbackslash
    · exact fun hc => absurd hc hbackslash
  | case6 => cases h

theorem takes_character {a : Char} (h : character cs = .ok (a, size)) :
    Takes character cs a size := by
  cases cs with
  | nil => cases h
  | cons c cs =>
    obtain ⟨own, rest, rfl, htake, hown⟩ := exists_takeWhile (fun _ => isDelimiter_inside) cs
    refine ⟨c :: own, rest, rfl, ?_, ?_⟩
    · rw [character, htake] at h
      split at h
      · rename_i hempty
        cases h
        simpa using hempty
      · split at h
        · cases h
          simp [Nat.add_comm]
        · cases h
    · intro ds hds
      rw [character, htake] at h
      rw [List.cons_append, character, hown ds hds]
      exact h

theorem isHexDigit_of_isDelimiter (h : isDelimiter c) : isHexDigit c = false := by
  by_contra hne
  have hhex : isHexDigit c := by simpa using hne
  have hall : ∀ n < 103, isHexDigit (Char.ofNat n) → isDelimiter (Char.ofNat n) = false := by decide
  have hlt : c.toNat < 103 := by
    simp only [isHexDigit, Char.isDigit, Bool.or_eq_true, Bool.and_eq_true, decide_eq_true_eq] at hhex
    rcases hhex with (hhex | hhex) | hhex
    · exact Nat.lt_of_le_of_lt hhex.2 (by decide)
    · exact Nat.lt_of_le_of_lt hhex.2 (by decide)
    · exact Nat.lt_of_le_of_lt hhex.2 (by decide)
  have hc := hall c.toNat hlt
  rw [Char.ofNat_toNat] at hc
  rw [hc hhex] at h
  cases h

/-- A sign or none, told by the first character alone. -/
theorem exists_splitSign (cs : List Char) : ∃ negative sign body, cs = sign ++ body ∧
    ∀ ds, ds.head? = body.head? → Decimal.splitSign (sign ++ ds) = (negative, ds) := by
  cases cs with
  | nil =>
    refine ⟨false, [], [], rfl, ?_⟩
    intro ds hds
    rw [List.head?_eq_none_iff.mp hds]
    rfl
  | cons c cs =>
    by_cases hminus : c = '-'
    · exact ⟨true, ['-'], cs, by rw [hminus]; rfl, fun ds _ => rfl⟩
    by_cases hplus : c = '+'
    · exact ⟨false, ['+'], cs, by rw [hplus]; rfl, fun ds _ => rfl⟩
    refine ⟨false, [], c :: cs, rfl, ?_⟩
    intro ds hds
    obtain ⟨more, rfl⟩ := List.head?_eq_some_iff.mp hds
    rw [List.nil_append, Decimal.splitSign]
    · exact fun _ hc => hminus (List.cons.inj hc).1
    · exact fun _ hc => hplus (List.cons.inj hc).1

theorem takes_hexadecimal {a : Int64} (h : hexadecimal cs = .ok (a, size)) :
    Takes hexadecimal cs a size := by
  obtain ⟨negative, sign, body, rfl, hsign⟩ := exists_splitSign cs
  obtain ⟨digits, rest, rfl, htake, hdigits⟩ :=
    exists_takeWhile (fun _ => isHexDigit_of_isDelimiter) body
  unfold hexadecimal at h
  rw [hsign _ rfl] at h
  dsimp only at h
  rw [htake, List.drop_left] at h
  split at h
  · cases h
  rename_i hempty
  split at h
  · cases h
  rename_i hdelimiter
  split at h
  · cases h
  rename_i n hn
  have hrest : atDelimiter rest := by simpa using hdelimiter
  refine ⟨sign ++ digits, rest, by rw [List.append_assoc], ?_, ?_⟩
  · cases h
    simp only [List.length_append]
    omega
  · intro ds hds
    have hhead : (digits ++ ds).head? = (digits ++ rest).head? := by
      cases digits with
      | nil => exact absurd rfl hempty
      | cons d digits => rfl
    unfold hexadecimal
    rw [List.append_assoc, hsign _ hhead]
    dsimp only
    rw [hdigits ds hds, List.drop_left, if_neg hempty, hds.atDelimiter hrest, hn, ← h]
    simp only [List.length_append]
    have hsize : sign.length + (digits.length + ds.length) - (digits.length + ds.length) =
        sign.length + (digits.length + rest.length) - (digits.length + rest.length) := by omega
    rw [hsize]
    rfl

/-! ### Tokens -/

theorem takes_atomLexeme (h : atomLexeme c cs = .ok (kind, size)) :
    Takes (atomLexeme c) cs kind size := by
  obtain ⟨own, rest, rfl, htake, hown⟩ := exists_takeWhile (fun _ => isAtomChar_of_isDelimiter) cs
  rw [atomLexeme, htake] at h
  split at h
  · cases h
  · rename_i hc
    split at h
    · rename_i hatom
      cases h
      refine ⟨own, rest, rfl, rfl, ?_⟩
      intro ds hds
      rw [atomLexeme, hown ds hds, if_neg hc, hatom]
    · cases h

theorem atomLexeme_hash_ne_ok : atomLexeme '#' cs ≠ .ok (kind, size) := by
  intro h
  have hatom := (atomLexeme_eq_ok h).2
  unfold atom at hatom
  simp [looksNumeric, Decimal.splitSign] at hatom

/-- A literal behind a hash sign and one more character. -/
theorem takes_marked {α : Type} {recognise : List Char → Except Malformed.Cause (α × Nat)}
    (make : α → Token.Kind) (mark : Char)
    (hmark : ∀ more, hashLexeme (mark :: more) = ((recognise more).mapError fun cause =>
      ⟨cause, excerpt ('#' :: mark :: more)⟩).map fun r => (make r.1, r.2 + 1))
    (htakes : ∀ a n, recognise cs = .ok (a, n) → Takes recognise cs a n)
    (h : hashLexeme (mark :: cs) = .ok (kind, size)) : Takes hashLexeme (mark :: cs) kind size := by
  rw [hmark] at h
  obtain ⟨⟨a, n⟩, hrecognise, hkind⟩ := exists_of_map_mapError_eq_ok h
  obtain ⟨own, rest, rfl, rfl, hown⟩ := htakes a n hrecognise
  cases hkind
  refine ⟨mark :: own, rest, rfl, rfl, ?_⟩
  intro ds hds
  rw [List.cons_append, hmark, hown ds hds]
  rfl

theorem takes_hashLexeme (h : hashLexeme cs = .ok (kind, size)) :
    Takes hashLexeme cs kind size := by
  unfold hashLexeme at h
  dsimp only at h
  split at h
  · rename_i more
    cases h
    exact ⟨['('], more, rfl, rfl, fun ds _ => rfl⟩
  · rename_i more
    cases h
    exact ⟨[';'], more, rfl, rfl, fun ds _ => rfl⟩
  · exact takes_marked (.literal <| .integer ·) 'x' (fun _ => rfl) (fun _ _ => takes_hexadecimal) h
  · exact takes_marked (.literal <| .integer ·) 'X' (fun _ => rfl) (fun _ _ => takes_hexadecimal) h
  · exact takes_marked (.literal <| .character ·) '\\' (fun _ => rfl) (fun _ _ => takes_character) h
  · rename_i hround hsemicolon hx hX hbackslash
    obtain ⟨word, rest, rfl, htake, hword⟩ := exists_takeWhile (fun _ => isDelimiter_inside) cs
    rw [htake] at h
    split at h
    · rename_i b hb
      cases h
      refine ⟨word, rest, rfl, rfl, ?_⟩
      intro ds hds
      cases word with
      | nil => cases hb
      | cons c word =>
        rw [hashLexeme, hword ds hds, hb]
        all_goals
          intro more hmore
          cases hmore
          first
            | exact hround _ rfl
            | exact hsemicolon _ rfl
            | exact hx _ rfl
            | exact hX _ rfl
            | exact hbackslash _ rfl
    · exact absurd h atomLexeme_hash_ne_ok

theorem lexeme_unquote (h : cs.head? ≠ some '@') : lexeme ',' cs = .ok (.mark .unquote, 0) := by
  unfold lexeme
  split
  case h_7 =>
    split
    · exact absurd rfl h
    · rfl
  case h_10 hcomma _ _ => exact absurd rfl hcomma
  all_goals exact absurd ‹_ = _› (by decide)

theorem lexeme_string {s : String} (h : stringBody cs [] 0 = .ok (s, size)) :
    lexeme '"' cs = .ok (.literal (.string s), size) := by
  unfold lexeme
  rw [h]
  rfl

/-- A token takes the same characters, whatever replaces the rest. -/
theorem takes_lexeme (h : lexeme c cs = .ok (kind, size)) : Takes (lexeme c) cs kind size := by
  unfold lexeme at h
  split at h
  iterate 6
    · cases h
      exact ⟨[], cs, rfl, rfl, fun ds _ => rfl⟩
  · split at h
    · rename_i more
      cases h
      exact ⟨['@'], more, rfl, rfl, fun ds _ => rfl⟩
    · rename_i hat
      cases h
      refine ⟨[], cs, rfl, rfl, ?_⟩
      intro ds hds
      apply lexeme_unquote
      intro hhead
      obtain ⟨more, rfl⟩ := List.head?_eq_some_iff.mp hhead
      rcases hds with hds | hds
      · cases hds
      · obtain ⟨others, rfl⟩ := List.head?_eq_some_iff.mp hds.symm
        exact hat others rfl
  · split at h
    · rename_i hbody
      cases h
      obtain ⟨own, rest, rfl, hsize, hown⟩ := stringBody_eq_ok hbody
      exact ⟨own, rest, rfl, by omega, fun ds _ => lexeme_string (hown ds)⟩
    · cases h
  · obtain ⟨own, rest, rfl, hsize, hown⟩ := takes_hashLexeme h
    exact ⟨own, rest, rfl, hsize, fun ds hds => (lexeme_hash _).trans (hown ds hds)⟩
  · rename_i hne
    obtain ⟨hc, -⟩ := atomLexeme_eq_ok h
    obtain ⟨own, rest, rfl, hsize, hown⟩ := takes_atomLexeme h
    refine ⟨own, rest, rfl, hsize, ?_⟩
    intro ds hds
    rw [lexeme_of_isAtomChar hc hne]
    exact hown ds hds

theorem lexeme_replace (h : lexeme c (own ++ rest) = .ok (kind, own.length)) (hds : Replaces ds rest) :
    lexeme c (own ++ ds) = .ok (kind, own.length) := by
  obtain ⟨own', rest', happend, hlength, hown⟩ := takes_lexeme h
  obtain ⟨rfl, rfl⟩ := List.append_inj happend hlength.symm
  exact hown ds hds

/-! ### Where a token begins -/

theorem boolean?_eq_some {word : String} {b : Bool} (h : boolean? word = some b) :
    word ∈ ["true", "t", "false", "f"] := by
  unfold boolean? at h
  split at h
  case h_5 => cases h
  all_goals simp

/-- No block comment begins with a literal behind a hash sign. -/
theorem hashLexeme_bar : hashLexeme ('|' :: cs) ≠ .ok (kind, size) := by
  intro h
  rw [hashLexeme] at h
  split at h
  · rename_i hword
    have hbar : ∀ word ∈ ["true", "t", "false", "f"], word.toList.head? ≠ some '|' := by decide
    apply hbar _ (boolean?_eq_some hword)
    rw [String.toList_ofList]
    rfl
  · exact atomLexeme_hash_ne_ok h
  all_goals simp

/-- What is read as a token is not skipped. -/
theorem atToken_of_lexeme (h : lexeme c cs = .ok (kind, size)) : AtToken (c :: cs) := by
  unfold lexeme at h
  split at h
  case h_9 =>
    refine atToken_cons rfl (by decide) ?_
    intro _ hhead
    obtain ⟨more, rfl⟩ := List.head?_eq_some_iff.mp hhead
    exact hashLexeme_bar h
  case h_10 hne => exact atToken_of_isAtomChar (atomLexeme_eq_ok h).1 hne
  all_goals exact atToken_cons rfl (by decide) (fun hhash => absurd hhash (by decide))

theorem atom_ne_datumComment : atom cs ≠ .ok .datumComment := by
  intro h
  unfold atom at h
  repeat' split at h
  all_goals cases h

theorem hashLexeme_datumComment (h : hashLexeme cs = .ok (.datumComment, size)) :
    ∃ more, cs = ';' :: more := by
  unfold hashLexeme at h
  dsimp only at h
  split at h
  case h_2 more => exact ⟨more, rfl⟩
  case h_6 =>
    split at h
    · cases h
    · exact absurd h atomLexeme_hash_ne_ok
  case h_1 => cases h
  all_goals
    obtain ⟨_, -, hkind⟩ := exists_of_map_mapError_eq_ok h
    cases hkind

/-- Only a hash sign and a semicolon stand for the comment of a datum. -/
theorem lexeme_datumComment (h : lexeme c cs = .ok (.datumComment, size)) :
    ∃ more, c = '#' ∧ cs = ';' :: more := by
  unfold lexeme at h
  split at h
  case h_7 => split at h <;> cases h
  case h_8 => split at h <;> cases h
  case h_9 =>
    obtain ⟨more, rfl⟩ := hashLexeme_datumComment h
    exact ⟨more, rfl, rfl⟩
  case h_10 => exact absurd (atomLexeme_eq_ok h).2 atom_ne_datumComment
  all_goals cases h

/-! ### What cannot be read -/

theorem excerpt_prefix (cs : List Char) : (excerpt cs).toList <+: cs := by
  rw [excerpt, String.toList_ofList]
  exact (List.take_prefix _ _).trans (List.takeWhile_prefix _)

theorem atomLexeme_error {e : Unreadable} (h : atomLexeme c cs = .error e) :
    e.found.toList <+: c :: cs := by
  unfold atomLexeme at h
  dsimp only at h
  split at h
  · cases h
    exact excerpt_prefix _
  · split at h
    · cases h
    · cases h
      rw [String.toList_ofList]
      exact List.cons_prefix_cons.mpr ⟨rfl, List.takeWhile_prefix _⟩

theorem error_of_map_mapError {ε ε' α β : Type} {r : Except ε α} {f : ε → ε'} {g : α → β} {e : ε'}
    (h : (r.mapError f).map g = .error e) : ∃ cause, f cause = e := by
  cases r with
  | error cause => exact ⟨cause, Except.error.inj h⟩
  | ok a => cases h

theorem hashLexeme_error {e : Unreadable} (h : hashLexeme cs = .error e) :
    e.found.toList <+: '#' :: cs := by
  unfold hashLexeme at h
  dsimp only at h
  split at h
  case h_1 | h_2 => cases h
  case h_6 =>
    split at h
    · cases h
    · exact atomLexeme_error h
  all_goals
    obtain ⟨_, rfl⟩ := error_of_map_mapError h
    exact excerpt_prefix _

/-- The text to show is the beginning of what cannot be read. -/
theorem lexeme_error {e : Unreadable} (h : lexeme c cs = .error e) : e.found.toList <+: c :: cs := by
  unfold lexeme at h
  split at h
  case h_7 => split at h <;> cases h
  case h_8 =>
    split at h
    · cases h
    · cases h
      exact excerpt_prefix _
  case h_9 => exact hashLexeme_error h
  case h_10 => exact atomLexeme_error h
  all_goals cases h

end Lexer

end RegisterScheme
