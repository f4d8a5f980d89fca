import Mathlib.Data.Nat.Digits.Defs
import RegisterScheme.Proofs.Token.Extents
import RegisterScheme.Proofs.Token.Layout
import RegisterScheme.Proofs.Token.Spelling

/-! Literals of integers: a sign or none and digits of one of two bases. What they denote is said
here without any reading. -/

namespace RegisterScheme

/-- The base of a literal. The sign of a hexadecimal one may be a capital letter. -/
inductive Radix where
  | decimal
  | hexadecimal (capital : Bool)
deriving DecidableEq, Repr

inductive Sign where
  | none
  | plus
  | minus
deriving DecidableEq, Repr

namespace Radix

/-- What stands in front of the sign. -/
def lead : Radix → List Char
  | decimal => []
  | hexadecimal false => ['#', 'x']
  | hexadecimal true => ['#', 'X']

def digits : Radix → List Char
  | decimal => "0123456789".toList
  | hexadecimal _ => "0123456789abcdef".toList

/-- The number that digits denote, the last one counting least. -/
def value (r : Radix) (cs : List Char) : Nat :=
  Nat.ofDigits r.digits.length (cs.reverse.map fun c => r.digits.idxOf c.toLower)

end Radix

namespace Sign

def chars : Sign → List Char
  | none => []
  | plus => ['+']
  | minus => ['-']

def apply : Sign → Nat → Int
  | minus, n => -n
  | _, n => n

end Sign

/-- The integers that are read. The magnitude of a hexadecimal one has to fit as well. -/
def Radix.Admits (r : Radix) (n : Int) : Prop :=
  Fits n ∧ (r = .decimal ∨ n ≠ -2 ^ 63)

namespace Radix

variable {r : Radix} {sign : Sign} {cs : List Char} {c : Char} {n : Int}

theorem value_eq_foldl {digit : Char → Nat}
    (h : ∀ c ∈ cs, digit c = r.digits.idxOf c.toLower) :
    cs.foldl (fun n c => r.digits.length * n + digit c) 0 = r.value cs := by
  have hmap : cs.reverse.map digit = cs.reverse.map fun c => r.digits.idxOf c.toLower :=
    List.map_congr_left fun c hc => h c (List.mem_reverse.mp hc)
  rw [value, Nat.ofDigits_eq_foldr, ← hmap, List.foldr_map, List.foldr_reverse]
  congr 1
  funext n c
  simp [Nat.add_comm]

theorem toNat_lt (h : c.toLower.toNat < 103) : c.toNat < 103 := by
  unfold Char.toLower at h
  split at h
  · rename_i hc
    have hle := UInt32.le_iff_toNat_le.mp hc.2
    exact Nat.lt_of_le_of_lt hle (by decide)
  · exact h

/-- A test of digits that are given. -/
theorem mem_digits_of_all (h : cs.all fun c => r.digits.contains c.toLower) :
    ∀ c ∈ cs, c.toLower ∈ r.digits := by
  simpa using h

theorem toNat_digits_lt {d : Char} (h : d ∈ r.digits) : d.toNat < 103 := by
  have hall : r.digits.all (·.toNat < 103) := by
    cases r <;> rfl
  exact of_decide_eq_true (List.all_eq_true.mp hall d h)

theorem isDigit_of_mem (h : c.toLower ∈ decimal.digits) :
    c.isDigit ∧ Decimal.digitValue c = decimal.digits.idxOf c.toLower := by
  have hall : ∀ n < 103, (Char.ofNat n).toLower ∈ decimal.digits → (Char.ofNat n).isDigit ∧
      Decimal.digitValue (.ofNat n) = decimal.digits.idxOf (Char.ofNat n).toLower := by decide
  have hc := hall c.toNat (toNat_lt (toNat_digits_lt h))
  rw [Char.ofNat_toNat] at hc
  exact hc h

theorem isHexDigit_of_mem {capital : Bool} (h : c.toLower ∈ (hexadecimal capital).digits) :
    Lexer.isHexDigit c ∧
      Lexer.hexDigitValue c = (hexadecimal capital).digits.idxOf c.toLower := by
  have hall : ∀ n < 103, (Char.ofNat n).toLower ∈ (hexadecimal capital).digits →
      Lexer.isHexDigit (.ofNat n) ∧ Lexer.hexDigitValue (.ofNat n) =
        (hexadecimal capital).digits.idxOf (Char.ofNat n).toLower := by
    cases capital <;> decide
  have hc := hall c.toNat (toNat_lt (toNat_digits_lt h))
  rw [Char.ofNat_toNat] at hc
  exact hc h

theorem natOfDigits_eq (h : ∀ c ∈ cs, c.toLower ∈ decimal.digits) :
    Decimal.natOfDigits cs = decimal.value cs :=
  value_eq_foldl fun c hc => (isDigit_of_mem (h c hc)).2

theorem natOfHexDigits_eq {capital : Bool}
    (h : ∀ c ∈ cs, c.toLower ∈ (hexadecimal capital).digits) :
    Lexer.natOfHexDigits cs = (hexadecimal capital).value cs :=
  value_eq_foldl fun c hc => (isHexDigit_of_mem (h c hc)).2

end Radix

theorem toInt_neg {v : Int64} (h : v.toInt ≠ -2 ^ 63) : (-v).toInt = -v.toInt := by
  have hmin : -2 ^ 63 ≤ v.toInt := v.minValue_le_toInt
  have hmax := v.toInt_lt
  rw [Int64.toInt_neg]
  apply Int.bmod_eq_of_le <;> omega

namespace Sign

variable {sign : Sign} {digits : List Char}

theorem splitSign_chars (sign : Sign) (hne : digits ≠ [])
    (h : ∀ c ∈ digits, c ≠ '-' ∧ c ≠ '+') :
    Decimal.splitSign (sign.chars ++ digits) = (decide (sign = minus), digits) := by
  cases sign with
  | none =>
    obtain ⟨d, ds, rfl⟩ := List.exists_cons_of_ne_nil hne
    have hd := h d List.mem_cons_self
    simp [chars, Decimal.splitSign, hd]
  | plus => rfl
  | minus => rfl

theorem signed_eq (sign : Sign) (n : Nat) :
    Decimal.signed (decide (sign = minus)) n = sign.apply n := by
  cases sign <;> rfl

end Sign

namespace Lexer

variable {options : ReadOptions} {c : Char} {cs : List Char} {kind : Token.Kind}

theorem tokenize_of_lexeme (htoken : AtToken (c :: cs)) (h : lexeme c cs = .ok (kind, cs.length))
    (hk : kind ≠ .datumComment) (origin : String) :
    tokenize options origin (String.ofList (c :: cs)) = .ok [⟨kind, ⟨.start, origin⟩⟩] := by
  rw [tokenize, String.toList_ofList, scan_cons htoken h hk, List.drop_length, scan_nil]
  rfl

theorem tokenize_of_unreadable {e : Unreadable} (htoken : AtToken (c :: cs))
    (h : lexeme c cs = .error e) (origin : String) :
    tokenize options origin (String.ofList (c :: cs)) =
      .error ⟨e.cause, some e.found, some ⟨.start, origin⟩⟩ := by
  have hfault : Fault options [] (c :: cs) e.cause (some e.found) := .unreadable .nil htoken h
  rw [tokenize, String.toList_ofList]
  exact hfault.scan .start []

/-- A decimal literal is an atom. -/
theorem lexeme_decimal (sign : Sign) {digits : List Char} (hne : digits ≠ [])
    (h : ∀ c ∈ digits, c.toLower ∈ Radix.decimal.digits) :
    ∃ c cs, sign.chars ++ digits = c :: cs ∧ AtToken (c :: cs) ∧
      (∀ v, fixnum? (sign.apply (Radix.decimal.value digits)) = some v →
        lexeme c cs = .ok (.literal (.integer v), cs.length)) ∧
      (fixnum? (sign.apply (Radix.decimal.value digits)) = none →
        ∃ found, lexeme c cs = .error ⟨.integerOutOfRange, found⟩) := by
  have hdigits : ∀ c ∈ digits, c.isDigit := fun c hc => (Radix.isDigit_of_mem (h c hc)).1
  have hsplit := sign.splitSign_chars hne fun c hc => by
    constructor <;> rintro rfl <;> exact absurd (hdigits _ hc) (by decide)
  have hatom := atom_digits hsplit hne hdigits
  rw [Radix.natOfDigits_eq h, sign.signed_eq] at hatom
  have hchars : ∀ c ∈ sign.chars ++ digits, isAtomChar c ∧ c ≠ '#' := by
    intro c hc
    rcases List.mem_append.mp hc with hc | hc
    · cases sign <;> simp_all [Sign.chars] <;> decide
    · refine ⟨isAtomChar_of_isDigit (hdigits c hc), ?_⟩
      rintro rfl
      exact absurd (hdigits _ hc) (by decide)
  obtain ⟨c, cs, hcs⟩ :=
    List.exists_cons_of_ne_nil (List.append_ne_nil_of_right_ne_nil sign.chars hne)
  rw [hcs] at hatom hchars
  have hc := hchars c List.mem_cons_self
  have hmore : cs.takeWhile isAtomChar = cs :=
    List.takeWhile_eq_self_iff.mpr fun d hd => (hchars d (List.mem_cons_of_mem _ hd)).1
  have hlexeme : lexeme c cs = atomLexeme c cs := lexeme_of_isAtomChar hc.1 hc.2
  rw [atomLexeme, hmore, hc.1] at hlexeme
  refine ⟨c, cs, hcs, atToken_of_isAtomChar hc.1 hc.2, fun v hv => ?_, fun hnone => ?_⟩
  · rw [hlexeme, hatom, hv]
    rfl
  · rw [hlexeme, hatom, hnone]
    exact ⟨_, rfl⟩

/-- The sign is applied to a magnitude that is read already. -/
theorem hexadecimal_digits (sign : Sign) {capital : Bool} {digits : List Char} (hne : digits ≠ [])
    (h : ∀ c ∈ digits, c.toLower ∈ (Radix.hexadecimal capital).digits) :
    (∀ v, fixnum? ((Radix.hexadecimal capital).value digits) = some v →
      hexadecimal (sign.chars ++ digits) =
        .ok (if sign = .minus then -v else v, (sign.chars ++ digits).length)) ∧
    (fixnum? ((Radix.hexadecimal capital).value digits) = none →
      hexadecimal (sign.chars ++ digits) = .error .integerOutOfRange) := by
  have hdigits : ∀ c ∈ digits, isHexDigit c := fun c hc => (Radix.isHexDigit_of_mem (h c hc)).1
  have hsplit := sign.splitSign_chars hne fun c hc => by
    constructor <;> rintro rfl <;> exact absurd (hdigits _ hc) (by decide)
  have htake : digits.takeWhile isHexDigit = digits := List.takeWhile_eq_self_iff.mpr hdigits
  have hempty : digits.isEmpty = false := by simpa using hne
  rw [hexadecimal, hsplit]
  dsimp only
  rw [htake, hempty, if_neg Bool.false_ne_true, List.drop_length, Radix.natOfHexDigits_eq h]
  constructor
  · intro v hv
    rw [hv]
    simp [atDelimiter]
  · intro hnone
    rw [hnone]
    rfl

theorem lexeme_hexadecimal (sign : Sign) (capital : Bool) {digits : List Char} (hne : digits ≠ [])
    (h : ∀ c ∈ digits, c.toLower ∈ (Radix.hexadecimal capital).digits) :
    ∃ x, (Radix.hexadecimal capital).lead = ['#', x] ∧
      AtToken ('#' :: x :: (sign.chars ++ digits)) ∧
      (∀ v, fixnum? ((Radix.hexadecimal capital).value digits) = some v →
        lexeme '#' (x :: (sign.chars ++ digits)) =
          .ok (.literal (.integer (if sign = .minus then -v else v)),
            (x :: (sign.chars ++ digits)).length)) ∧
      (fixnum? ((Radix.hexadecimal capital).value digits) = none →
        ∃ found, lexeme '#' (x :: (sign.chars ++ digits)) =
          .error ⟨.integerOutOfRange, found⟩) := by
  obtain ⟨hfits, hbeyond⟩ := hexadecimal_digits sign hne h
  have hlead : ∃ x, (x = 'x' ∨ x = 'X') ∧ (Radix.hexadecimal capital).lead = ['#', x] := by
    cases capital with
    | false => exact ⟨'x', .inl rfl, rfl⟩
    | true => exact ⟨'X', .inr rfl, rfl⟩
  obtain ⟨x, hx, hlead⟩ := hlead
  have hbar : x ≠ '|' := by rcases hx with rfl | rfl <;> decide
  refine ⟨x, hlead, atToken_hash x _ hbar, fun v hv => ?_, fun hnone => ?_⟩
  · rcases hx with rfl | rfl <;> rw [lexeme_hash, hashLexeme, hfits v hv] <;> rfl
  · refine ⟨excerpt ('#' :: x :: (sign.chars ++ digits)), ?_⟩
    rcases hx with rfl | rfl <;> rw [lexeme_hash, hashLexeme, hbeyond hnone] <;> rfl

end Lexer

end RegisterScheme
