import RegisterScheme.Proofs.Outcome
import RegisterScheme.Proofs.Token.Integers

/-! Literals of integers denote their values exactly, or are refused. One value is refused only in
one of the bases. -/

namespace RegisterScheme

open Lexer

/-- A literal is read as the one token of the integer that it denotes, if that is one of 64 bits,
and fails otherwise. The least of them is refused if it is hexadecimal. -/
theorem tokenize_integer (options : ReadOptions) (origin : String) (r : Radix) (sign : Sign)
    {digits : List Char} (hne : digits ≠ []) (h : ∀ c ∈ digits, c.toLower ∈ r.digits) :
    let text := String.ofList (r.lead ++ (sign.chars ++ digits))
    let n := sign.apply (r.value digits)
    (r.Admits n → ∃ v : Int64, v.toInt = n ∧
      tokenize options origin text = .ok [⟨.literal (.integer v), ⟨.start, origin⟩⟩]) ∧
    (¬ r.Admits n → ∃ e, tokenize options origin text = .error e ∧ e.cause = .integerOutOfRange ∧
      e.cause.kind = .beyondLimit ∧ e.location = some ⟨.start, origin⟩) := by
  intro text n
  cases r with
  | decimal =>
    obtain ⟨c, cs, htext, htoken, hread, hrefused⟩ := lexeme_decimal sign hne h
    have hlead : text = String.ofList (c :: cs) := congrArg String.ofList htext
    rw [hlead]
    constructor
    · intro hn
      obtain ⟨v, hv, hvn⟩ := fixnum?_of_fits hn.1
      exact ⟨v, hvn, tokenize_of_lexeme htoken (hread v hv) (by simp) origin⟩
    · intro hn
      have hnone : fixnum? n = none := fixnum?_of_not_fits fun hfits => hn ⟨hfits, .inl rfl⟩
      obtain ⟨found, hlexeme⟩ := hrefused hnone
      exact ⟨_, tokenize_of_unreadable htoken hlexeme origin, rfl, rfl, rfl⟩
  | hexadecimal capital =>
    obtain ⟨x, hx, htoken, hread, hrefused⟩ := lexeme_hexadecimal sign capital hne h
    have hlead : text = String.ofList ('#' :: x :: (sign.chars ++ digits)) :=
      congrArg (fun lead => String.ofList (lead ++ (sign.chars ++ digits))) hx
    rw [hlead]
    -- The magnitude fits exactly if the integer is admitted.
    have hadmits : (Radix.hexadecimal capital).Admits n ↔
        Fits ((Radix.hexadecimal capital).value digits) := by
      cases sign with
      | minus =>
        simp [Radix.Admits, Fits, Sign.apply, n]
        omega
      | _ => simp [Radix.Admits, Fits, Sign.apply, n]
    constructor
    · intro hn
      obtain ⟨v, hv, hvm⟩ := fixnum?_of_fits (hadmits.mp hn)
      refine ⟨_, ?_, tokenize_of_lexeme htoken (hread v hv) (by simp) origin⟩
      have hneg := toInt_neg (v := v) (by omega)
      cases sign <;> simp [Sign.apply, hvm, hneg, n]
    · intro hn
      obtain ⟨found, hlexeme⟩ := hrefused (fixnum?_of_not_fits fun hfits => hn (hadmits.mpr hfits))
      exact ⟨_, tokenize_of_unreadable htoken hlexeme origin, rfl, rfl, rfl⟩

/-- The least integer in decimal digits with a zero in front, and the next one in hexadecimal
ones. -/
theorem tokenize_integer_least :
    (∃ v : Int64, v.toInt = -2 ^ 63 ∧ tokenize .standard "text" "-09223372036854775808" =
      .ok [⟨.literal (.integer v), ⟨.start, "text"⟩⟩]) ∧
    (∃ v : Int64, v.toInt = -2 ^ 63 + 1 ∧ tokenize .standard "text" "#X-7fffFFFFffffFFFF" =
      .ok [⟨.literal (.integer v), ⟨.start, "text"⟩⟩]) ∧
    ∃ e, tokenize .standard "text" "+9223372036854775808" = .error e ∧
      e.cause.kind = .beyondLimit := by
  obtain ⟨hleast, -⟩ := tokenize_integer .standard "text" .decimal .minus
    (show "09223372036854775808".toList ≠ [] by decide) (Radix.mem_digits_of_all (by decide))
  obtain ⟨hnext, -⟩ := tokenize_integer .standard "text" (.hexadecimal true) .minus
    (show "7fffFFFFffffFFFF".toList ≠ [] by decide) (Radix.mem_digits_of_all (by decide))
  obtain ⟨-, hbeyond⟩ := tokenize_integer .standard "text" .decimal .plus
    (show "9223372036854775808".toList ≠ [] by decide) (Radix.mem_digits_of_all (by decide))
  have hleastValue : Radix.decimal.value "09223372036854775808".toList = 2 ^ 63 := by rfl
  have hnextValue : (Radix.hexadecimal true).value "7fffFFFFffffFFFF".toList = 2 ^ 63 - 1 := by rfl
  have hbeyondValue : Radix.decimal.value "9223372036854775808".toList = 2 ^ 63 := by rfl
  rw [hleastValue] at hleast
  rw [hnextValue] at hnext
  rw [hbeyondValue] at hbeyond
  obtain ⟨v, hv, hread⟩ := hleast (by simp [Radix.Admits, Fits, Sign.apply])
  obtain ⟨w, hw, hread'⟩ := hnext (by simp [Radix.Admits, Fits, Sign.apply])
  obtain ⟨e, herror, -, hkind, -⟩ := hbeyond (by simp [Radix.Admits, Fits, Sign.apply])
  exact ⟨⟨v, hv, hread⟩, ⟨w, hw, hread'⟩, e, herror, hkind⟩

/-- A hexadecimal literal of the least integer is refused, though the integer fits and the decimal
literal of it is read. -/
theorem tokenize_leastHexadecimal :
    Sign.minus.apply ((Radix.hexadecimal false).value "8000000000000000".toList) =
        Int64.minValue.toInt ∧
      (∃ e, tokenize .standard "text" "#x-8000000000000000" = .error e ∧
        e.cause = .integerOutOfRange) ∧
      tokenize .standard "text" "-9223372036854775808" =
        .ok [⟨.literal (.integer .minValue), ⟨.start, "text"⟩⟩] := by
  have hrefused : tokenize .standard "text" "#x-8000000000000000" =
      .error ⟨.integerOutOfRange, some "#x-8000000000000000", some ⟨.start, "text"⟩⟩ :=
    error_of_map (f := fun _ => ()) (by decide +kernel)
  have hlexeme : lexeme '-' "9223372036854775808".toList =
      .ok (.literal (.integer .minValue), 19) := by rfl
  have htoken : AtToken ('-' :: "9223372036854775808".toList) :=
    atToken_of_isAtomChar (by decide) (by decide)
  exact ⟨rfl, ⟨_, hrefused, rfl⟩, tokenize_of_lexeme htoken hlexeme (by simp) "text"⟩

end RegisterScheme
