import RegisterScheme.Token.Lexer

/-! How tokens follow each other in a text. The text in front of a rest is read as certain tokens, and
reading goes on with the rest, whatever comes before. -/

namespace RegisterScheme

namespace Lexer

variable {options : ReadOptions} {origin : String} {c : Char} {cs ds rest : List Char}
  {kinds kinds' : List Token.Kind}

/-- Neither a blank nor a comment stands here. -/
def AtToken (cs : List Char) : Prop :=
  ∀ comments n, skip comments .blanks cs n = .ok n

theorem atToken_cons (hspace : isSpace c = false) (hline : c ≠ ';')
    (hblock : c = '#' → cs.head? ≠ some '|') : AtToken (c :: cs) := by
  intro comments n
  rw [skip, hspace]
  · rfl
  · exact hline
  · rintro more hc rfl
    exact hblock hc rfl

theorem skip_space (h : AtToken cs) (comments : Bool) :
    skip comments .blanks (' ' :: cs) 0 = .ok 1 :=
  h comments 1

/-- What is read from a text that has no blanks before its first token. -/
theorem scan_cons (h : AtToken (c :: cs)) {kind : Token.Kind} {size : Nat}
    (hl : lexeme c cs = .ok (kind, size)) (hk : kind ≠ .datumComment) (p : Position)
    (read : List Token) : scan options origin p (c :: cs) read =
      scan options origin (p.advance (c :: cs.take size)) (cs.drop size)
        (⟨kind, ⟨p, origin⟩⟩ :: read) := by
  rw [scan, h options.comments 0]
  simp only [List.take_zero, Position.advance_nil]
  split
  · rename_i hnil
    cases hnil
  · rename_i hcons
    cases hcons
    rw [hl]
    cases kind with
    | datumComment => exact absurd rfl hk
    | _ => rfl

theorem scan_nil (p : Position) (read : List Token) :
    scan options origin p [] read = .ok read.reverse := by
  rw [scan]
  rfl

theorem scan_space (h : AtToken cs) (p : Position) (read : List Token) :
    scan options origin p (' ' :: cs) read = scan options origin (p.next ' ') cs read := by
  rw [scan, scan, skip_space h, h options.comments 0]
  rfl

/-- The text up to a rest is read as tokens of the given kinds. -/
def Lexes (options : ReadOptions) (origin : String) (cs rest : List Char)
    (kinds : List Token.Kind) : Prop :=
  ∀ p read, ∃ (q : Position) (tokens : List Token), scan options origin p cs read =
    scan options origin q rest (tokens.reverse ++ read) ∧ tokens.map Token.kind = kinds

theorem Lexes.trans (h : Lexes options origin cs ds kinds)
    (h' : Lexes options origin ds rest kinds') :
    Lexes options origin cs rest (kinds ++ kinds') := by
  intro p read
  obtain ⟨q, tokens, hscan, hkinds⟩ := h p read
  obtain ⟨q', tokens', hscan', hkinds'⟩ := h' q (tokens.reverse ++ read)
  refine ⟨q', tokens ++ tokens', ?_, ?_⟩
  · rw [hscan, hscan', List.reverse_append, List.append_assoc]
  · rw [List.map_append, hkinds, hkinds']

theorem Lexes.space (h : AtToken cs) : Lexes options origin (' ' :: cs) cs [] :=
  fun p read => ⟨p.next ' ', [], scan_space h p read, rfl⟩

theorem Lexes.token {kind : Token.Kind} (size : Nat) (h : AtToken (c :: cs))
    (hl : lexeme c cs = .ok (kind, size)) (hk : kind ≠ .datumComment) (hr : cs.drop size = rest) :
    Lexes options origin (c :: cs) rest [kind] :=
  fun p read => ⟨_, [⟨kind, ⟨p, origin⟩⟩], by rw [scan_cons h hl hk, hr]; rfl, rfl⟩

/-- A whole text. -/
theorem Lexes.tokenize {text : String} (h : Lexes options origin text.toList [] kinds) :
    ∃ tokens, tokenize options origin text = .ok tokens ∧ tokens.map Token.kind = kinds := by
  obtain ⟨q, tokens, hscan, hkinds⟩ := h .start []
  refine ⟨tokens, ?_, hkinds⟩
  rw [RegisterScheme.tokenize, hscan, scan_nil, List.append_nil, List.reverse_reverse]

theorem atDelimiter_takeWhile {inside : Char → Bool} (cs : List Char) (h : atDelimiter rest)
    (hi : ∀ c, isDelimiter c → inside c = false) (hcs : ∀ c ∈ cs, inside c) :
    (cs ++ rest).takeWhile inside = cs := by
  rw [List.takeWhile_append_of_pos hcs]
  cases rest with
  | nil => simp
  | cons d rest => rw [List.takeWhile_cons_of_neg (by rw [hi d h]; exact Bool.false_ne_true), List.append_nil]

theorem isAtomChar_of_isDelimiter (h : isDelimiter c) : isAtomChar c = false := by
  rw [isAtomChar, h]
  rfl

theorem isDelimiter_of_isSpace (h : isSpace c) : isDelimiter c := by
  simp only [isSpace, Bool.or_eq_true, beq_iff_eq] at h
  rcases h with ((rfl | rfl) | rfl) | rfl <;> decide

theorem isDelimiter_of_isAtomChar (h : isAtomChar c) : isDelimiter c = false := by
  cases hd : isDelimiter c with
  | false => rfl
  | true => rw [isAtomChar_of_isDelimiter hd] at h; cases h

theorem isSpace_of_isAtomChar (h : isAtomChar c) : isSpace c = false := by
  cases hs : isSpace c with
  | false => rfl
  | true =>
    have hd := isDelimiter_of_isSpace hs
    rw [isDelimiter_of_isAtomChar h] at hd
    cases hd

end Lexer

end RegisterScheme
