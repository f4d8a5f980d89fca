import RegisterScheme.Proofs.Outcome
import RegisterScheme.Proofs.Token.Layout
import RegisterScheme.Proofs.Token.Lines

/-! Where the tokens of a text lie: each at the first byte of the text that is read as it, and nothing
but blanks and comments in between. -/

namespace RegisterScheme

/-- The place behind a text: its bytes and its newlines are counted, and its characters from the last
newline on. The index of lines finds it. -/
structure Location.Marks (index : LineIndex) (before : List Char) (l : Location) : Prop where
  offset : l.offset = String.utf8Len before
  line : l.line = 1 + before.count '\n'
  column : l.column = 1 + (before.rtakeWhile (· != '\n')).length
  located : index.locate l.offset = l

theorem Location.marks {origin text : String} {before rest : List Char} {c : Char}
    (htext : text.toList = before ++ c :: rest) (hsize : text.utf8ByteSize < 2 ^ 32) :
    Marks (.ofText origin text) before ⟨Position.start.advance before, origin⟩ := by
  have hoffset := Position.offset_start_advance before
  refine ⟨hoffset, Position.line_advance before, Position.column_advance before, ?_⟩
  rw [hoffset]
  exact LineIndex.locate_ofText origin htext hsize

/-- A character of a text begins at a whole number of characters. -/
theorem Location.Points.isValid {origin text : String} {l : Location}
    (h : l.Points origin text.toList) : String.Pos.Raw.IsValid text ⟨l.offset⟩ := by
  obtain ⟨-, before, c, rest, htext, hposition⟩ := h
  rw [String.Pos.Raw.isValid_iff_exists_append]
  refine ⟨String.ofList before, String.ofList (c :: rest), ?_, ?_⟩
  · rw [← String.ofList_append, ← htext, String.ofList_toList]
  · rw [hposition, Position.offset_start_advance, ← String.utf8ByteSize_ofList]
    rfl

namespace Lexer

/-- Behind `before` come a gap and a token, and so on up to the end. The text of a token is read as the
token where it stands and also alone, and the token tells the place of it. -/
inductive Exact (options : ReadOptions) (index : LineIndex) :
    List Char → List Char → List Token → Prop
  | ended {before rest : List Char} (h : Trailing options.comments rest) :
      Exact options index before rest []
  | token {before gap own rest : List Char} {c : Char} {t : Token} {tokens : List Token}
      (hgap : Gap options.comments gap) (hplace : t.location.Marks index (before ++ gap))
      (hhere : lexeme c (own ++ rest) = .ok (t.kind, own.length))
      (halone : lexeme c own = .ok (t.kind, own.length))
      (h : Exact options index (before ++ (gap ++ c :: own)) rest tokens) :
      Exact options index before (gap ++ c :: own ++ rest) (t :: tokens)

variable {options : ReadOptions} {origin text : String} {before own after : List Char}
  {tokens : List Token}

theorem Laid.exact (h : Laid options origin after before own tokens)
    (hafter : Trailing options.comments after) (htext : text.toList = before ++ (own ++ after))
    (hsize : text.utf8ByteSize < 2 ^ 32) :
    Exact options (.ofText origin text) before (own ++ after) tokens := by
  induction h with
  | nil => exact .ended hafter
  | @token before gap own more c _ _ hgap hlexeme _ _ ih =>
    have hhere : text.toList = before ++ gap ++ c :: (own ++ (more ++ after)) := by
      simpa only [List.append_assoc, List.cons_append] using htext
    have halone : lexeme c (own ++ []) = _ := lexeme_replace hlexeme (.inl rfl)
    rw [List.append_nil] at halone
    rw [List.append_assoc]
    exact .token hgap (Location.marks hhere hsize) hlexeme halone
      (ih (by simpa only [List.append_assoc] using htext))

/-- The tokens of a row lie behind what stands in front of it, one behind the other. -/
theorem Laid.increasing (h : Laid options origin after before own tokens) :
    (∀ t ∈ tokens, String.utf8Len before ≤ t.location.offset) ∧
      (tokens.map (·.location.offset)).Pairwise (· < ·) := by
  induction h with
  | nil => exact ⟨by simp, .nil⟩
  | @token before gap own more c kind tokens _ _ _ _ ih =>
    obtain ⟨hlater, hpairwise⟩ := ih
    have hpos := c.utf8Size_pos
    have hbehind : String.utf8Len (before ++ gap) < String.utf8Len (before ++ (gap ++ c :: own)) := by
      simp only [String.utf8Len_append, String.utf8Len_cons]
      omega
    have hfront : String.utf8Len before ≤ String.utf8Len (before ++ gap) := by
      rw [String.utf8Len_append]
      omega
    have hoffset := Position.offset_start_advance (before ++ gap)
    refine ⟨List.forall_mem_cons.mpr ⟨?_, ?_⟩, ?_⟩
    · exact hoffset ▸ hfront
    · intro t ht
      have htoken := hlater t ht
      omega
    · refine List.pairwise_cons.mpr ⟨?_, hpairwise⟩
      intro n hn
      obtain ⟨t, ht, rfl⟩ := List.mem_map.mp hn
      have htoken := hlater t ht
      dsimp only
      omega

end Lexer

open Lexer

/-- The tokens of a text are laid out in it just as their places tell. They lie one behind the other,
and each where a character of the text begins. -/
theorem tokenize_exact {options : ReadOptions} {origin text : String} {tokens : List Token}
    (h : tokenize options origin text = .ok tokens) (hsize : text.utf8ByteSize < 2 ^ 32) :
    Exact options (.ofText origin text) [] text.toList tokens ∧
      (tokens.map (·.location.offset)).Pairwise (· < ·) ∧
      ∀ t ∈ tokens, t.location.offset < text.utf8ByteSize ∧
        String.Pos.Raw.IsValid text ⟨t.location.offset⟩ := by
  have hscanned := tokenize_scanned h
  have hpoints := tokenize_inText options origin text
  rw [h] at hpoints
  generalize hcs : text.toList = cs at hscanned
  cases hscanned with
  | ended hlaid htrailing =>
    refine ⟨hlaid.exact htrailing hcs hsize, hlaid.increasing.2, ?_⟩
    intro t ht
    exact ⟨(hpoints t ht).offset_lt, (hpoints t ht).isValid⟩

/-- Two lines, of which the second has a character of two bytes. -/
theorem tokenize_exact_twoLines : ∃ tokens,
    tokenize .standard "file" "(a\n  bé c)" = .ok tokens ∧ "(a\n  bé c)".utf8ByteSize < 2 ^ 32 ∧
      tokens.map (·.location.toPosition) =
        [⟨1, 1, 0⟩, ⟨1, 2, 1⟩, ⟨2, 3, 5⟩, ⟨2, 6, 9⟩, ⟨2, 7, 10⟩] ∧
      Exact .standard (.ofText "file" "(a\n  bé c)") [] "(a\n  bé c)".toList tokens ∧
      (tokens.map (·.location.offset)).Pairwise (· < ·) ∧
      ∀ t ∈ tokens, t.location.offset < "(a\n  bé c)".utf8ByteSize ∧
        String.Pos.Raw.IsValid "(a\n  bé c)" ⟨t.location.offset⟩ := by
  have hplaces : ((tokenize .standard "file" "(a\n  bé c)").toOption.map fun tokens =>
      tokens.map (·.location.toPosition)) =
        some [⟨1, 1, 0⟩, ⟨1, 2, 1⟩, ⟨2, 3, 5⟩, ⟨2, 6, 9⟩, ⟨2, 7, 10⟩] := by decide +kernel
  obtain ⟨tokens, htokens, hplaces⟩ := Option.map_eq_some_iff.mp hplaces
  have htext := ok_of_toOption htokens
  have hsize : "(a\n  bé c)".utf8ByteSize < 2 ^ 32 := by decide
  exact ⟨tokens, htext, hsize, hplaces, tokenize_exact htext hsize⟩

end RegisterScheme
