import RegisterScheme.Proofs.Token.Extents
import RegisterScheme.Proofs.Token.Gaps

/-! A text is a row of tokens, each behind a gap, up to where it ends or cannot be read any further.
What the text is read as follows from how it is laid out, and each text is laid out in such a way. -/

namespace RegisterScheme

namespace Lexer

/-- Tokens one after the other, each behind a gap. Their places count from the beginning of `before`,
which stands in front of the text, and `after` is what follows it. -/
inductive Laid (options : ReadOptions) (origin : String) (after : List Char) :
    List Char → List Char → List Token → Prop
  | nil {before : List Char} : Laid options origin after before [] []
  | token {before gap own more : List Char} {c : Char} {kind : Token.Kind} {tokens : List Token}
      (hgap : Gap options.comments gap)
      (hlexeme : lexeme c (own ++ (more ++ after)) = .ok (kind, own.length))
      (hkind : kind = .datumComment → options.comments)
      (h : Laid options origin after (before ++ (gap ++ c :: own)) more tokens) :
      Laid options origin after before (gap ++ c :: own ++ more)
        (⟨kind, ⟨Position.start.advance (before ++ gap), origin⟩⟩ :: tokens)

/-- Where a text cannot be read any further: why, with what text to show, and which rest of the text
is blamed. A comment that is refused is blamed together with the blanks and comments before it. -/
inductive Fault (options : ReadOptions) :
    List Char → List Char → Malformed.Cause → Option String → Prop
  | refused {gap rest : List Char} {cause : Malformed.Cause} (hgap : Gap options.comments gap)
      (h : Refused options.comments rest cause) : Fault options [] (gap ++ rest) cause none
  | unreadable {gap more : List Char} {c : Char} {e : Unreadable} (hgap : Gap options.comments gap)
      (htoken : AtToken (c :: more)) (h : lexeme c more = .error e) :
      Fault options gap (c :: more) e.cause (some e.found)
  | disabled {gap more : List Char} (hgap : Gap options.comments gap)
      (hcomments : options.comments = false) :
      Fault options gap ('#' :: ';' :: more) .commentsDisabled none

/-- What a text is read as, behind `before` and the tokens that are read of it. -/
inductive Scanned (options : ReadOptions) (origin : String) (before : List Char) (read : List Token) :
    List Char → Except Malformed (List Token) → Prop
  | ended {text trailing : List Char} {tokens : List Token}
      (h : Laid options origin trailing before text tokens)
      (htrailing : Trailing options.comments trailing) :
      Scanned options origin before read (text ++ trailing) (.ok (read.reverse ++ tokens))
  | fault {text lead rest : List Char} {tokens : List Token} {cause : Malformed.Cause}
      {found : Option String} (h : Laid options origin (lead ++ rest) before text tokens)
      (hfault : Fault options lead rest cause found) :
      Scanned options origin before read (text ++ (lead ++ rest))
        (.error ⟨cause, found, some ⟨Position.start.advance (before ++ (text ++ lead)), origin⟩⟩)

variable {options : ReadOptions} {origin : String} {c : Char}
  {cs ds gap own more rest lead before after text : List Char} {kind : Token.Kind}
  {tokens read : List Token} {cause : Malformed.Cause} {found : Option String}

/-! ### One step -/

/-- What comes of a text that is not refused: the first token behind the gap is looked at. -/
theorem scan_gap (hgap : Gap options.comments gap) (htoken : AtToken (c :: more)) (p : Position)
    (read : List Token) : scan options origin p (gap ++ c :: more) read =
      match lexeme c more with
      | .error e => .error ⟨e.cause, some e.found, some ⟨p.advance gap, origin⟩⟩
      | .ok (.datumComment, size) =>
        if options.comments then
          scan options origin ((p.advance gap).advance (c :: more.take size)) (more.drop size)
            (⟨.datumComment, ⟨p.advance gap, origin⟩⟩ :: read)
        else .error ⟨.commentsDisabled, none, some ⟨p.advance gap, origin⟩⟩
      | .ok (kind, size) =>
        scan options origin ((p.advance gap).advance (c :: more.take size)) (more.drop size)
          (⟨kind, ⟨p.advance gap, origin⟩⟩ :: read) := by
  have hskip : skip options.comments .blanks (gap ++ c :: more) 0 = .ok gap.length := by
    rw [hgap.skip_append, htoken, Nat.zero_add]
  rw [scan, hskip]
  dsimp only
  rw [List.take_left]
  split
  · rename_i hnil
    rw [List.drop_left] at hnil
    cases hnil
  · rename_i hcons
    rw [List.drop_left] at hcons
    cases hcons
    rfl

theorem scan_token (hgap : Gap options.comments gap)
    (hlexeme : lexeme c (own ++ rest) = .ok (kind, own.length))
    (hkind : kind = .datumComment → options.comments) (p : Position) (read : List Token) :
    scan options origin p (gap ++ c :: own ++ rest) read =
      scan options origin (p.advance (gap ++ c :: own)) rest
        (⟨kind, ⟨p.advance gap, origin⟩⟩ :: read) := by
  rw [List.append_assoc, List.cons_append, scan_gap hgap (atToken_of_lexeme hlexeme), hlexeme]
  cases kind with
  | datumComment =>
    dsimp only
    rw [if_pos (hkind rfl), List.take_left, List.drop_left, Position.advance_append]
  | _ =>
    dsimp only
    rw [List.take_left, List.drop_left, Position.advance_append]

theorem scan_trailing (h : Trailing options.comments cs) (p : Position) (read : List Token) :
    scan options origin p cs read = .ok read.reverse := by
  rw [scan, h.skip_eq]
  dsimp only
  split
  · rfl
  · rename_i hcons
    rw [Nat.zero_add, List.drop_length] at hcons
    cases hcons

theorem Fault.scan (h : Fault options lead rest cause found) (p : Position) (read : List Token) :
    scan options origin p (lead ++ rest) read =
      .error ⟨cause, found, some ⟨p.advance lead, origin⟩⟩ := by
  cases h with
  | refused hgap h =>
    rw [Lexer.scan, List.nil_append, hgap.skip_append, h.skip_eq]
    rfl
  | unreadable hgap htoken h => rw [scan_gap hgap htoken, h]
  | @disabled _ more hgap hcomments =>
    have hlexeme : lexeme '#' (';' :: more) = .ok (.datumComment, 1) := rfl
    rw [scan_gap hgap (atToken_of_lexeme hlexeme), hlexeme]
    dsimp only
    rw [hcomments, if_neg Bool.false_ne_true]

/-! ### A row of tokens -/

theorem Laid.replace (h : Laid options origin after before text tokens) (hds : Replaces ds after) :
    Laid options origin ds before text tokens := by
  induction h with
  | nil => exact .nil
  | token hgap hlexeme hkind _ ih =>
    exact .token hgap (lexeme_replace hlexeme hds.append) hkind ih

theorem Lexes.refl (cs : List Char) : Lexes options origin cs cs [] :=
  fun p _ => ⟨p, [], rfl, rfl⟩

theorem Lexes.gap_token (hgap : Gap options.comments gap)
    (hlexeme : lexeme c (own ++ rest) = .ok (kind, own.length))
    (hkind : kind = .datumComment → options.comments) :
    Lexes options origin (gap ++ c :: own ++ rest) rest [kind] :=
  fun p read => ⟨_, [⟨kind, ⟨p.advance gap, origin⟩⟩], scan_token hgap hlexeme hkind p read, rfl⟩

/-- A row of tokens is read as these tokens, also behind one more gap. If there are none, the gap is
left. -/
theorem Laid.lexes (h : Laid options origin after before text tokens)
    (hgap : Gap options.comments gap) : ∃ left, Gap options.comments left ∧
      Lexes options origin (gap ++ (text ++ after)) (left ++ after) (tokens.map Token.kind) := by
  induction h generalizing gap with
  | nil => exact ⟨gap, hgap, .refl _⟩
  | @token _ gap' own more c kind tokens hgap' hlexeme hkind _ ih =>
    obtain ⟨left, hleft, hmore⟩ := ih .nil
    refine ⟨left, hleft, ?_⟩
    have htoken : Lexes options origin (gap ++ gap' ++ c :: own ++ (more ++ after)) (more ++ after)
        [kind] := .gap_token (hgap.append hgap') hlexeme hkind
    have hall := htoken.trans hmore
    simpa only [List.append_assoc, List.singleton_append, List.map_cons] using hall

theorem Fault.of_gap (hgap : Gap options.comments gap) (h : Fault options lead rest cause found) :
    ∃ lead' rest', gap ++ (lead ++ rest) = lead' ++ rest' ∧ Fault options lead' rest' cause found := by
  cases h with
  | @refused gap' rest _ hgap' h =>
    exact ⟨[], gap ++ gap' ++ rest, by simp, .refused (hgap.append hgap') h⟩
  | unreadable hgap' htoken h =>
    exact ⟨gap ++ lead, _, (List.append_assoc _ _ _).symm, .unreadable (hgap.append hgap') htoken h⟩
  | disabled hgap' hcomments =>
    exact ⟨gap ++ lead, _, (List.append_assoc _ _ _).symm, .disabled (hgap.append hgap') hcomments⟩

theorem Scanned.of_token {p : Position} {r : Except Malformed (List Token)}
    (hgap : Gap options.comments gap) (hlexeme : lexeme c (own ++ rest) = .ok (kind, own.length))
    (hkind : kind = .datumComment → options.comments)
    (hp : p = Position.start.advance (before ++ gap))
    (h : Scanned options origin (before ++ (gap ++ c :: own)) (⟨kind, ⟨p, origin⟩⟩ :: read) rest r) :
    Scanned options origin before read (gap ++ c :: own ++ rest) r := by
  cases h with
  | @ended more trailing tokens h htrailing =>
    have hlaid := Laid.token hgap hlexeme hkind h
    have hended : Scanned options origin before read _ _ := .ended hlaid htrailing
    simpa only [List.reverse_cons, List.append_assoc, List.singleton_append, hp] using hended
  | @fault more lead rest tokens cause found h hfault =>
    have hlaid := Laid.token hgap hlexeme hkind h
    have hstopped : Scanned options origin before read _ _ := .fault hlaid hfault
    simpa only [List.append_assoc] using hstopped

/-- Each text is laid out as what it is read as. -/
theorem scanned (options : ReadOptions) (origin : String) (before cs : List Char)
    (read : List Token) : Scanned options origin before read cs
      (scan options origin (Position.start.advance before) cs read) := by
  induction hlength : cs.length using Nat.strongRecOn generalizing before cs read with
  | ind length ih =>
    have hfault {lead rest : List Char} {cause : Malformed.Cause} {found : Option String}
        (h : Fault options lead rest cause found) : Scanned options origin before read (lead ++ rest)
          (scan options origin (Position.start.advance before) (lead ++ rest) read) := by
      rw [h.scan, ← Position.advance_append]
      exact .fault .nil h
    have hskipped := skipped options.comments cs 0
    generalize skip options.comments .blanks cs 0 = r at hskipped
    cases hskipped with
    | ended h =>
      rw [scan_trailing h]
      have hended : Scanned options origin before read ([] ++ cs) _ := .ended .nil h
      rwa [List.append_nil] at hended
    | refused hgap h =>
      have hrefused := hfault (.refused hgap h)
      exact hrefused
    | @token gap more c hgap htoken =>
      cases hlexeme : lexeme c more with
      | error e => exact hfault (.unreadable hgap htoken hlexeme)
      | ok result =>
        obtain ⟨kind, size⟩ := result
        by_cases hdisabled : kind = .datumComment ∧ options.comments = false
        · obtain ⟨rfl, hcomments⟩ := hdisabled
          obtain ⟨more, rfl, rfl⟩ := lexeme_datumComment hlexeme
          exact hfault (.disabled hgap hcomments)
        · have hkind : kind = .datumComment → options.comments := by
            intro hdatum
            simpa [hdatum] using hdisabled
          obtain ⟨own, rest, rfl, rfl, -⟩ := takes_lexeme hlexeme
          rw [← List.cons_append, ← List.append_assoc, scan_token hgap hlexeme hkind,
            ← Position.advance_append, ← Position.advance_append]
          refine .of_token hgap hlexeme hkind rfl (ih rest.length ?_ _ rest _ rfl)
          simp only [List.length_append, List.length_cons] at hlength
          omega

theorem tokenize_scanned {s : String} {r : Except Malformed (List Token)}
    (h : tokenize options origin s = r) : Scanned options origin [] [] s.toList r :=
  h ▸ scanned options origin [] s.toList []

end Lexer

end RegisterScheme
