import RegisterScheme.Proofs.Outcome
import RegisterScheme.Proofs.Token.Layout
import RegisterScheme.Proofs.Token.Places

/-! Texts of tokens. Where a newline and a gap stand between two texts, they are read as each is alone.
What is wrong with a text lies behind all that can be read of it. -/

namespace RegisterScheme

variable {options : ReadOptions} {origin text : String} {gap : List Char} {tokens : List Token}

namespace Lexer

/-- What a text is read as that stands behind tokens of some kinds: also the kinds of its own, or the
same fault. -/
def Continues (kinds : List Token.Kind) (own all : Except Malformed (List Token)) : Prop :=
  match own with
  | .ok tokens => ∃ tokens', all = .ok tokens' ∧
      tokens'.map Token.kind = kinds ++ tokens.map Token.kind
  | .error e => ∃ e', all = .error e' ∧ e'.cause = e.cause ∧ e'.found = e.found

variable {cs before : List Char} {kinds : List Token.Kind} {r : Except Malformed (List Token)}

/-- A text behind a gap. -/
theorem Scanned.continues (h : Scanned options origin before [] cs r)
    (hgap : Gap options.comments gap) (p : Position) {read : List Token}
    (hread : read.reverse.map Token.kind = kinds) :
    Continues kinds r (scan options origin p (gap ++ cs) read) := by
  cases h with
  | ended h htrailing =>
    obtain ⟨left, hleft, hlexes⟩ := h.lexes hgap
    obtain ⟨q, tokens, hscan, hkinds⟩ := hlexes p read
    rw [hscan, scan_trailing (htrailing.of_gap hleft)]
    exact ⟨_, rfl, by simp [hkinds, ← hread]⟩
  | fault h hfault =>
    obtain ⟨left, hleft, hlexes⟩ := h.lexes hgap
    obtain ⟨q, tokens, hscan, -⟩ := hlexes p read
    obtain ⟨lead, rest, hrest, hfault⟩ := hfault.of_gap hleft
    rw [hscan, hrest, hfault.scan]
    exact ⟨_, rfl, rfl, rfl⟩

end Lexer

open Lexer

/-- A text that can be read, a newline and blanks or closed comments, and another text: the tokens of
the one are followed by those of the other, or the fault of the other is that of the whole. -/
theorem tokenize_append (hcomments : options.comments = true) (hgap : Gap true gap)
    (htext : tokenize options origin text = .ok tokens) (text' : String) :
    Continues (tokens.map Token.kind) (tokenize options origin text')
      (tokenize options origin (text ++ String.ofList ('\n' :: gap) ++ text')) := by
  have hscanned := tokenize_scanned htext
  generalize hcs : text.toList = cs at hscanned
  cases hscanned with
  | @ended own trailing _ hlaid htrailing =>
    rw [hcomments] at htrailing
    have hbetween : Gap options.comments (trailing ++ '\n' :: gap) := by
      rw [hcomments]
      exact htrailing.newline hgap
    have hreplaces : Replaces (trailing ++ '\n' :: gap ++ text'.toList) (trailing ++ []) := by
      rw [List.append_assoc]
      exact .append (.inl rfl)
    rw [List.append_nil] at hreplaces
    obtain ⟨left, hleft, hlexes⟩ := (hlaid.replace hreplaces).lexes .nil
    obtain ⟨q, read, hscan, hkinds⟩ := hlexes .start []
    have hall : (text ++ String.ofList ('\n' :: gap) ++ text').toList =
        [] ++ (own ++ (trailing ++ '\n' :: gap ++ text'.toList)) := by
      simp [hcs]
    rw [tokenize, tokenize, hall, hscan, ← List.append_assoc left]
    refine (scanned options origin [] text'.toList []).continues (hleft.append hbetween) q ?_
    simpa using hkinds

/-- A comment that is left open, a nested one, and one more in a line of its own. -/
theorem tokenize_append_openComment : ∃ tokens,
    tokenize .standard "text" "(a ;b" = .ok tokens ∧ Gap true "#|#||#|#;c\n".toList ∧
      Continues (tokens.map Token.kind) (tokenize .standard "text" "d)")
        (tokenize .standard "text"
          ("(a ;b" ++ String.ofList ('\n' :: "#|#||#|#;c\n".toList) ++ "d)")) := by
  have hsome : (tokenize .standard "text" "(a ;b").toOption.isSome := by decide +kernel
  obtain ⟨tokens, htokens⟩ := Option.isSome_iff_exists.mp hsome
  have hline : Gap true (';' :: (['c'] ++ (['\n'] ++ []))) :=
    .line rfl (by simp [OneLine]) newline_mem_lineEnds .nil
  have hgap : Gap true "#|#||#|#;c\n".toList := .block rfl (.opening (.closing .last)) hline
  have htext := ok_of_toOption htokens
  exact ⟨tokens, htext, hgap, tokenize_append rfl hgap htext "d)"⟩

namespace Lexer

/-- What is blamed begins with what is wrong. Only where a comment is refused, the blanks and comments
before it are blamed as well. -/
inductive Blamed (options : ReadOptions) : List Char → Malformed.Cause → Option String → Prop
  | unreadable {more : List Char} {c : Char} {e : Unreadable} (h : lexeme c more = .error e)
      (hfound : e.found.toList <+: c :: more) : Blamed options (c :: more) e.cause (some e.found)
  | disabled {more : List Char} (hcomments : options.comments = false) :
      Blamed options ('#' :: ';' :: more) .commentsDisabled none
  | refused {gap rest : List Char} {cause : Malformed.Cause} (hgap : Gap options.comments gap)
      (h : Refused options.comments rest cause) : Blamed options (gap ++ rest) cause none

variable {lead rest : List Char} {cause : Malformed.Cause} {found : Option String}

theorem Fault.lead_gap (h : Fault options lead rest cause found) : Gap options.comments lead := by
  cases h with
  | refused => exact .nil
  | unreadable hgap => exact hgap
  | disabled hgap => exact hgap

theorem Fault.blamed (h : Fault options lead rest cause found) : Blamed options rest cause found := by
  cases h with
  | refused hgap h => exact .refused hgap h
  | unreadable _ _ h => exact .unreadable h (lexeme_error h)
  | disabled _ hcomments => exact .disabled hcomments

end Lexer

/-- A text that cannot be read can be read up to the place of the fault, and what is blamed lies
there. -/
theorem tokenize_blames {e : Malformed} (h : tokenize options origin text = .error e) :
    ∃ before rest l, text.toList = before ++ rest ∧
      (∃ tokens, tokenize options origin (String.ofList before) = .ok tokens) ∧
      e.location = some l ∧ l.origin = origin ∧ l.offset = String.utf8Len before ∧
      Blamed options rest e.cause e.found := by
  have hscanned := tokenize_scanned h
  generalize hcs : text.toList = cs at hscanned
  cases hscanned with
  | @fault own lead rest _ _ _ hlaid hfault =>
    have hreplaces : Replaces (lead ++ []) (lead ++ rest) := .append (.inl rfl)
    rw [List.append_nil] at hreplaces
    obtain ⟨left, hleft, hlexes⟩ := (hlaid.replace hreplaces).lexes .nil
    obtain ⟨q, read, hscan, -⟩ := hlexes .start []
    have hbefore : ∃ tokens, tokenize options origin (String.ofList (own ++ lead)) = .ok tokens := by
      rw [tokenize, String.toList_ofList]
      exact ⟨_, hscan.trans (scan_trailing (.gap (hleft.append hfault.lead_gap)) q _)⟩
    exact ⟨own ++ lead, rest, _, (List.append_assoc _ _ _).symm, hbefore, rfl, rfl,
      Position.offset_start_advance _, hfault.blamed⟩

/-- A word that is no token is blamed itself, behind the blanks. -/
theorem tokenize_blames_word : ∃ e, tokenize .standard "f" "(ok)\n  #bad" = .error e ∧
    e.location = some ⟨⟨2, 3, 7⟩, "f"⟩ ∧
    ∃ before rest l, "(ok)\n  #bad".toList = before ++ rest ∧
      (∃ tokens, tokenize .standard "f" (String.ofList before) = .ok tokens) ∧
      e.location = some l ∧ l.origin = "f" ∧ l.offset = String.utf8Len before ∧
      Blamed .standard rest e.cause e.found := by
  have h : tokenize .standard "f" "(ok)\n  #bad" =
      .error ⟨.unrecognizedToken, some "#bad", some ⟨⟨2, 3, 7⟩, "f"⟩⟩ :=
    error_of_map (f := fun _ => ()) (by decide +kernel)
  exact ⟨_, h, rfl, tokenize_blames h⟩

/-- A comment that is left open behind blanks is not blamed itself: the place is that of the blanks. -/
theorem tokenize_openComment : ∃ l, tokenize .standard "text" "  #| open" =
      .error ⟨.unterminatedComment, none, some l⟩ ∧
    l.offset = 0 ∧ ¬ ['#', '|'] <+: "  #| open".toList := by
  have h : tokenize .standard "text" "  #| open" =
      .error ⟨.unterminatedComment, none, some ⟨⟨1, 1, 0⟩, "text"⟩⟩ :=
    error_of_map (f := fun _ => ()) (by decide +kernel)
  exact ⟨_, h, rfl, by decide⟩

end RegisterScheme
