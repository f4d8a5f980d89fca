import RegisterScheme.Program
import RegisterScheme.Proofs.Expr.FormPlaces
import RegisterScheme.Proofs.Template.Blame
import RegisterScheme.Proofs.Token.Places

/-! Where programs go wrong. Every step from a text to its template hands on the places of the
step before, so an error in the source lies at a character of the source. One error has no place:
that of a comment sign which ends the text where no datum may lie. -/

namespace RegisterScheme

/-- A character of a text is at the location, and the offset counts bytes of the text. -/
def Location.Inside (origin text : String) (l : Location) : Prop :=
  l.Points origin text.toList ∧ l.offset < text.utf8ByteSize

/-- A comment sign ends the text, and the datum it asks for would lie past the limit. -/
structure CommentPastLimit (options : ReadOptions) (origin text : String) (e : Failure) :
    Prop where
  error : e = .error (.malformed (Reader.tooDeep options.maxDepth none))
  ends : ∃ tokens t, tokenize options origin text = .ok (tokens ++ [t]) ∧ t.kind = .datumComment

variable {options : ReadOptions} {primitives : Primitives} {first : Nat} {origin text : String}
  {forms : List Sexpr} {f : Function} {e : Failure} {P : Location → Prop}

theorem Location.Points.inside {l : Location} (h : l.Points origin text.toList) :
    l.Inside origin text :=
  ⟨h, h.offset_lt⟩

theorem Lexer.inside_of_tokenize {tokens : List Token}
    (h : tokenize options origin text = .ok tokens) :
    ∀ t ∈ tokens, t.location.Inside origin text := by
  have htext := tokenize_inText options origin text
  rw [h] at htext
  exact fun t ht => (htext t ht).inside

theorem Lexer.tokenize_error {m : Malformed} (h : tokenize options origin text = .error m) :
    Somewhere (Location.Inside origin text) m.location := by
  have htext := tokenize_inText options origin text
  rw [h] at htext
  obtain ⟨l, hl, hpoints⟩ := htext
  exact ⟨l, hl, hpoints.inside⟩

theorem Sexpr.placed_of_ofText (h : Sexpr.ofText options origin text = .ok forms) :
    ∀ s ∈ forms, s.Placed (Location.Inside origin text) := by
  obtain ⟨tokens, htokens, hread⟩ := ok_of_bind (malformedFailure_eq_ok h)
  exact placed_of_readAll (Lexer.inside_of_tokenize htokens) hread

theorem Sexpr.ofText_error (h : Sexpr.ofText options origin text = .error e) :
    e.Placed (Location.Inside origin text) ∨ CommentPastLimit options origin text e := by
  obtain ⟨m, hm, rfl⟩ := malformedFailure_eq_error h
  rcases error_of_bind hm with htokens | ⟨tokens, htokens, hread⟩
  · exact .inl (Lexer.tokenize_error htokens)
  · rcases readAll_error (Lexer.inside_of_tokenize htokens) hread with
      hplaced | ⟨rfl, t, hlast, hkind⟩
    · exact .inl hplaced
    · obtain ⟨before, rfl⟩ := List.getLast?_eq_some_iff.mp hlast
      exact .inr ⟨rfl, before, t, htokens, hkind⟩

theorem Function.ofProgram_error (hforms : ∀ s ∈ forms, s.Placed P)
    (h : Function.ofProgram primitives first forms = .error e) : e.Placed P := by
  unfold Function.ofProgram at h
  split at h
  · cases h
  · rename_i hprogram
    cases h
    exact (Resolving.ends_program hforms).of_error hprogram

theorem Failure.IsFormless.placed (h : e.IsFormless) : e.Placed P := by
  cases e with
  | error e =>
    cases e with
    | malformed | arity => exact h.elim
    | runtime | overrun => trivial
  | fault | unfinished => trivial

/-- An error in the source of a program lies at one of its characters, whether the text, its data
or its forms are at fault. Only a comment sign at the end of the text may have no place. -/
theorem Program.ofText_blames (h : Program.ofText options primitives first origin text = .error e) :
    e.Placed (Location.Inside origin text) ∨ CommentPastLimit options origin text e := by
  rcases error_of_bind h with hfunction | ⟨⟨f, next⟩, -, htemplate⟩
  · rcases error_of_bind hfunction with hread | ⟨forms, hread, hprogram⟩
    · exact Sexpr.ofText_error hread
    · exact .inl (Function.ofProgram_error (Sexpr.placed_of_ofText hread) hprogram)
  · rcases error_of_bind htemplate with ht | ⟨t, -, ht⟩
    · exact .inl (Function.template_formless ht).placed
    · cases ht

/-- A conditional without operands is reported where it stands. -/
theorem Program.ofText_blames_emptyConditional : ∃ l : Location,
    Program.ofText .standard .standard 0 "branch" "(car '(1))\n(if)" =
        .error (.error (.arity ⟨.between 2 3, 0, some "if", some l⟩)) ∧
      l.Inside "branch" "(car '(1))\n(if)" := by
  have h : Program.ofText .standard .standard 0 "branch" "(car '(1))\n(if)" =
      .error (.error (.arity ⟨.between 2 3, 0, some "if", some ⟨⟨2, 1, 11⟩, "branch"⟩⟩)) :=
    error_of_map (f := fun _ => ()) (by decide +kernel)
  rcases Program.ofText_blames h with ⟨l, hl, hinside⟩ | hcomment
  · cases hl
    exact ⟨_, h, hinside⟩
  · cases hcomment.error

/-- A text that ends in a comment sign at the limit is refused, and no place is named. -/
theorem Program.ofText_commentSign :
    Program.ofText ⟨true, 1⟩ .standard 0 "comment" "#;" =
      .error (.error (.malformed ⟨.nestedBeyond 1, none, none⟩)) :=
  error_of_map (f := fun _ => ()) (by decide +kernel)

end RegisterScheme
