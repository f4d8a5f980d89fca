import RegisterScheme.Proofs.Token.Scanning

/-! What stands between tokens. A gap is made of blanks and of comments that are closed; behind the
last token a line comment may be left open. Skipping takes a gap as a whole, and stops where a token
begins, at the end of the text, or at a comment that is refused. -/

namespace RegisterScheme

namespace Lexer

/-- What follows the opening mark of a block comment with so many others around it, up to the mark
that closes the outermost. The marks are taken from left to right. -/
inductive BlockRest : Nat → List Char → Prop
  | last : BlockRest 0 ['|', '#']
  | closing {depth : Nat} {cs : List Char} (h : BlockRest depth cs) :
      BlockRest (depth + 1) ('|' :: '#' :: cs)
  | opening {depth : Nat} {cs : List Char} (h : BlockRest (depth + 1) cs) :
      BlockRest depth ('#' :: '|' :: cs)
  | other {depth : Nat} {c : Char} {cs : List Char} (hopening : ¬ ['#', '|'] <+: c :: cs)
      (hclosing : ¬ ['|', '#'] <+: c :: cs) (h : BlockRest depth cs) : BlockRest depth (c :: cs)

/-- A text without an end of line. -/
def OneLine (text : List Char) : Prop :=
  ∀ c ∈ text, c ≠ '\n' ∧ c ≠ '\r'

def lineEnds : List (List Char) :=
  [['\n'], ['\r', '\n']]

/-- Blanks and whole comments, the latter only where they are allowed. -/
inductive Gap (comments : Bool) : List Char → Prop
  | nil : Gap comments []
  | space {c : Char} {cs : List Char} (hc : isSpace c) (h : Gap comments cs) : Gap comments (c :: cs)
  | line {text ending cs : List Char} (hcomments : comments = true) (htext : OneLine text)
      (hending : ending ∈ lineEnds) (h : Gap comments cs) :
      Gap comments (';' :: (text ++ (ending ++ cs)))
  | block {body cs : List Char} (hcomments : comments = true) (hbody : BlockRest 0 body)
      (h : Gap comments cs) : Gap comments ('#' :: '|' :: (body ++ cs))

/-- What may stand behind the last token: the text may end in a line comment. -/
inductive Trailing (comments : Bool) : List Char → Prop
  | gap {cs : List Char} (h : Gap comments cs) : Trailing comments cs
  | line {gap text : List Char} (hcomments : comments = true) (hgap : Gap comments gap)
      (htext : OneLine text) : Trailing comments (gap ++ ';' :: text)

/-- A comment that is refused begins here, for the given reason. -/
inductive Refused (comments : Bool) : List Char → Malformed.Cause → Prop
  | line {cs : List Char} (hcomments : comments = false) :
      Refused comments (';' :: cs) .commentsDisabled
  | block {cs : List Char} (hcomments : comments = false) :
      Refused comments ('#' :: '|' :: cs) .commentsDisabled
  | lineEnd {text cs : List Char} (hcomments : comments = true) (htext : OneLine text)
      (hcs : cs.head? ≠ some '\n') :
      Refused comments (';' :: (text ++ '\r' :: cs)) .malformedLineEnding
  | unclosed {cs : List Char} (hcomments : comments = true)
      (hcs : ∀ body, BlockRest 0 body → ¬ body <+: cs) :
      Refused comments ('#' :: '|' :: cs) .unterminatedComment

variable {comments : Bool} {a b c : Char} {cs gap gap' text rest body ending : List Char}
  {n depth : Nat}

theorem newline_mem_lineEnds : ['\n'] ∈ lineEnds :=
  List.mem_cons_self

theorem return_mem_lineEnds : ['\r', '\n'] ∈ lineEnds :=
  List.mem_cons_of_mem _ List.mem_cons_self

theorem OneLine.tail (h : OneLine (c :: cs)) : OneLine cs :=
  fun d hd => h d (List.mem_cons_of_mem c hd)

theorem Gap.append (h : Gap comments gap) (h' : Gap comments gap') : Gap comments (gap ++ gap') := by
  induction h with
  | nil => exact h'
  | space hc _ ih => exact .space hc ih
  | line hcomments htext hending _ ih =>
    rw [List.cons_append, List.append_assoc, List.append_assoc]
    exact .line hcomments htext hending ih
  | block hcomments hbody _ ih =>
    rw [List.cons_append, List.cons_append, List.append_assoc]
    exact .block hcomments hbody ih

theorem Trailing.of_gap (hgap : Gap comments gap) (h : Trailing comments cs) :
    Trailing comments (gap ++ cs) := by
  cases h with
  | gap h => exact .gap (hgap.append h)
  | line hcomments h htext =>
    rw [← List.append_assoc]
    exact .line hcomments (hgap.append h) htext

/-- A newline ends a comment that is left open. -/
theorem Trailing.newline (h : Trailing true cs) (hgap : Gap true gap) :
    Gap true (cs ++ '\n' :: gap) := by
  cases h with
  | gap h => exact h.append (.space (by decide) hgap)
  | line _ h htext =>
    rw [List.append_assoc, List.cons_append]
    exact h.append (.line rfl htext newline_mem_lineEnds hgap)

/-! ### Gaps are skipped -/

theorem BlockRest.ne_nil (h : BlockRest depth body) : body ≠ [] := by
  cases h <;> simp

/-- Whether a mark of two characters begins here does not depend on what comes later. -/
theorem mark_prefix_append (hne : cs ≠ []) : [a, b] <+: c :: (cs ++ rest) ↔ [a, b] <+: c :: cs := by
  obtain ⟨d, ds, rfl⟩ := List.exists_cons_of_ne_nil hne
  simp only [List.cons_append, List.cons_prefix_cons, List.nil_prefix]

theorem skip_block_other (hopening : ¬ ['#', '|'] <+: c :: cs) (hclosing : ¬ ['|', '#'] <+: c :: cs) :
    skip comments (.block depth) (c :: cs) n = skip comments (.block depth) cs (n + 1) := by
  rw [skip]
  · rintro more rfl rfl
    exact hopening (by simp)
  · rintro more - rfl rfl
    exact hclosing (by simp)
  · rintro around more - rfl rfl
    exact hclosing (by simp)

theorem BlockRest.skip_append (h : BlockRest depth body) (rest : List Char) (n : Nat) :
    skip comments (.block depth) (body ++ rest) n =
      skip comments .blanks rest (n + body.length) := by
  induction h generalizing n with
  | last => rfl
  | closing _ ih =>
    change skip comments (.block _) (_ ++ rest) (n + 2) = _
    rw [ih, List.length_cons, List.length_cons]
    congr 1
    omega
  | opening _ ih =>
    rw [List.cons_append, List.cons_append, skip, ih, List.length_cons, List.length_cons]
    congr 1
    omega
  | other hopening hclosing h ih =>
    rw [List.cons_append, skip_block_other, ih, List.length_cons]
    · congr 1
      omega
    · rwa [mark_prefix_append h.ne_nil]
    · rwa [mark_prefix_append h.ne_nil]

theorem OneLine.skip_append (h : OneLine text) (rest : List Char) (n : Nat) :
    skip comments .line (text ++ rest) n = skip comments .line rest (n + text.length) := by
  induction text generalizing n with
  | nil => rfl
  | cons c text ih =>
    have hc := h c List.mem_cons_self
    rw [List.cons_append, skip, ih h.tail, List.length_cons]
    · congr 1
      omega
    · exact hc.1
    · exact fun _ hreturn _ => hc.2 hreturn
    · exact hc.2

theorem skip_lineEnd (h : ending ∈ lineEnds) (rest : List Char) (n : Nat) :
    skip comments .line (ending ++ rest) n = skip comments .blanks rest (n + ending.length) := by
  rcases List.mem_cons.mp h with rfl | h
  · rfl
  · rw [List.mem_singleton.mp h]
    rfl

theorem skip_return (h : cs.head? ≠ some '\n') :
    skip comments .line ('\r' :: cs) n = .error .malformedLineEnding := by
  rw [skip]
  rintro more rfl
  exact h rfl

theorem skip_blank (hc : isSpace c) :
    skip comments .blanks (c :: cs) n = skip comments .blanks cs (n + 1) := by
  rw [skip, if_pos hc]
  · rintro rfl
    cases hc
  · rintro more rfl -
    cases hc

theorem skip_line_comment (hcomments : comments = true) :
    skip comments .blanks (';' :: cs) n = skip comments .line cs (n + 1) := by
  rw [skip, if_pos hcomments]

theorem skip_block_comment (hcomments : comments = true) :
    skip comments .blanks ('#' :: '|' :: cs) n = skip comments (.block 0) cs (n + 2) := by
  rw [skip, if_pos hcomments]

/-- A gap is skipped, whatever follows. -/
theorem Gap.skip_append (h : Gap comments gap) (rest : List Char) (n : Nat) :
    skip comments .blanks (gap ++ rest) n = skip comments .blanks rest (n + gap.length) := by
  induction h generalizing n with
  | nil => rfl
  | space hc _ ih =>
    rw [List.cons_append, skip_blank hc, ih, List.length_cons]
    congr 1
    omega
  | line hcomments htext hending _ ih =>
    rw [List.cons_append, skip_line_comment hcomments, List.append_assoc, htext.skip_append,
      List.append_assoc, skip_lineEnd hending, ih]
    congr 1
    simp only [List.length_cons, List.length_append]
    omega
  | block hcomments hbody _ ih =>
    rw [List.cons_append, List.cons_append, skip_block_comment hcomments, List.append_assoc,
      hbody.skip_append, ih]
    congr 1
    simp only [List.length_cons, List.length_append]
    omega

theorem Trailing.skip_eq (h : Trailing comments cs) (n : Nat) :
    skip comments .blanks cs n = .ok (n + cs.length) := by
  cases h with
  | gap h =>
    have hskip := h.skip_append [] n
    rwa [List.append_nil] at hskip
  | @line gap text hcomments h htext =>
    have hskip : skip comments .line (text ++ []) (n + gap.length + 1) = _ := htext.skip_append [] _
    rw [List.append_nil] at hskip
    rw [h.skip_append, skip_line_comment hcomments, hskip, List.length_append, List.length_cons]
    change Except.ok _ = _
    congr 1
    omega

/-! ### Where skipping stops -/

theorem BlockRest.of_opening (h : BlockRest depth body) (hbody : body <+: '#' :: '|' :: cs) :
    ∃ more, BlockRest (depth + 1) more ∧ more <+: cs := by
  cases h with
  | last => simp at hbody
  | closing h => simp at hbody
  | opening h =>
    simp only [List.cons_prefix_cons, true_and] at hbody
    exact ⟨_, h, hbody⟩
  | other hopening _ h =>
    obtain ⟨d, ds, rfl⟩ := List.exists_cons_of_ne_nil h.ne_nil
    simp only [List.cons_prefix_cons] at hbody
    obtain ⟨rfl, rfl, -⟩ := hbody
    simp at hopening

theorem BlockRest.of_closing (h : BlockRest (depth + 1) body) (hbody : body <+: '|' :: '#' :: cs) :
    ∃ more, BlockRest depth more ∧ more <+: cs := by
  cases h with
  | closing h =>
    simp only [List.cons_prefix_cons, true_and] at hbody
    exact ⟨_, h, hbody⟩
  | opening h => simp at hbody
  | other _ hclosing h =>
    obtain ⟨d, ds, rfl⟩ := List.exists_cons_of_ne_nil h.ne_nil
    simp only [List.cons_prefix_cons] at hbody
    obtain ⟨rfl, rfl, -⟩ := hbody
    simp at hclosing

theorem BlockRest.of_other (h : BlockRest depth body) (hbody : body <+: c :: cs)
    (hopening : ¬ ['#', '|'] <+: c :: cs) (hclosing : ¬ ['|', '#'] <+: c :: cs) :
    ∃ more, BlockRest depth more ∧ more <+: cs := by
  cases h with
  | last => exact absurd hbody hclosing
  | closing h => exact absurd (List.IsPrefix.trans (by simp) hbody) hclosing
  | opening h => exact absurd (List.IsPrefix.trans (by simp) hbody) hopening
  | other _ _ h => exact ⟨_, h, (List.cons_prefix_cons.mp hbody).2⟩

/-- A block comment is closed somewhere, or it is not and that is what is wrong. -/
def ClosedOrRefused (comments : Bool) (depth : Nat) (cs : List Char) : Prop :=
  (∃ body rest, cs = body ++ rest ∧ BlockRest depth body) ∨
    (∀ body, BlockRest depth body → ¬ body <+: cs) ∧
      ∀ n, skip comments (.block depth) cs n = .error .unterminatedComment

/-- Whether a comment is closed is settled behind a mark or a character in it. -/
theorem ClosedOrRefused.behind {mark : List Char} {depth' : Nat}
    (h : ClosedOrRefused comments depth' cs)
    (hclosed : ∀ body, body <+: cs → BlockRest depth' body → BlockRest depth (mark ++ body))
    (hback : ∀ body, BlockRest depth body → body <+: mark ++ cs →
      ∃ more, BlockRest depth' more ∧ more <+: cs)
    (hskip : ∀ n, skip comments (.block depth) (mark ++ cs) n =
      skip comments (.block depth') cs (n + mark.length)) :
    ClosedOrRefused comments depth (mark ++ cs) := by
  rcases h with ⟨body, rest, rfl, h⟩ | ⟨hnone, herror⟩
  · have hbody := hclosed body (List.prefix_append body rest) h
    exact .inl ⟨mark ++ body, rest, (List.append_assoc _ _ _).symm, hbody⟩
  · refine .inr ⟨?_, fun n => (hskip n).trans (herror _)⟩
    intro body hbody hprefix
    obtain ⟨more, hmore, hprefix⟩ := hback body hbody hprefix
    exact hnone more hmore hprefix

theorem closedOrRefused (comments : Bool) (depth : Nat) (cs : List Char) :
    ClosedOrRefused comments depth cs := by
  induction hlength : cs.length using Nat.strongRecOn generalizing depth cs with
  | ind length ih =>
    have hshorter (mark more : List Char) (hmark : mark ≠ []) (hcs : mark ++ more = cs)
        (depth : Nat) : ClosedOrRefused comments depth more := by
      have hpos := List.length_pos_iff.mpr hmark
      rw [← hcs, List.length_append] at hlength
      exact ih more.length (by omega) depth more rfl
    by_cases hopening : ['#', '|'] <+: cs
    · obtain ⟨more, hcs⟩ := hopening
      have hmore := hshorter _ more (by simp) hcs (depth + 1)
      rw [← hcs]
      exact hmore.behind (fun _ _ h => h.opening) (fun _ h => h.of_opening) fun n => by
        rw [List.cons_append, List.singleton_append, skip]
        rfl
    by_cases hclosing : ['|', '#'] <+: cs
    · obtain ⟨more, hcs⟩ := hclosing
      cases depth with
      | zero => exact .inl ⟨_, more, hcs.symm, .last⟩
      | succ depth =>
        have hmore := hshorter _ more (by simp) hcs depth
        rw [← hcs]
        exact hmore.behind (fun _ _ h => h.closing) (fun _ h => h.of_closing) fun n => rfl
    cases cs with
    | nil =>
      refine .inr ⟨?_, fun _ => rfl⟩
      intro body hbody hprefix
      exact hbody.ne_nil (List.prefix_nil.mp hprefix)
    | cons c more =>
      have hmore := hshorter [c] more (by simp) rfl depth
      change ClosedOrRefused comments depth ([c] ++ more)
      refine hmore.behind ?_ (fun _ h hprefix => h.of_other hprefix hopening hclosing)
        fun n => skip_block_other hopening hclosing
      rintro body ⟨rest, rfl⟩ h
      rw [mark_prefix_append h.ne_nil] at hopening hclosing
      exact .other hopening hclosing h

theorem Refused.skip_eq {cause : Malformed.Cause} (h : Refused comments cs cause) (n : Nat) :
    skip comments .blanks cs n = .error cause := by
  cases h with
  | line hcomments => rw [hcomments]; rfl
  | block hcomments => rw [hcomments]; rfl
  | lineEnd hcomments htext hcs =>
    rw [skip_line_comment hcomments, htext.skip_append, skip_return hcs]
  | @unclosed cs hcomments hcs =>
    rw [skip_block_comment hcomments]
    rcases closedOrRefused comments 0 cs with ⟨body, rest, rfl, hbody⟩ | ⟨-, hskip⟩
    · exact absurd (List.prefix_append body rest) (hcs body hbody)
    · exact hskip _

/-- A text up to its first end of line, be it a whole one or not. -/
theorem exists_oneLine (cs : List Char) : ∃ text rest, cs = text ++ rest ∧ OneLine text ∧
    ∀ c, rest.head? = some c → c = '\n' ∨ c = '\r' := by
  induction cs with
  | nil => exact ⟨[], [], rfl, by simp [OneLine], by simp⟩
  | cons c cs ih =>
    by_cases hc : c = '\n' ∨ c = '\r'
    · exact ⟨[], c :: cs, rfl, by simp [OneLine], by simpa using hc⟩
    · obtain ⟨text, rest, rfl, htext, hrest⟩ := ih
      refine ⟨c :: text, rest, rfl, ?_, hrest⟩
      exact List.forall_mem_cons.mpr ⟨not_or.mp hc, htext⟩

/-- What comes of skipping, with `n` characters skipped before: a token begins behind a gap, or
nothing but the end of the text comes any more, or a gap ends at a comment that is refused. -/
inductive Skipped (comments : Bool) (n : Nat) : List Char → Except Malformed.Cause Nat → Prop
  | token {gap more : List Char} {c : Char} (hgap : Gap comments gap) (htoken : AtToken (c :: more)) :
      Skipped comments n (gap ++ c :: more) (.ok (n + gap.length))
  | ended {cs : List Char} (h : Trailing comments cs) : Skipped comments n cs (.ok (n + cs.length))
  | refused {gap rest : List Char} {cause : Malformed.Cause} (hgap : Gap comments gap)
      (h : Refused comments rest cause) : Skipped comments n (gap ++ rest) (.error cause)

theorem Skipped.of_gap {r : Except Malformed.Cause Nat} (hgap : Gap comments gap)
    (h : Skipped comments (n + gap.length) cs r) : Skipped comments n (gap ++ cs) r := by
  cases h with
  | token hgap' htoken =>
    rw [← List.append_assoc, Nat.add_assoc, ← List.length_append]
    exact .token (hgap.append hgap') htoken
  | ended h =>
    rw [Nat.add_assoc, ← List.length_append]
    exact .ended (h.of_gap hgap)
  | refused hgap' h =>
    rw [← List.append_assoc]
    exact .refused (hgap.append hgap') h

/-- Skipping ends as described in each text that is shorter. -/
def SkippedBelow (comments : Bool) (length : Nat) : Prop :=
  ∀ cs : List Char, cs.length < length → ∀ n, Skipped comments n cs (skip comments .blanks cs n)

theorem SkippedBelow.behind (h : SkippedBelow comments (gap ++ rest).length)
    (hgap : Gap comments gap) (hne : gap ≠ []) : Skipped comments n (gap ++ rest) (skip comments .blanks (gap ++ rest) n) := by
  have hpos := List.length_pos_iff.mpr hne
  rw [hgap.skip_append]
  exact .of_gap hgap (h rest (by rw [List.length_append]; omega) _)

theorem SkippedBelow.line (h : SkippedBelow comments (';' :: cs).length) :
    Skipped comments n (';' :: cs) (skip comments .blanks (';' :: cs) n) := by
  cases hcomments : comments with
  | false => exact .refused .nil (.line rfl)
  | true =>
    rw [hcomments] at h
    obtain ⟨text, rest, rfl, htext, hrest⟩ := exists_oneLine cs
    have hended (ending more : List Char) (hending : ending ∈ lineEnds)
        (hmore : rest = ending ++ more) : Skipped true n (';' :: (text ++ rest)) (skip true .blanks (';' :: (text ++ rest)) n) := by
      have hgap : Gap true (';' :: (text ++ (ending ++ []))) := .line rfl htext hending .nil
      have hsplit : ';' :: (text ++ rest) = (';' :: (text ++ (ending ++ []))) ++ more := by
        simp [hmore]
      rw [hsplit] at h ⊢
      exact h.behind hgap (by simp)
    cases rest with
    | nil =>
      have htrailing : Trailing true (';' :: text) := .line rfl .nil htext
      rw [List.append_nil, htrailing.skip_eq]
      exact .ended htrailing
    | cons c rest =>
      rcases hrest c rfl with rfl | rfl
      · exact hended ['\n'] rest newline_mem_lineEnds rfl
      · by_cases hnewline : rest.head? = some '\n'
        · obtain ⟨more, rfl⟩ := List.head?_eq_some_iff.mp hnewline
          exact hended ['\r', '\n'] more return_mem_lineEnds rfl
        · rw [skip_line_comment rfl, htext.skip_append, skip_return hnewline]
          exact .refused .nil (.lineEnd rfl htext hnewline)

theorem SkippedBelow.block (h : SkippedBelow comments ('#' :: '|' :: cs).length) :
    Skipped comments n ('#' :: '|' :: cs) (skip comments .blanks ('#' :: '|' :: cs) n) := by
  cases hcomments : comments with
  | false => exact .refused .nil (.block rfl)
  | true =>
    rw [hcomments] at h
    rcases closedOrRefused true 0 cs with ⟨body, rest, rfl, hbody⟩ | ⟨hnone, hskip⟩
    · have hgap : Gap true ('#' :: '|' :: (body ++ [])) := .block rfl hbody .nil
      rw [List.append_nil] at hgap
      exact h.behind hgap (by simp)
    · rw [skip_block_comment rfl, hskip]
      exact .refused .nil (.unclosed rfl hnone)

/-- Skipping ends in one of the three ways. -/
theorem skipped (comments : Bool) (cs : List Char) (n : Nat) :
    Skipped comments n cs (skip comments .blanks cs n) := by
  induction hlength : cs.length using Nat.strongRecOn generalizing cs n with
  | ind length ih =>
    have hbelow : SkippedBelow comments cs.length := by
      intro ds hds m
      exact ih ds.length (by omega) ds m rfl
    cases cs with
    | nil => exact .ended (.gap .nil)
    | cons c cs =>
      by_cases hline : c = ';'
      · subst hline
        exact hbelow.line
      by_cases hspace : isSpace c
      · have hgap : Gap comments [c] := .space hspace .nil
        have hrest : SkippedBelow comments ([c] ++ cs).length := hbelow
        exact hrest.behind hgap (by simp)
      by_cases hblock : c = '#' ∧ cs.head? = some '|'
      · obtain ⟨rfl, hhead⟩ := hblock
        obtain ⟨cs, rfl⟩ := List.head?_eq_some_iff.mp hhead
        exact hbelow.block
      · have htoken : AtToken (c :: cs) :=
          atToken_cons (Bool.eq_false_iff.mpr hspace) hline (not_and.mp hblock)
        rw [htoken comments n]
        exact .token .nil htoken

end Lexer

end RegisterScheme
