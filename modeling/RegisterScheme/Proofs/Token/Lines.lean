import Mathlib.Data.List.DropRight
import RegisterScheme.Proofs.Token.Places
import RegisterScheme.Text.LineIndex

/-! The place of a character, reached by going on one character after the other, is the one that its
byte is looked up at: the newlines in front give the line, the characters behind the last of them the
column. -/

namespace RegisterScheme

variable {α : Type} {p : α → Bool} {cs ds before rest : List Char} {offset n lo hi : Nat}

/-! ### Bytes -/

theorem dropBytes?_append (cs ds : List Char) :
    dropBytes? (cs ++ ds) (String.utf8Len cs) = some ds := by
  induction cs with
  | nil =>
    cases ds <;> rfl
  | cons c cs ih =>
    have hpos := c.utf8Size_pos
    rw [List.cons_append, String.utf8Len_cons, dropBytes?, if_pos (by omega), Nat.add_sub_cancel, ih]
    omega

theorem takeBytes?_append (cs ds : List Char) :
    takeBytes? (cs ++ ds) (String.utf8Len cs) = some cs := by
  induction cs with
  | nil => cases ds <;> rfl
  | cons c cs ih =>
    have hpos := c.utf8Size_pos
    rw [List.cons_append, String.utf8Len_cons, takeBytes?, if_pos (by omega), Nat.add_sub_cancel, ih]
    · rfl
    · omega

theorem bytesBetween?_append (cs ds rest : List Char) :
    bytesBetween? (cs ++ (ds ++ rest)) (String.utf8Len cs) (String.utf8Len (cs ++ ds)) = some ds := by
  rw [String.utf8Len_append, bytesBetween?, if_pos (by omega), dropBytes?_append]
  rw [Option.bind_some, Nat.add_sub_cancel_left, takeBytes?_append]

/-! ### The search -/

/-- The property holds of the first items and of no later one, and the search ends between them. -/
theorem partitionPoint_append {xs ys : List α} (hxs : ∀ x ∈ xs, p x)
    (hys : ∀ y ∈ ys, p y = false) (h : hi ≤ (xs ++ ys).toArray.size) (hlo : lo ≤ xs.length) (hhi : xs.length ≤ hi) :
    partitionPoint p (xs ++ ys).toArray lo hi h = xs.length := by
  fun_induction partitionPoint p (xs ++ ys).toArray lo hi h with
  | case1 lo hi h hlt middle hmiddle ih =>
    apply ih _ hhi
    -- The middle item has the property, so it is one of the first.
    by_contra hge
    have hmem : (xs ++ ys).toArray[middle] ∈ ys := by
      rw [List.getElem_toArray, List.getElem_append_right (by omega)]
      exact List.getElem_mem _
    rw [hys _ hmem] at hmiddle
    cases hmiddle
  | case2 lo hi h hlt middle hmiddle ih =>
    apply ih hlo
    by_contra hlt
    have hmem : (xs ++ ys).toArray[middle] ∈ xs := by
      rw [List.getElem_toArray, List.getElem_append_left (by omega)]
      exact List.getElem_mem _
    exact hmiddle (hxs _ hmem)
  | case3 lo hi h hlt => omega

/-! ### Lines -/

theorem lineStarts_append (cs ds : List Char) (offset : Nat) : lineStarts (cs ++ ds) offset =
    lineStarts cs offset ++ lineStarts ds (offset + String.utf8Len cs) := by
  induction cs generalizing offset with
  | nil => rfl
  | cons c cs ih =>
    rw [List.cons_append, lineStarts, lineStarts, ih, ih, String.utf8Len_cons]
    split
    · rename_i hc
      have hone : c.utf8Size = 1 := by
        rw [hc]
        rfl
      rw [List.cons_append, hone, Nat.add_assoc, Nat.add_comm 1]
    · rw [Nat.add_assoc, Nat.add_comm c.utf8Size]

theorem mem_lineStarts (h : n ∈ lineStarts cs offset) :
    offset < n ∧ n ≤ offset + String.utf8Len cs := by
  induction cs generalizing offset with
  | nil => cases h
  | cons c cs ih =>
    have hpos := c.utf8Size_pos
    rw [lineStarts] at h
    rw [String.utf8Len_cons]
    split at h
    · rcases List.mem_cons.mp h with rfl | h
      · omega
      · have hbounds := ih h
        omega
    · have hbounds := ih h
      omega

/-- The line that the end of a text lies in begins behind its last newline. -/
theorem exists_lineStarts (before : List Char) : ∃ earlier,
    0 :: lineStarts before 0 = earlier ++ [String.utf8Len (before.rdropWhile (· != '\n'))] ∧
      earlier.length = before.count '\n' := by
  induction before using List.reverseRecOn with
  | nil => exact ⟨[], rfl, rfl⟩
  | append_singleton before c ih =>
    obtain ⟨earlier, hearlier, hlength⟩ := ih
    rw [lineStarts_append, Nat.zero_add, ← List.cons_append, hearlier]
    by_cases hc : c = '\n'
    · subst hc
      rw [List.rdropWhile_concat_neg _ _ _ (by decide), String.utf8Len_append]
      refine ⟨_, rfl, ?_⟩
      simp [hlength]
    · rw [List.rdropWhile_concat_pos _ _ _ (by simpa using hc), lineStarts, if_neg hc]
      refine ⟨earlier, List.append_nil _, ?_⟩
      rw [hlength, List.count_append]
      simp [hc]

namespace Position

theorem line_advance (before : List Char) :
    (start.advance before).line = 1 + before.count '\n' := by
  induction before using List.reverseRecOn with
  | nil => rfl
  | append_singleton before c ih =>
    rw [advance_append, List.count_append, ← Nat.add_assoc, ← ih, advance_cons, advance_nil, next]
    split
    · rename_i hc
      rw [hc]
      rfl
    · rename_i hc
      simp [hc]

theorem column_advance (before : List Char) :
    (start.advance before).column = 1 + (before.rtakeWhile (· != '\n')).length := by
  induction before using List.reverseRecOn with
  | nil => rfl
  | append_singleton before c ih =>
    rw [advance_append, advance_cons, advance_nil, next]
    split
    · rename_i hc
      rw [hc, List.rtakeWhile_concat_neg _ _ _ (by decide)]
      rfl
    · rename_i hc
      rw [List.rtakeWhile_concat_pos _ _ _ (by simpa using hc), List.length_append, ← Nat.add_assoc,
        ← ih]
      rfl

end Position

theorem length_le_utf8Len (cs : List Char) : cs.length ≤ String.utf8Len cs := by
  induction cs with
  | nil => exact Nat.le_refl 0
  | cons c cs ih =>
    have hpos := c.utf8Size_pos
    rw [String.utf8Len_cons, List.length_cons]
    omega

theorem saturated_of_lt (h : n < 2 ^ 32) : saturated n = n :=
  if_pos h

/-- A place that is reached character by character is found by its byte, if the numbers fit. -/
theorem LineIndex.locate_ofText (origin : String) {text : String} {c : Char}
    (htext : text.toList = before ++ c :: rest) (hsize : text.utf8ByteSize < 2 ^ 32) :
    (ofText origin text).locate (String.utf8Len before) = ⟨Position.start.advance before, origin⟩ := by
  obtain ⟨earlier, hearlier, hlength⟩ := exists_lineStarts before
  let lineStart := String.utf8Len (before.rdropWhile (· != '\n'))
  let later := lineStarts (c :: rest) (String.utf8Len before)
  have hindex : ofText origin text =
      ⟨origin, text.toList, (earlier ++ [lineStart] ++ later).toArray⟩ := by
    rw [ofText, htext, lineStarts_append, Nat.zero_add, ← List.cons_append, hearlier]
  have hfirst : ∀ n ∈ earlier ++ [lineStart], decide (n ≤ String.utf8Len before) = true := by
    intro n hn
    rw [← hearlier] at hn
    rcases List.mem_cons.mp hn with rfl | hn
    · exact decide_eq_true (Nat.zero_le _)
    · have hbounds := mem_lineStarts hn
      exact decide_eq_true (by omega)
  have hlater : ∀ n ∈ later, decide (n ≤ String.utf8Len before) = false := by
    intro n hn
    have hbounds := mem_lineStarts hn
    exact decide_eq_false (by omega)
  have hcolumn : bytesBetween? text.toList lineStart (String.utf8Len before) =
      some (before.rtakeWhile (· != '\n')) := by
    have hbytes := bytesBetween?_append (before.rdropWhile (· != '\n'))
      (before.rtakeWhile (· != '\n')) (c :: rest)
    rwa [← List.append_assoc, List.rdropWhile_append_rtakeWhile, ← htext] at hbytes
  have hcount : before.count '\n' ≤ before.length := List.count_le_length
  have hwidth : (before.rtakeWhile (· != '\n')).length ≤ before.length :=
    (List.rtakeWhile_suffix _ _).length_le
  have hoffset := Position.offset_start_advance before
  have hbefore := length_le_utf8Len before
  have hpoints : Location.Points origin text.toList _ := Lexer.points_of_append htext
  have hbound := hpoints.offset_lt
  have hlast : (earlier ++ [lineStart] ++ later).toArray.getD earlier.length 0 = lineStart := by
    simp
  rw [hindex, locate]
  dsimp only at hbound ⊢
  rw [partitionPoint_append hfirst hlater _ (Nat.zero_le _) (by simp), List.length_append,
    List.length_singleton, Nat.add_sub_cancel, hlast, hcolumn, Option.elim_some, hlength,
    saturated_of_lt (by omega), saturated_of_lt (by omega)]
  rw [Nat.add_comm, ← Position.line_advance, Nat.add_comm, ← Position.column_advance, ← hoffset]

end RegisterScheme
