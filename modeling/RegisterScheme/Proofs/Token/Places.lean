import Mathlib.Data.String.Basic
import RegisterScheme.Token.Lexer

/-! Where tokens lie. Each token begins at a character of its text, and a fault of the text lies at
one. -/

namespace RegisterScheme

/-- A location is that of a character in a text with the given label. -/
def Location.Points (origin : String) (text : List Char) (l : Location) : Prop :=
  l.origin = origin ∧ ∃ before c after, text = before ++ c :: after ∧
    l.toPosition = Position.start.advance before

/-- There is a location, and it has a property. -/
def Somewhere (P : Location → Prop) (place : Option Location) : Prop :=
  ∃ l, place = some l ∧ P l

theorem Position.offset_advance (p : Position) (cs : List Char) :
    (p.advance cs).offset = p.offset + String.utf8Len cs := by
  induction cs generalizing p with
  | nil => rfl
  | cons c cs ih =>
    have hnext : (p.next c).offset = p.offset + c.utf8Size := by
      unfold next
      split <;> rfl
    rw [advance_cons, ih, hnext, String.utf8Len_cons, Nat.add_assoc, Nat.add_comm c.utf8Size]

theorem Position.offset_start_advance (before : List Char) :
    (start.advance before).offset = String.utf8Len before := by
  rw [offset_advance]
  exact Nat.zero_add _

theorem Location.Points.offset_lt {origin text : String} {l : Location}
    (h : l.Points origin text.toList) : l.offset < text.utf8ByteSize := by
  obtain ⟨-, before, c, after, htext, hposition⟩ := h
  have hsize : text.utf8ByteSize = String.utf8Len text.toList := by
    rw [← String.utf8ByteSize_ofList, String.ofList_toList]
  have hoffset : l.offset = String.utf8Len before := by
    rw [hposition, Position.offset_start_advance]
  have hc := c.utf8Size_pos
  rw [hsize, htext, hoffset, String.utf8Len_append, String.utf8Len_cons]
  omega

namespace Lexer

variable {options : ReadOptions} {origin : String} {text before cs : List Char} {read : List Token}

/-- Where text is left there is a character. -/
theorem points_of_append {c : Char} (h : text = before ++ c :: cs) :
    Location.Points origin text ⟨Position.start.advance before, origin⟩ :=
  ⟨rfl, before, c, cs, h, rfl⟩

/-- Tokens lie in the text, or else what is wrong with it does. -/
def InText (origin : String) (text : List Char) : Except Malformed (List Token) → Prop
  | .error e => Somewhere (Location.Points origin text) e.location
  | .ok tokens => ∀ t ∈ tokens, t.location.Points origin text

/-- The tokens of a rest lie in the text, as those do that are read in front of it. -/
theorem scan_inText (h : text = before ++ cs)
    (hread : ∀ t ∈ read, t.location.Points origin text) :
    InText origin text (scan options origin (.advance .start before) cs read) := by
  induction hn : cs.length using Nat.strongRecOn generalizing before cs read with
  | ind n ih =>
    rw [scan]
    cases hskip : skip options.comments .blanks cs 0 with
    | error cause =>
      cases cs with
      | nil => cases hskip
      | cons c cs => exact ⟨_, rfl, points_of_append h⟩
    | ok skipped =>
      dsimp only
      rw [← Position.advance_append]
      have hrest : text = (before ++ cs.take skipped) ++ cs.drop skipped := by
        rw [List.append_assoc, List.take_append_drop, h]
      split
      · intro t ht
        exact hread t (List.mem_reverse.mp ht)
      · rename_i c more hmore
        rw [hmore] at hrest
        have hpoints : Location.Points origin text _ := points_of_append hrest
        have hlater (kind : Token.Kind) (size : Nat) : InText origin text (scan options origin
            (.advance (.advance .start (before ++ cs.take skipped)) (c :: more.take size))
            (more.drop size)
            (⟨kind, ⟨.advance .start (before ++ cs.take skipped), origin⟩⟩ :: read)) := by
          have hlength : (more.drop size).length < n := by
            have hall := congrArg List.length hmore
            rw [List.length_drop, List.length_cons] at hall
            rw [List.length_drop]
            omega
          rw [← Position.advance_append]
          refine ih _ hlength ?_ ?_ rfl
          · rw [hrest, List.append_assoc _ (c :: _), List.cons_append, List.take_append_drop]
          · exact List.forall_mem_cons.mpr ⟨hpoints, hread⟩
        split
        · exact ⟨_, rfl, hpoints⟩
        · split
          · exact hlater _ _
          · exact ⟨_, rfl, hpoints⟩
        · exact hlater _ _

theorem tokenize_inText (options : ReadOptions) (origin text : String) :
    InText origin text.toList (tokenize options origin text) :=
  @scan_inText options origin text.toList [] text.toList [] rfl (by simp)

end Lexer

end RegisterScheme
