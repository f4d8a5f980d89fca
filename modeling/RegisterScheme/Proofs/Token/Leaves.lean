import RegisterScheme.Proofs.Token.Layout
import RegisterScheme.Proofs.Token.Spelling

/-! The leaves of expressions among the tokens of a text. No two tokens stand for one atom. -/

namespace RegisterScheme

namespace Lexer

variable {options : ReadOptions} {origin : String} {c : Char} {size : Nat}
  {cs after before text : List Char} {kind : Token.Kind} {tokens : List Token}

theorem atom_ne_nil (cs : List Char) : atom cs ≠ .ok (.literal .nil) := by
  unfold atom
  split
  · simp
  · split
    · split
      · simp
      · split
        · simp
        · split <;> simp
    · split <;> simp

theorem atomLexeme_ne_nil (c : Char) (cs : List Char) (size : Nat) :
    atomLexeme c cs ≠ .ok (.literal .nil, size) :=
  fun h => atom_ne_nil _ (atomLexeme_eq_ok h).2

theorem hashLexeme_ne_nil (cs : List Char) (size : Nat) :
    hashLexeme cs ≠ .ok (.literal .nil, size) := by
  intro h
  unfold hashLexeme at h
  dsimp only at h
  split at h
  · simp at h
  · simp at h
  iterate 3
    · obtain ⟨_, -, ha⟩ := exists_of_map_mapError_eq_ok h
      simp at ha
  · split at h
    · simp at h
    · exact atomLexeme_ne_nil _ _ _ h

theorem lexeme_ne_nil (c : Char) (cs : List Char) (size : Nat) :
    lexeme c cs ≠ .ok (.literal .nil, size) := by
  unfold lexeme
  split
  all_goals try simp
  · split <;> simp
  · split <;> simp
  · exact hashLexeme_ne_nil cs size
  · exact atomLexeme_ne_nil _ cs size

/-- A leaf that is read back from its text: no empty list, and a keyword exactly if it begins with a
colon. -/
def IsLeaf (kind : Token.Kind) : Prop :=
  kind ≠ .literal .nil ∧ ∀ name, Names kind name → (Atom.symbol name).kinds = [kind]

theorem isLeaf_of_lexeme (h : lexeme c cs = .ok (kind, size)) : IsLeaf kind := by
  constructor
  · rintro rfl
    exact lexeme_ne_nil c cs size h
  · intro name hk
    have hatom := (lexeme_eq_ok_names h hk).1
    exact (atom_eq_ok_names (atomLexeme_eq_ok hatom).2 hk).2.2

theorem isLeaf_mark (m : QuoteMark) : IsLeaf (.identifier m.name) := by
  constructor
  · simp
  · intro name hk
    obtain rfl := hk.of_identifier
    cases m <;> rfl

theorem Laid.isLeaf (h : Laid options origin after before text tokens) :
    ∀ t ∈ tokens, IsLeaf t.kind := by
  induction h with
  | nil => simp
  | token _ hlexeme _ _ ih => exact List.forall_mem_cons.mpr ⟨isLeaf_of_lexeme hlexeme, ih⟩

theorem isLeaf_of_tokenize {s : String} (h : tokenize options origin s = .ok tokens) :
    ∀ t ∈ tokens, IsLeaf t.kind := by
  have hscanned := tokenize_scanned h
  generalize s.toList = cs at hscanned
  cases hscanned with
  | ended hlaid => exact hlaid.isLeaf

end Lexer

end RegisterScheme
