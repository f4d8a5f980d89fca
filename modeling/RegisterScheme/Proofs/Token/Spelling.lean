import Mathlib.Data.List.TakeWhile
import RegisterScheme.Datum
import RegisterScheme.Proofs.Decimal.Integer
import RegisterScheme.Proofs.Token.Scanning

/-! The text of a datum is read as the tokens that spell the datum. Floats are left out, and of the
symbols those whose names are not read as one token of that name. -/

namespace RegisterScheme

/-- A token that stands for the symbol of a name. -/
def Lexer.Names (kind : Token.Kind) (name : String) : Prop :=
  kind = .identifier name ∨ kind = .literal (.symbol name)

/-- A name that is read as a single symbol or keyword of this very name. -/
def Lexer.Nameable (name : String) : Prop :=
  ∃ options origin token, tokenize options origin name = .ok [token] ∧ Names token.kind name

/-- Atoms whose text can be read back. -/
def Atom.Readable : Atom → Prop
  | .float _ => False
  | .symbol name => Lexer.Nameable name
  | _ => True

/-- The tokens of an atom. A name with a colon in front is a keyword, which stands for itself. -/
def Atom.kinds : Atom → List Token.Kind
  | .nil => [.opening .round, .closing .round]
  | .symbol name =>
    match name.toList with
    | ':' :: _ :: _ => [.literal (.symbol name)]
    | _ => [.identifier name]
  | a => [.literal a]

namespace Datum

mutual

/-- Every atom of a datum can be read back. -/
def Readable : Datum → Prop
  | atom a => a.Readable
  | pair car cdr => car.Readable ∧ cdr.Readable
  | vector items => ReadableItems items

def ReadableItems : List Datum → Prop
  | [] => True
  | d :: ds => d.Readable ∧ ReadableItems ds

end

mutual

/-- The tokens of a datum. -/
def kinds : Datum → List Token.Kind
  | atom a => a.kinds
  | pair car cdr => .opening .round :: (car.kinds ++ cdr.tailKinds)
  | vector items => .openVector :: itemKinds items

/-- The tokens behind the first item of a list, with its closing parenthesis. -/
def tailKinds : Datum → List Token.Kind
  | atom .nil => [.closing .round]
  | atom a => .dot :: (a.kinds ++ [.closing .round])
  | pair car cdr => car.kinds ++ cdr.tailKinds
  | vector items => .dot :: .openVector :: (itemKinds items ++ [.closing .round])

/-- The tokens of items with the closing parenthesis. -/
def itemKinds : List Datum → List Token.Kind
  | [] => [.closing .round]
  | d :: ds => d.kinds ++ itemKinds ds

end

end Datum

namespace Lexer

variable {options : ReadOptions} {origin : String} {c : Char} {cs rest : List Char} {name : String}

theorem lexes_opening (cs : List Char) :
    Lexes options origin ('(' :: cs) cs [.opening .round] :=
  .token _ (atToken_cons rfl (by decide) (by simp)) rfl (by simp) rfl

theorem lexes_closing (cs : List Char) :
    Lexes options origin (')' :: cs) cs [.closing .round] :=
  .token _ (atToken_cons rfl (by decide) (by simp)) rfl (by simp) rfl

theorem lexes_openVector (cs : List Char) :
    Lexes options origin ('#' :: '(' :: cs) cs [.openVector] :=
  .token _ (atToken_cons rfl (by decide) (by simp)) rfl (by simp) rfl

theorem lexes_mark (cs : List Char) :
    Lexes options origin ('\x27' :: cs) cs [.mark .quote] :=
  .token _ (atToken_cons rfl (by decide) (by simp)) rfl (by simp) rfl

/-- An atom that begins with its character and is delimited. -/
theorem lexeme_of_isAtomChar (hc : isAtomChar c) (hne : c ≠ '#') :
    lexeme c cs = atomLexeme c cs := by
  unfold lexeme
  split
  all_goals first
    | rfl
    | exact absurd rfl hne
    | exact absurd hc (by decide)

theorem atomLexeme_append (hc : isAtomChar c) (hcs : ∀ d ∈ cs, isAtomChar d) (hr : atDelimiter rest)
    {kind : Token.Kind} (h : atom (c :: cs) = .ok kind) :
    atomLexeme c (cs ++ rest) = .ok (kind, cs.length) := by
  rw [atomLexeme, atDelimiter_takeWhile cs hr (fun _ => isAtomChar_of_isDelimiter) hcs, hc, h]
  rfl

theorem atToken_of_isAtomChar (hc : isAtomChar c) (hne : c ≠ '#') : AtToken (c :: cs) := by
  have hline : c ≠ ';' := by
    rintro rfl
    exact absurd hc (by decide)
  exact atToken_cons (isSpace_of_isAtomChar hc) hline fun h => absurd h hne

theorem atToken_hash (c : Char) (cs : List Char) (hc : c ≠ '|') : AtToken ('#' :: c :: cs) :=
  atToken_cons rfl (by decide) (by simpa using hc)

/-- An atom whose characters are all its own. -/
theorem lexes_atom (c : Char) (cs : List Char) (hc : isAtomChar c) (hne : c ≠ '#') (hcs : ∀ d ∈ cs, isAtomChar d)
    (hr : atDelimiter rest) {kind : Token.Kind} (h : atom (c :: cs) = .ok kind)
    (hk : kind ≠ .datumComment) : Lexes options origin (c :: cs ++ rest) rest [kind] := by
  refine .token cs.length (atToken_of_isAtomChar hc hne) ?_ hk List.drop_left
  rw [lexeme_of_isAtomChar hc hne]
  exact atomLexeme_append hc hcs hr h

theorem isAtomChar_of_isDigit (h : c.isDigit) : isAtomChar c := by
  have hall : ∀ n < 58, 48 ≤ n → isAtomChar (Char.ofNat n) := by decide
  simp only [Char.isDigit, Bool.and_eq_true, decide_eq_true_eq] at h
  have hc := hall c.toNat (Nat.lt_succ_of_le h.2) h.1
  rwa [Char.ofNat_toNat] at hc

theorem lexes_dot (hr : atDelimiter rest) : Lexes options origin ('.' :: rest) rest [.dot] :=
  lexes_atom '.' [] (by decide) (by decide) (by simp) hr rfl (by simp)

theorem looksNumeric_of_digits {negative : Bool} {digits : List Char}
    (h : Decimal.splitSign cs = (negative, digits)) (hne : digits ≠ [])
    (hd : ∀ d ∈ digits, d.isDigit) : looksNumeric cs := by
  obtain ⟨d, ds, rfl⟩ := List.exists_cons_of_ne_nil hne
  have hdigit := hd d List.mem_cons_self
  have hdot : d ≠ '.' := by
    rintro rfl
    cases hdigit
  rw [looksNumeric, h]
  dsimp only
  split
  · rename_i heq
    split at heq
    · rename_i hbody
      cases hbody
      exact absurd rfl hdot
    · cases heq
      exact hdigit
  · rename_i heq
    split at heq
    · rename_i hbody
      cases hbody
      exact absurd rfl hdot
    · cases heq

/-- Digits with a sign or none are read as the integer, if it fits. -/
theorem atom_digits {negative : Bool} {digits : List Char}
    (h : Decimal.splitSign cs = (negative, digits)) (hne : digits ≠ [])
    (hd : ∀ d ∈ digits, d.isDigit) :
    atom cs = match fixnum? (Decimal.signed negative (Decimal.natOfDigits digits)) with
      | some n => .ok (.literal (.integer n))
      | none => .error .integerOutOfRange := by
  have hnumeric := looksNumeric_of_digits h hne hd
  have hdot : (cs == ['.']) = false := by
    rw [beq_eq_false_iff_ne]
    rintro rfl
    exact absurd hnumeric (by decide)
  have hall : digits.all Char.isDigit = true := by simpa using hd
  unfold atom
  rw [hdot, hnumeric, if_neg Bool.false_ne_true, if_pos rfl, Decimal.readFixnum?_digits h hne hd, h]
  cases fixnum? (Decimal.signed negative (Decimal.natOfDigits digits)) with
  | some n => rfl
  | none => exact if_pos hall

theorem atom_integerText (n : Int64) :
    atom (Atom.integerText n).toList = .ok (.literal (.integer n)) := by
  rw [atom_digits (Decimal.splitSign_integerText n) Nat.toDigits_ne_nil
    (Decimal.isDigit_toDigits _), Decimal.natOfDigits_toDigits, Decimal.signed_natAbs,
    Decimal.fixnum?_toInt]

/-- The digits of an integer, with its sign, are an atom. -/
theorem toList_integerText_eq_cons (n : Int64) : ∃ c cs, (Atom.integerText n).toList = c :: cs ∧
    (∀ d ∈ c :: cs, isAtomChar d) ∧ c ≠ '#' ∧ atom (c :: cs) = .ok (.literal (.integer n)) := by
  have hatom := atom_integerText n
  have hchars : ∀ d ∈ (Atom.integerText n).toList, isAtomChar d ∧ d ≠ '#' := by
    intro d hd
    rw [Decimal.toList_integerText] at hd
    rcases List.mem_append.mp hd with hd | hd
    · split at hd
      · cases hd
      · rw [List.mem_singleton.mp hd]
        decide
    · have hdigit := Decimal.isDigit_toDigits _ d hd
      refine ⟨isAtomChar_of_isDigit hdigit, ?_⟩
      rintro rfl
      cases hdigit
  cases htext : (Atom.integerText n).toList with
  | nil =>
    rw [htext] at hatom
    cases hatom
  | cons c cs =>
    rw [htext] at hatom hchars
    exact ⟨c, cs, rfl, fun d hd => (hchars d hd).1, (hchars c List.mem_cons_self).2, hatom⟩

theorem lexes_integer (n : Int64) (hr : atDelimiter rest) :
    Lexes options origin ((Atom.integerText n).toList ++ rest) rest [.literal (.integer n)] := by
  obtain ⟨c, cs, htext, hcs, hne, hatom⟩ := toList_integerText_eq_cons n
  obtain ⟨hc, hcs⟩ := List.forall_mem_cons.mp hcs
  rw [htext]
  exact lexes_atom c cs hc hne hcs hr hatom (by simp)

theorem lexeme_hash (cs : List Char) : lexeme '#' cs = hashLexeme cs := by
  unfold lexeme
  rfl

theorem isDelimiter_inside (h : isDelimiter c) : (!isDelimiter c) = false := by
  rw [h]
  rfl

theorem lexes_boolean (b : Bool) (hr : atDelimiter rest) :
    Lexes options origin ((Atom.booleanText b).toList ++ rest) rest [.literal (.boolean b)] := by
  have hword {c : Char} (hc : isDelimiter c = false) :
      (c :: rest).takeWhile (fun c => !isDelimiter c) = [c] :=
    atDelimiter_takeWhile [c] hr (fun _ => isDelimiter_inside) (by simpa using hc)
  cases b with
  | false =>
    change Lexes options origin ('#' :: 'f' :: rest) rest _
    refine .token 1 (atToken_cons rfl (by decide) (by simp)) ?_ (by simp) rfl
    rw [lexeme_hash, hashLexeme, hword (by decide)]
    all_goals first | rfl | simp
  | true =>
    change Lexes options origin ('#' :: 't' :: rest) rest _
    refine .token 1 (atToken_cons rfl (by decide) (by simp)) ?_ (by simp) rfl
    rw [lexeme_hash, hashLexeme, hword (by decide)]
    all_goals first | rfl | simp

theorem lexes_hashCharacter (size : Nat) (h : character cs = .ok (c, size))
    (hr : cs.drop size = rest) :
    Lexes options origin ('#' :: '\\' :: cs) rest [.literal (.character c)] := by
  refine .token (size + 1) (atToken_cons rfl (by decide) (by simp)) ?_ (by simp) hr
  rw [lexeme_hash, hashLexeme, h]
  rfl

/-- A character under a name. -/
theorem lexes_named (first : Char) (more : List Char) (h : namedCharacter? first more = some c)
    (hne : more ≠ []) (hm : more.all (!isDelimiter ·)) (hr : atDelimiter rest) :
    Lexes options origin ('#' :: '\\' :: first :: (more ++ rest)) rest
      [.literal (.character c)] := by
  refine lexes_hashCharacter (1 + more.length) ?_ ?_
  · rw [character, atDelimiter_takeWhile more hr (fun _ => isDelimiter_inside)
      (List.all_eq_true.mp hm), h, if_neg (by simpa using hne)]
  · rw [Nat.add_comm, List.drop_succ_cons, List.drop_left]

theorem toList_characterText (c : Char) :
    ∃ name, (Atom.characterText c).toList = '#' :: '\\' :: name := by
  unfold Atom.characterText
  split
  case h_6 => exact ⟨[c], by simp⟩
  all_goals exact ⟨_, rfl⟩

theorem lexes_character (c : Char) (hr : atDelimiter rest) :
    Lexes options origin ((Atom.characterText c).toList ++ rest) rest
      [.literal (.character c)] := by
  unfold Atom.characterText
  split
  · exact lexes_named 's' "pace".toList (by decide) (by decide) (by decide) hr
  · exact lexes_named 'n' "ewline".toList (by decide) (by decide) (by decide) hr
  · exact lexes_named 't' "ab".toList (by decide) (by decide) (by decide) hr
  · exact lexes_named 'r' "eturn".toList (by decide) (by decide) (by decide) hr
  · exact lexes_named 'n' "ul".toList (by decide) (by decide) (by decide) hr
  · have hnone : rest.takeWhile (fun c => !isDelimiter c) = [] :=
      atDelimiter_takeWhile [] hr (fun _ => isDelimiter_inside) (by simp)
    have htext : ("#\\" ++ c.toString).toList = ['#', '\\', c] := by
      rw [String.toList_append, Char.toString_eq_singleton, String.toList_singleton]
      rfl
    rw [htext]
    have hcharacter : character (c :: rest) = .ok (c, 1) := by
      rw [character, hnone]
      rfl
    exact lexes_hashCharacter 1 hcharacter rfl

theorem stringBody_literalChar (c : Char) (more read : List Char) (n : Nat) :
    stringBody (Quoted.literalChar c ++ more) read n =
      stringBody more (c :: read) (n + (Quoted.literalChar c).length) := by
  unfold Quoted.literalChar
  split
  · rfl
  · rfl
  · rfl
  · rfl
  · rfl
  · rename_i hquote hslash _ _ _
    rw [List.singleton_append, stringBody]
    · rfl
    · exact hquote
    · exact fun _ _ h => absurd h hslash
    · exact fun h => absurd h hslash

/-- The escapes of a string literal are undone. -/
theorem stringBody_literal (cs rest read : List Char) (n : Nat) :
    stringBody (cs.flatMap Quoted.literalChar ++ '"' :: rest) read n =
      .ok (String.ofList (read.reverse ++ cs), n + (cs.flatMap Quoted.literalChar).length + 1) := by
  induction cs generalizing read n with
  | nil => simp [stringBody]
  | cons c cs ih =>
    rw [List.flatMap_cons, List.append_assoc, stringBody_literalChar, ih, List.reverse_cons,
      List.append_assoc, List.singleton_append, List.length_append, Nat.add_assoc n]

theorem toList_literal_append (s : String) (rest : List Char) : (Quoted.literal s).toList ++ rest =
    '"' :: (s.toList.flatMap Quoted.literalChar ++ '"' :: rest) := by
  rw [Quoted.literal, String.toList_ofList, List.append_assoc]
  rfl

theorem lexes_string (s : String) (rest : List Char) :
    Lexes options origin ((Quoted.literal s).toList ++ rest) rest [.literal (.string s)] := by
  rw [toList_literal_append]
  refine .token ((s.toList.flatMap Quoted.literalChar).length + 1)
    (atToken_cons rfl (by decide) (by simp)) ?_ (by simp) ?_
  · unfold lexeme
    rw [stringBody_literal]
    simp
  · rw [← List.drop_drop, List.drop_left]
    rfl

variable {kind : Token.Kind} {size : Nat}

theorem Names.of_identifier {name' : String} (h : Names (.identifier name') name) :
    name' = name := by
  obtain h | h := h <;> cases h
  rfl

theorem Names.of_symbol {name' : String} (h : Names (.literal (.symbol name')) name) :
    name' = name := by
  obtain h | h := h <;> cases h
  rfl

theorem Names.ne_datumComment (h : Names kind name) : kind ≠ .datumComment := by
  rintro rfl
  obtain h | h := h <;> cases h

/-- The atoms that stand for symbols are spelled as the symbols are, and do not begin with a hash
sign. -/
theorem atom_eq_ok_names (h : atom cs = .ok kind) (hk : Names kind name) :
    name.toList = cs ∧ cs.head? ≠ some '#' ∧ (Atom.symbol name).kinds = [kind] := by
  unfold atom at h
  split at h
  · cases h
    obtain hk | hk := hk <;> cases hk
  · split at h
    · split at h
      · cases h
        obtain hk | hk := hk <;> cases hk
      · split at h
        · cases h
        · split at h
          · cases h
            obtain hk | hk := hk <;> cases hk
          · cases h
    · split at h
      · cases h
      · cases h
        obtain rfl := hk.of_symbol
        refine ⟨String.toList_ofList, by simp, ?_⟩
        rw [Atom.kinds, String.toList_ofList]
        rfl
      · rename_i hhash hcolon
        cases h
        obtain rfl := hk.of_identifier
        refine ⟨String.toList_ofList, ?_, ?_⟩
        · intro hhead
          obtain ⟨more, rfl⟩ := List.head?_eq_some_iff.mp hhead
          exact hhash more rfl
        · rw [Atom.kinds, String.toList_ofList]
          split
          · exact absurd rfl (hcolon _ _)
          · rfl

theorem atomLexeme_eq_ok (h : atomLexeme c cs = .ok (kind, size)) :
    isAtomChar c ∧ atom (c :: cs.takeWhile isAtomChar) = .ok kind := by
  unfold atomLexeme at h
  dsimp only at h
  split at h
  · cases h
  · rename_i hc
    refine ⟨by simpa using hc, ?_⟩
    split at h
    · rename_i hatom
      cases h
      exact hatom
    · cases h

theorem exists_of_map_mapError_eq_ok {ε ε' α β : Type} {r : Except ε α} {f : ε → ε'} {g : α → β}
    {b : β} (h : (r.mapError f).map g = .ok b) : ∃ a, r = .ok a ∧ g a = b := by
  cases r with
  | error e => cases h
  | ok a => exact ⟨a, rfl, Except.ok.inj h⟩

theorem hashLexeme_ne_ok (hk : Names kind name) : hashLexeme cs ≠ .ok (kind, size) := by
  intro h
  unfold hashLexeme at h
  dsimp only at h
  split at h
  · cases h
    obtain hk | hk := hk <;> cases hk
  · cases h
    obtain hk | hk := hk <;> cases hk
  iterate 3
    · obtain ⟨a, -, ha⟩ := exists_of_map_mapError_eq_ok h
      cases ha
      obtain hk | hk := hk <;> cases hk
  · split at h
    · cases h
      obtain hk | hk := hk <;> cases hk
    · exact (atom_eq_ok_names (atomLexeme_eq_ok h).2 hk).2.1 rfl

theorem lexeme_eq_ok_names (h : lexeme c cs = .ok (kind, size)) (hk : Names kind name) :
    atomLexeme c cs = .ok (kind, size) ∧ c ≠ '#' := by
  unfold lexeme at h
  split at h
  all_goals try
    cases h
    obtain hk | hk := hk <;> cases hk
  · split at h
    all_goals
      cases h
      obtain hk | hk := hk <;> cases hk
  · split at h
    · cases h
      obtain hk | hk := hk <;> cases hk
    · cases h
  · exact absurd h (hashLexeme_ne_ok hk)
  · rename_i hhash
    exact ⟨h, hhash⟩

/-- Reading goes on behind what is read already. -/
theorem exists_append_of_scan_eq_ok {p : Position} {read tokens : List Token}
    (h : scan options origin p cs read = .ok tokens) : ∃ more, tokens = read.reverse ++ more := by
  fun_induction scan options origin p cs read with
  | case1 => cases h
  | case2 => exact ⟨[], by rw [List.append_nil]; exact (Except.ok.inj h).symm⟩
  | case3 => cases h
  | case4 | case6 =>
    rename_i ih
    obtain ⟨more, rfl⟩ := ih h
    exact ⟨_ :: more, by rw [List.reverse_cons, List.append_assoc]; rfl⟩
  | case5 => cases h

theorem lexeme_of_scan_eq_ok {p : Position} {token : Token} {tokens : List Token}
    (h : scan options origin p cs [] = .ok (token :: tokens)) :
    ∃ c more size, lexeme c more = .ok (token.kind, size) := by
  rw [scan] at h
  split at h
  · cases h
  · dsimp only at h
    split at h
    · cases h
    · split at h
      · cases h
      · rename_i hl
        split at h
        · obtain ⟨more, hmore⟩ := exists_append_of_scan_eq_ok h
          cases hmore
          exact ⟨_, _, _, hl⟩
        · cases h
      · rename_i hl
        obtain ⟨more, hmore⟩ := exists_append_of_scan_eq_ok h
        cases hmore
        exact ⟨_, _, _, hl⟩

/-- A name that can be read is an atom of its own. -/
theorem Nameable.atom (h : Nameable name) : ∃ c cs kind, name.toList = c :: cs ∧
    (∀ d ∈ c :: cs, isAtomChar d) ∧ c ≠ '#' ∧ Lexer.atom (c :: cs) = .ok kind ∧
    Names kind name := by
  obtain ⟨options, origin, token, hscan, hk⟩ := h
  obtain ⟨c, more, size, hl⟩ := lexeme_of_scan_eq_ok hscan
  obtain ⟨hl, hne⟩ := lexeme_eq_ok_names hl hk
  obtain ⟨hc, hatom⟩ := atomLexeme_eq_ok hl
  refine ⟨c, more.takeWhile isAtomChar, token.kind, (atom_eq_ok_names hatom hk).1, ?_, hne, hatom,
    hk⟩
  exact List.forall_mem_cons.mpr ⟨hc, fun d hd => List.mem_takeWhile_imp hd⟩

theorem nameable_of_atom {c : Char} {cs : List Char} (hname : name.toList = c :: cs)
    (hcs : (c :: cs).all isAtomChar) (hne : c ≠ '#') (hatom : Lexer.atom (c :: cs) = .ok kind)
    (hk : Names kind name) : Nameable name := by
  obtain ⟨hc, hcs⟩ := List.forall_mem_cons.mp (List.all_eq_true.mp hcs)
  have hlexes : Lexes .standard name name.toList [] [kind] := by
    have h : Lexes .standard name (c :: cs ++ []) [] [kind] :=
      lexes_atom c cs hc hne hcs rfl hatom hk.ne_datumComment
    rwa [List.append_nil, ← hname] at h
  obtain ⟨tokens, htokens, hkinds⟩ := hlexes.tokenize
  obtain ⟨t, ts, rfl, ht, hts⟩ := List.map_eq_cons_iff.mp hkinds
  obtain rfl := List.map_eq_nil_iff.mp hts
  exact ⟨.standard, name, t, htokens, ht ▸ hk⟩

/-- A name that can be read is read as its symbol in front of whatever delimits it. -/
theorem lexes_symbol (h : Nameable name) (hr : atDelimiter rest) :
    Lexes options origin (name.toList ++ rest) rest (Atom.symbol name).kinds := by
  obtain ⟨c, cs, kind, hname, hcs, hne, hatom, hk⟩ := h.atom
  obtain ⟨hc, hcs⟩ := List.forall_mem_cons.mp hcs
  rw [(atom_eq_ok_names hatom hk).2.2, hname]
  exact lexes_atom c cs hc hne hcs hr hatom hk.ne_datumComment

theorem lexes_atomText {a : Atom} (ha : a.Readable) (hr : atDelimiter rest) :
    Lexes options origin (a.text.toList ++ rest) rest a.kinds := by
  cases a with
  | nil => exact (lexes_opening _).trans (lexes_closing rest)
  | boolean b => exact lexes_boolean b hr
  | integer n => exact lexes_integer n hr
  | float x => exact ha.elim
  | character c => exact lexes_character c hr
  | string s => exact lexes_string s rest
  | symbol name => exact lexes_symbol ha hr

/-- No blank comes before an atom. -/
theorem atToken_atomText {a : Atom} (ha : a.Readable) (rest : List Char) :
    AtToken (a.text.toList ++ rest) := by
  cases a with
  | nil => exact atToken_cons (c := '(') rfl (by decide) (by simp)
  | boolean b =>
    cases b with
    | false => exact atToken_hash 'f' rest (by decide)
    | true => exact atToken_hash 't' rest (by decide)
  | integer n =>
    obtain ⟨c, cs, htext, hcs, hne, -⟩ := toList_integerText_eq_cons n
    rw [Atom.text, htext]
    exact atToken_of_isAtomChar (hcs c List.mem_cons_self) hne
  | float x => exact ha.elim
  | character c =>
    obtain ⟨name, htext⟩ := toList_characterText c
    rw [Atom.text, htext]
    exact atToken_cons rfl (by decide) (by simp)
  | string s =>
    rw [Atom.text, toList_literal_append]
    exact atToken_cons rfl (by decide) (by simp)
  | symbol name =>
    obtain ⟨c, cs, kind, hname, hcs, hne, -⟩ := Nameable.atom ha
    rw [Atom.text, hname]
    exact atToken_of_isAtomChar (hcs c List.mem_cons_self) hne

end Lexer

namespace Datum

open Lexer

variable {options : ReadOptions} {origin : String} {rest : List Char}

/-- No blank comes before a datum. -/
theorem atToken_chars {d : Datum} (hd : d.Readable) (rest : List Char) :
    AtToken (d.chars ++ rest) := by
  cases d with
  | atom a =>
    rw [chars]
    exact atToken_atomText (by rwa [Readable] at hd) rest
  | pair car cdr => exact atToken_cons (c := '(') rfl (by decide) (by simp)
  | vector items => exact atToken_hash '(' _ (by decide)

theorem tailKinds_atom {a : Atom} (h : a ≠ .nil) :
    (atom a).tailKinds = .dot :: (a.kinds ++ [.closing .round]) := by
  cases a with
  | nil => exact absurd rfl h
  | _ => rw [tailKinds]; simp

theorem tailChars_atom {a : Atom} (h : a ≠ .nil) :
    (atom a).tailChars = ' ' :: '.' :: ' ' :: a.text.toList ++ [')'] := by
  cases a with
  | nil => exact absurd rfl h
  | _ => rw [tailChars]; simp

theorem atDelimiter_tailChars (d : Datum) (rest : List Char) :
    atDelimiter (d.tailChars ++ rest) := by
  cases d with
  | atom a =>
    by_cases ha : a = .nil
    · rw [ha]
      rfl
    · rw [tailChars_atom ha]
      rfl
  | pair car cdr => rfl
  | vector items => rfl

theorem itemChars_cons_cons (d d' : Datum) (ds : List Datum) :
    itemChars (d :: d' :: ds) = d.chars ++ ' ' :: itemChars (d' :: ds) := by
  rw [itemChars]
  simp

theorem atToken_itemChars {d : Datum} {ds : List Datum} (h : ReadableItems (d :: ds))
    (rest : List Char) : AtToken (itemChars (d :: ds) ++ rest) := by
  rw [ReadableItems] at h
  cases ds with
  | nil =>
    rw [itemChars, List.append_assoc]
    exact atToken_chars h.1 _
  | cons d' ds =>
    rw [itemChars_cons_cons, List.append_assoc]
    exact atToken_chars h.1 _

/-- What stands behind the dot of a list. -/
theorem lexes_dotted {cs : List Char} {kinds : List Token.Kind}
    (hcs : AtToken (cs ++ ')' :: rest))
    (h : Lexes options origin (cs ++ ')' :: rest) (')' :: rest) kinds) :
    Lexes options origin (' ' :: '.' :: ' ' :: cs ++ ')' :: rest) rest
      (.dot :: (kinds ++ [.closing .round])) := by
  have hdot : Lexes options origin (' ' :: '.' :: ' ' :: cs ++ ')' :: rest) (cs ++ ')' :: rest)
      [.dot] :=
    (Lexes.space (atToken_of_isAtomChar (by decide) (by decide))).trans
      ((lexes_dot rfl).trans (.space hcs))
  exact hdot.trans (h.trans (lexes_closing rest))

mutual

/-- The text of a datum is read as its tokens in front of whatever delimits it. -/
theorem lexes_chars (d : Datum) (hd : d.Readable) (rest : List Char) (hr : atDelimiter rest) :
    Lexes options origin (d.chars ++ rest) rest d.kinds := by
  cases d with
  | atom a =>
    rw [Readable] at hd
    rw [chars, kinds]
    exact lexes_atomText hd hr
  | pair car cdr =>
    rw [Readable] at hd
    rw [chars, kinds, List.append_assoc]
    exact (lexes_opening _).trans ((lexes_chars car hd.1 _ (atDelimiter_tailChars cdr rest)).trans
      (lexes_tailChars cdr hd.2 rest))
  | vector items =>
    rw [Readable] at hd
    rw [chars, kinds]
    exact (lexes_openVector _).trans (lexes_itemChars items hd rest)

theorem lexes_tailChars (d : Datum) (hd : d.Readable) (rest : List Char) :
    Lexes options origin (d.tailChars ++ rest) rest d.tailKinds := by
  cases d with
  | atom a =>
    rw [Readable] at hd
    by_cases ha : a = .nil
    · rw [ha, tailChars, tailKinds]
      exact lexes_closing rest
    · rw [tailChars_atom ha, tailKinds_atom ha, List.append_assoc]
      exact lexes_dotted (atToken_atomText hd _) (lexes_atomText hd rfl)
  | pair car cdr =>
    rw [Readable] at hd
    rw [tailChars, tailKinds, List.append_assoc]
    exact (Lexes.space (atToken_chars hd.1 _)).trans
      ((lexes_chars car hd.1 _ (atDelimiter_tailChars cdr rest)).trans
        (lexes_tailChars cdr hd.2 rest))
  | vector items =>
    have hspace := atToken_chars hd (')' :: rest)
    rw [Readable] at hd
    rw [chars] at hspace
    rw [tailChars, tailKinds, List.append_assoc]
    exact lexes_dotted hspace ((lexes_openVector _).trans (lexes_itemChars items hd _))

theorem lexes_itemChars (ds : List Datum) (hds : ReadableItems ds) (rest : List Char) :
    Lexes options origin (itemChars ds ++ rest) rest (itemKinds ds) := by
  cases ds with
  | nil => exact lexes_closing rest
  | cons d ds =>
    rw [ReadableItems] at hds
    cases ds with
    | nil =>
      rw [itemChars, itemKinds, itemKinds, List.append_assoc]
      exact (lexes_chars d hds.1 _ rfl).trans (lexes_closing rest)
    | cons d' ds =>
      rw [itemChars_cons_cons, itemKinds, List.append_assoc]
      exact (lexes_chars d hds.1 _ rfl).trans ((Lexes.space (atToken_itemChars hds.2 rest)).trans
        (lexes_itemChars (d' :: ds) hds.2 rest))

end

/-- The text of a datum is the text of its tokens. -/
theorem tokenize_text {d : Datum} (hd : d.Readable) (options : ReadOptions) (origin : String) :
    ∃ tokens, tokenize options origin d.text = .ok tokens ∧ tokens.map Token.kind = d.kinds := by
  have h : Lexes options origin (d.chars ++ []) [] d.kinds := lexes_chars d hd [] rfl
  rw [List.append_nil] at h
  apply Lexes.tokenize
  rwa [text, String.toList_ofList]

/-- A quoted datum has the mark in front of its tokens. -/
theorem tokenize_quoted {d : Datum} (hd : d.Readable) (options : ReadOptions) (origin : String) :
    ∃ tokens, tokenize options origin ("'" ++ d.text) = .ok tokens ∧
      tokens.map Token.kind = .mark .quote :: d.kinds := by
  have h : Lexes options origin ('\x27' :: (d.chars ++ [])) [] (.mark .quote :: d.kinds) :=
    (lexes_mark _).trans (lexes_chars d hd [] rfl)
  rw [List.append_nil] at h
  apply Lexes.tokenize
  have htext : ("'" ++ d.text).toList = '\x27' :: d.chars := by
    rw [String.toList_append, text, String.toList_ofList, String.toList_ofList]
    rfl
  rwa [htext]

end Datum

end RegisterScheme
