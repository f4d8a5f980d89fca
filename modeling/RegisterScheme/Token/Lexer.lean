import RegisterScheme.Decimal.Read
import RegisterScheme.Failure.Malformed
import RegisterScheme.Text.Blank

/-! From text to tokens. A token is the longest text of its shape; before it blanks and comments
are skipped. Each function tells how many characters belong to what it has read. -/

namespace RegisterScheme

/-- How a text is read. -/
structure ReadOptions where
  /-- Whether comments are allowed. -/
  comments : Bool
  /-- Data lie at depths below this one. -/
  maxDepth : Nat
deriving DecidableEq, Repr

def ReadOptions.standard : ReadOptions := ⟨true, 128⟩

namespace Lexer

/-- Where an atom ends. -/
def isDelimiter (c : Char) : Bool :=
  isBlank c || c == '(' || c == ')' || c == '[' || c == ']' || c == '"' || c == ';'

def atDelimiter : List Char → Bool
  | [] => true
  | c :: _ => isDelimiter c

/-- Quote marks end an atom too, but no name of a character. -/
def isAtomChar (c : Char) : Bool :=
  !isDelimiter c && c != '\x27' && c != '\x60' && c != ','

/-- The blanks that separate tokens. -/
def isSpace (c : Char) : Bool :=
  c == ' ' || c == '\t' || c == '\r' || c == '\n'

/-- What is being skipped: blanks, the rest of a line, or a block comment with so many others
around it. -/
inductive Skipping where
  | blanks
  | line
  | block (around : Nat)

/-- How many characters of blanks and comments come first, after `n` that are skipped already.
A line comment ends before a newline, with or without a carriage return. -/
def skip (comments : Bool) : Skipping → List Char → Nat → Except Malformed.Cause Nat
  | .blanks, ';' :: cs, n =>
    if comments then skip comments .line cs (n + 1) else .error .commentsDisabled
  | .blanks, '#' :: '|' :: cs, n =>
    if comments then skip comments (.block 0) cs (n + 2) else .error .commentsDisabled
  | .blanks, c :: cs, n => if isSpace c then skip comments .blanks cs (n + 1) else .ok n
  | .blanks, [], n => .ok n
  | .line, '\n' :: cs, n => skip comments .blanks cs (n + 1)
  | .line, '\r' :: '\n' :: cs, n => skip comments .blanks cs (n + 2)
  | .line, '\r' :: _, _ => .error .malformedLineEnding
  | .line, _ :: cs, n => skip comments .line cs (n + 1)
  | .line, [], n => .ok n
  | .block around, '#' :: '|' :: cs, n => skip comments (.block (around + 1)) cs (n + 2)
  | .block 0, '|' :: '#' :: cs, n => skip comments .blanks cs (n + 2)
  | .block (around + 1), '|' :: '#' :: cs, n => skip comments (.block around) cs (n + 2)
  | .block around, _ :: cs, n => skip comments (.block around) cs (n + 1)
  | .block _, [], _ => .error .unterminatedComment

def escaped? : Char → Option Char
  | 'n' => some '\n'
  | 't' => some '\t'
  | 'r' => some '\r'
  | '0' => some '\x00'
  | '\\' => some '\\'
  | '"' => some '"'
  | _ => none

/-- The content of a string up to its closing quote, given what of it is read already, last
character first, from `n` characters of text. -/
def stringBody : List Char → List Char → Nat → Except Malformed.Cause (String × Nat)
  | '"' :: _, read, n => .ok (String.ofList read.reverse, n + 1)
  | '\\' :: e :: cs, read, n =>
    match escaped? e with
    | some c => stringBody cs (c :: read) (n + 2)
    | none => .error .unknownEscape
  | '\\' :: [], _, _ => .error .unterminatedString
  | c :: cs, read, n => stringBody cs (c :: read) (n + 1)
  | [], _, _ => .error .unterminatedString

def isHexDigit (c : Char) : Bool :=
  c.isDigit || ('a' ≤ c && c ≤ 'f') || ('A' ≤ c && c ≤ 'F')

def hexDigitValue (c : Char) : Nat :=
  if c.isDigit then c.toNat - '0'.toNat
  else if 'a' ≤ c then c.toNat - 'a'.toNat + 10 else c.toNat - 'A'.toNat + 10

def natOfHexDigits (cs : List Char) : Nat :=
  cs.foldl (fun n c => 16 * n + hexDigitValue c) 0

/-- An integer after `#x`. Its magnitude has to fit before the sign is applied. -/
def hexadecimal (cs : List Char) : Except Malformed.Cause (Int64 × Nat) :=
  let (negative, body) := Decimal.splitSign cs
  let digits := body.takeWhile isHexDigit
  if digits.isEmpty then .error .unrecognizedToken
  else if !atDelimiter (body.drop digits.length) then .error .malformedHexadecimal
  else
    match fixnum? (natOfHexDigits digits) with
    | none => .error .integerOutOfRange
    | some n =>
      .ok (if negative then -n else n, cs.length - body.length + digits.length)

/-- The character with a hexadecimal code point; a plus sign may stand before it. -/
def codePoint? (cs : List Char) : Option Char :=
  let digits := match cs with
    | '+' :: ds => ds
    | ds => ds
  let n := natOfHexDigits digits
  if digits.isEmpty || !digits.all isHexDigit || !n.isValidChar then none
  else some (Char.ofNat n)

/-- A character by its name of at least two characters. -/
def namedCharacter? (first : Char) (more : List Char) : Option Char :=
  match String.ofList (first :: more) with
  | "space" => some ' '
  | "newline" | "linefeed" => some '\n'
  | "tab" => some '\t'
  | "return" => some '\r'
  | "nul" | "null" => some '\x00'
  | "alarm" => some '\x07'
  | "backspace" => some '\x08'
  | "delete" => some '\x7f'
  | "escape" => some '\x1b'
  | _ => if first = 'x' then codePoint? more else none

/-- A character after a hash sign and a backslash: itself, or a name. -/
def character : List Char → Except Malformed.Cause (Char × Nat)
  | [] => .error .unterminatedString
  | c :: cs =>
    let more := cs.takeWhile fun c => !isDelimiter c
    if more.isEmpty then .ok (c, 1)
    else
      match namedCharacter? c more with
      | some named => .ok (named, 1 + more.length)
      | none => .error .unknownCharacterName

/-- The words after a hash sign that stand for truth values. -/
def boolean? (word : String) : Option Bool :=
  match word with
  | "true" | "t" => some true
  | "false" | "f" => some false
  | _ => none

def looksNumeric (cs : List Char) : Bool :=
  let (_, body) := Decimal.splitSign cs
  let body := match body with
    | '.' :: more => more
    | _ => body
  match body with
  | c :: _ => c.isDigit
  | [] => false

/-- A number, a name, a keyword or a single dot. -/
def atom (cs : List Char) : Except Malformed.Cause Token.Kind :=
  if cs == ['.'] then .ok .dot
  else if looksNumeric cs then
    match Decimal.readFixnum? cs with
    | some n => .ok (.literal (.integer n))
    | none =>
      if (Decimal.splitSign cs).2.all Char.isDigit then .error .integerOutOfRange
      else
        match Decimal.readFloat? cs with
        | some x => .ok (.literal (.float x))
        | none => .error .malformedNumber
  else
    match cs with
    | '#' :: _ => .error .unrecognizedToken
    | ':' :: _ :: _ => .ok (.literal (.symbol (String.ofList cs)))
    | _ => .ok (.identifier (String.ofList cs))

/-- A token that cannot be read: why, and the text to show. -/
structure Unreadable where
  cause : Malformed.Cause
  found : String

/-- The token that begins with a character, and how many of the next ones belong to it. -/
abbrev Lexeme := Except Unreadable (Token.Kind × Nat)

/-- At most twenty characters up to a blank. -/
def excerpt (cs : List Char) : String :=
  String.ofList ((cs.takeWhile fun c => !isBlank c).take 20)

def atomLexeme (c : Char) (cs : List Char) : Lexeme :=
  let more := cs.takeWhile isAtomChar
  if !isAtomChar c then .error ⟨.unrecognizedToken, excerpt (c :: cs)⟩
  else
    match atom (c :: more) with
    | .ok kind => .ok (kind, more.length)
    | .error cause => .error ⟨cause, String.ofList (c :: more)⟩

/-- What a hash sign begins. -/
def hashLexeme (cs : List Char) : Lexeme :=
  let shown {α : Type} (r : Except Malformed.Cause α) : Except Unreadable α :=
    r.mapError fun cause => ⟨cause, excerpt ('#' :: cs)⟩
  match cs with
  | '(' :: _ => .ok (.openVector, 1)
  | ';' :: _ => .ok (.datumComment, 1)
  | 'x' :: more | 'X' :: more =>
    shown (hexadecimal more) |>.map fun (n, size) => (.literal (.integer n), size + 1)
  | '\\' :: more =>
    shown (character more) |>.map fun (c, size) => (.literal (.character c), size + 1)
  | _ =>
    let word := cs.takeWhile fun c => !isDelimiter c
    match boolean? (String.ofList word) with
    | some b => .ok (.literal (.boolean b), word.length)
    | none => atomLexeme '#' cs

def lexeme (c : Char) (cs : List Char) : Lexeme :=
  match c with
  | '(' => .ok (.opening .round, 0)
  | '[' => .ok (.opening .square, 0)
  | ')' => .ok (.closing .round, 0)
  | ']' => .ok (.closing .square, 0)
  | '\x27' => .ok (.mark .quote, 0)
  | '\x60' => .ok (.mark .quasiquote, 0)
  | ',' =>
    match cs with
    | '@' :: _ => .ok (.mark .unquoteSplicing, 1)
    | _ => .ok (.mark .unquote, 0)
  | '"' =>
    match stringBody cs [] 0 with
    | .ok (s, size) => .ok (.literal (.string s), size)
    | .error cause => .error ⟨cause, excerpt (c :: cs)⟩
  | '#' => hashLexeme cs
  | c => atomLexeme c cs

/-- The tokens of the text from a position on, after those that are read already, last first.
Faults of blanks and comments lie where the blanks begin, others where the token does. -/
def scan (options : ReadOptions) (origin : String) (p : Position) (cs : List Char)
    (read : List Token) : Except Malformed (List Token) :=
  match skip options.comments .blanks cs 0 with
  | .error cause => .error ⟨cause, none, some ⟨p, origin⟩⟩
  | .ok skipped =>
    let p := p.advance (cs.take skipped)
    let location : Location := ⟨p, origin⟩
    match _h : cs.drop skipped with
    | [] => .ok read.reverse
    | c :: more =>
      match lexeme c more with
      | .error e => .error ⟨e.cause, some e.found, some location⟩
      | .ok (.datumComment, size) =>
        if options.comments then
          scan options origin (p.advance (c :: more.take size)) (more.drop size)
            (⟨.datumComment, location⟩ :: read)
        else .error ⟨.commentsDisabled, none, some location⟩
      | .ok (kind, size) =>
        scan options origin (p.advance (c :: more.take size)) (more.drop size)
          (⟨kind, location⟩ :: read)
termination_by cs.length
decreasing_by
  all_goals
    have := congrArg List.length _h
    simp only [List.length_drop, List.length_cons] at this
    simp only [List.length_drop]
    omega

end Lexer

/-- The tokens of a whole text with the given label. -/
def tokenize (options : ReadOptions) (origin text : String) : Except Malformed (List Token) :=
  Lexer.scan options origin .start text.toList []

end RegisterScheme
