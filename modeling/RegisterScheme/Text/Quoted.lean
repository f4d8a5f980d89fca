import RegisterScheme.Text.Printable

/-! Strings and characters in quotes: for programs, where only what would end or break a string
literal is escaped, and for listings, where every character that cannot be shown is. -/

namespace RegisterScheme.Quoted

/-- The escape of a character inside a string literal of the language. -/
def literalChar (c : Char) : List Char :=
  match c with
  | '"' => ['\\', '"']
  | '\\' => ['\\', '\\']
  | '\n' => ['\\', 'n']
  | '\t' => ['\\', 't']
  | '\r' => ['\\', 'r']
  | c => [c]

def literal (s : String) : String :=
  String.ofList ('"' :: s.toList.flatMap literalChar ++ ['"'])

/-- A code point in hexadecimal between braces. -/
def codePoint (c : Char) : List Char :=
  ['\\', 'u', '\x7b'] ++ Nat.toDigits 16 c.toNat ++ ['\x7d']

/-- A character of a listing, between quotes of the given kind. -/
def listingChar (quote c : Char) : List Char :=
  match c with
  | '\x00' => ['\\', '0']
  | '\t' => ['\\', 't']
  | '\r' => ['\\', 'r']
  | '\n' => ['\\', 'n']
  | '\\' => ['\\', '\\']
  | c => if c = quote then ['\\', c] else if isPlain c then [c] else codePoint c

def listingString (s : String) : String :=
  String.ofList ('"' :: s.toList.flatMap (listingChar '"') ++ ['"'])

def listingCharacter (c : Char) : String :=
  String.ofList ('\x27' :: listingChar '\x27' c ++ ['\x27'])

end RegisterScheme.Quoted
