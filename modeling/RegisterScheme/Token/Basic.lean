import RegisterScheme.Atom
import RegisterScheme.Location

/-! The tokens of a source text. -/

namespace RegisterScheme

inductive Bracket where
  | round
  | square
deriving DecidableEq, Repr

def Bracket.opening : Bracket → String
  | round => "("
  | square => "["

def Bracket.closing : Bracket → String
  | round => ")"
  | square => "]"

/-- The marks that abbreviate a form of two items. -/
inductive QuoteMark where
  | quote
  | quasiquote
  | unquote
  | unquoteSplicing
deriving DecidableEq, Repr

/-- The head of the form that a mark abbreviates. -/
def QuoteMark.name : QuoteMark → String
  | quote => "quote"
  | quasiquote => "quasiquote"
  | unquote => "unquote"
  | unquoteSplicing => "unquote-splicing"

def QuoteMark.text : QuoteMark → String
  | quote => "'"
  | quasiquote => "`"
  | unquote => ","
  | unquoteSplicing => ",@"

inductive Token.Kind where
  | opening (bracket : Bracket)
  | closing (bracket : Bracket)
  /-- A hash sign and a round bracket, which a round bracket closes. -/
  | openVector
  | dot
  | mark (mark : QuoteMark)
  /-- A hash sign and a semicolon: the next datum is left out. -/
  | datumComment
  /-- An atom that stands for itself; a keyword is a symbol with its colon. -/
  | literal (a : Atom)
  | identifier (name : String)

structure Token where
  kind : Token.Kind
  location : Location

/-- How messages show a token. Only here do floats, characters and strings differ from the way
a program writes them. -/
def Token.Kind.text : Token.Kind → String
  | opening b => s!"'{b.opening}'"
  | closing b => s!"'{b.closing}'"
  | openVector => "'#('"
  | dot => "'.'"
  | mark m => s!"'{m.text}'"
  | datumComment => "'#;'"
  | literal (.float x) => Decimal.Layout.plain.write x
  | literal (.character c) => "#\\" ++ c.toString
  | literal (.string s) => Quoted.listingString s
  | literal a => a.text
  | identifier name => name

end RegisterScheme
