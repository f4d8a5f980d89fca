import RegisterScheme.Token.Basic

/-! What can be wrong with a source text: with its characters, its brackets, the places of its
names, and the shape of its forms. -/

namespace RegisterScheme

/-- What was still open where the input ended. -/
inductive Unfinished where
  | datum
  | quoted (mark : QuoteMark)
  | list (bracket : Bracket)
  | dottedList
  | vector
deriving DecidableEq, Repr

def Unfinished.text : Unfinished → String
  | datum => "datum"
  | quoted m => m.name
  | list b => s!"list opened with '{b.opening}'"
  | dottedList => "dotted list"
  | vector => "vector"

inductive Malformed.Kind where
  | invalid
  | incomplete
  | tooDeeplyNested
  | unbalanced
  | beyondLimit
deriving DecidableEq, Repr

inductive Malformed.Cause where
  -- tokens
  | unrecognizedToken
  | malformedNumber
  | integerOutOfRange
  | malformedHexadecimal
  | unknownCharacterName
  | unknownEscape
  | unterminatedString
  | unterminatedComment
  | commentsDisabled
  | malformedLineEnding
  -- data
  | nestedBeyond (limit : Nat)
  | endOfInput (within : Unfinished)
  | unexpectedClosing (bracket : Bracket)
  | mismatched (opened closed : Bracket)
  | misplacedDot
  | leadingDot
  | dotInVector
  | nothingAfterDot
  | manyAfterDot
  | inputAfterDatum
  -- names
  | alreadyBound (name : String)
  | alreadyBoundLocally (name : String)
  | alreadyParameter (name : String)
  | definedAfterUse (name : String)
  | specialFormAsValue (name : String)
  | assignedSpecialForm (name : String)
  -- forms
  | improperExpression
  | outsideQuasiquote (name : String)
  | splicingOutsideList
  | assignmentTarget
  | definitionTarget
  | namelessProcedure
  | parameterList
  | parameterName
  | optionalParameter
  | misplacedMarker (marker : String)
  | restWithoutName
  | manyRestParameters
  | dottedAfterMarker
  | clauseShape
  | elseNotLast
  | elseWithoutBody
  | bindingsShape
  | bindingShape
  /-- The words of a host. -/
  | reported (message : String)
deriving DecidableEq, Repr

namespace Malformed.Cause

def kind : Cause → Kind
  | integerOutOfRange => .beyondLimit
  | unterminatedString | unterminatedComment | endOfInput _ => .incomplete
  | nestedBeyond _ => .tooDeeplyNested
  | unexpectedClosing _ | mismatched _ _ => .unbalanced
  | _ => .invalid

def text : Cause → String
  | unrecognizedToken => "unrecognized token"
  | malformedNumber => "malformed number"
  | integerOutOfRange => "integer literal out of range"
  | malformedHexadecimal => "malformed hexadecimal literal"
  | unknownCharacterName => "unknown character name"
  | unknownEscape => "unknown escape sequence"
  | unterminatedString => "unterminated string literal"
  | unterminatedComment => "unterminated block comment"
  | commentsDisabled => "comments are not enabled"
  | malformedLineEnding => "malformed line ending"
  | nestedBeyond limit => s!"expression too deeply nested (max depth: {limit})"
  | endOfInput within => s!"unexpected end of input in {within.text}"
  | unexpectedClosing b => s!"unexpected '{b.closing}'"
  | mismatched opened closed => s!"'{opened.opening}' closed by mismatched '{closed.closing}'"
  | misplacedDot => "'.' is only allowed before the last datum of a list"
  | leadingDot => "'.' must follow at least one datum"
  | dotInVector => "'.' is not allowed in a vector"
  | nothingAfterDot => "expected a datum after '.'"
  | manyAfterDot => "exactly one datum may follow '.'"
  | inputAfterDatum => "unexpected input after datum"
  | alreadyBound name => s!"`{name}` is already bound in this scope"
  | alreadyBoundLocally name => s!"`{name}` is already bound locally in this scope"
  | alreadyParameter name => s!"`{name}` is already bound as a parameter"
  | definedAfterUse name => s!"`{name}` is defined after being used as a free variable"
  | specialFormAsValue name => s!"`{name}` is a special form and cannot be used as a value"
  | assignedSpecialForm name => s!"cannot assign to special form `{name}`"
  | improperExpression => "an improper list is not a valid expression"
  | outsideQuasiquote name => s!"`{name}` used outside of quasiquote"
  | splicingOutsideList => "unquote-splicing must appear inside a list"
  | assignmentTarget => "set! target must be an identifier"
  | definitionTarget => "define expects a name or a procedure header"
  | namelessProcedure => "named-lambda needs a name"
  | parameterList => "malformed parameter list"
  | parameterName => "parameter name must be an identifier"
  | optionalParameter => "malformed optional parameter"
  | misplacedMarker marker => s!"misplaced `{marker}`"
  | restWithoutName => "`&rest` needs a parameter name"
  | manyRestParameters => "`&rest` takes exactly one parameter"
  | dottedAfterMarker => "a dotted rest parameter cannot follow `&rest` or `&key`"
  | clauseShape => "cond clause must be a non-empty list"
  | elseNotLast => "else must be the last cond clause"
  | elseWithoutBody => "else clause needs a body"
  | bindingsShape => "let bindings must be a list"
  | bindingShape => "malformed let binding"
  | reported message => message

end Malformed.Cause

/-- A fault of the source, with the offending text and its place where they are known. -/
structure Malformed where
  cause : Malformed.Cause
  found : Option String
  location : Option Location
deriving DecidableEq, Repr

end RegisterScheme
