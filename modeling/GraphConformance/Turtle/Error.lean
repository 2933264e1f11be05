import GraphConformance.Text.Decimal
import GraphConformance.Text.Split

/-!
# Why a document cannot be read

Reading halts at a place in the text, for one of the reasons in `Cause`, or at a name whose prefix
nobody declared. `Halt.inText` turns the halt into the error that is reported: a place is reported
by its byte position, and the end of the text has no position but an error of its own.
-/

set_option autoImplicit false

namespace GraphConformance.Turtle

open Text

/-- What is wrong at a place. -/
inductive Cause where
  | unknownDirective
  | namespaceIri
  | baseIri
  | colonAfterName
  | dotAfterDirective
  | dotAfterStatement
  | closingBracket
  | literalSubject
  | predicateNotIri
  | unclosedString
  | languageTag
  | datatypeIri
  /-- No term starts here; the first characters of the text are shown. -/
  | noTerm (start : List Char)
deriving DecidableEq, Repr

/-- Where and why reading halts: before the rest of the text, or at an undeclared prefix. -/
inductive Halt where
  | before (rest : List Char) (cause : Cause)
  | undefinedPrefix (name : String)
deriving DecidableEq, Repr

/-- The error of a document. -/
inductive ParseError where
  | malformed (position : Nat) (cause : Cause)
  | undefinedPrefix (name : String)
  | unexpectedEnd
deriving DecidableEq, Repr

namespace Cause

def message : Cause → String
  | unknownDirective => "Unknown directive"
  | namespaceIri => "Expected IRI for namespace"
  | baseIri => "Expected IRI for base"
  | colonAfterName => "Expected ':' after prefix name"
  | dotAfterDirective => "Expected '.' after directive"
  | dotAfterStatement => "Expected '.' at end of statement"
  | closingBracket => "Expected ']' to close property list"
  | literalSubject => "Literal cannot be a subject"
  | predicateNotIri => "Predicate must be an IRI"
  | unclosedString => "Invalid string literal"
  | languageTag => "Invalid language tag"
  | datatypeIri => "Expected datatype IRI"
  | noTerm start => "Cannot parse term starting with: " ++ String.ofList start

end Cause

/-- The error of a halt while reading a text. -/
def Halt.inText (text : List Char) : Halt → ParseError
  | before [] _ => .unexpectedEnd
  | before (c :: rest) cause => .malformed (utf8Length text - utf8Length (c :: rest)) cause
  | undefinedPrefix name => .undefinedPrefix name

namespace ParseError

def message : ParseError → String
  | malformed position cause =>
    "Syntax error at position " ++ decimalText position ++ ": " ++ cause.message
  | undefinedPrefix name => "Undefined prefix: " ++ name
  | unexpectedEnd => "Unexpected end of input"

end ParseError

end GraphConformance.Turtle
