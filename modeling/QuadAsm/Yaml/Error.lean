import QuadAsm.Text.Bytes

/-!
# What can be wrong with a document

A document that cannot be read at all has one `SyntaxError`: a problem and the line it is blamed
on. The line is left out when the blame falls on the first line.
-/

namespace QuadAsm.Yaml

/-- The ways in which a text fails to be a document. -/
inductive Problem where
  | badEncoding
  | controlCharacter
  | unexpectedCharacter
  | nestingTooDeep
  | keyWithoutColon
  | entryNotAllowed
  | keyNotAllowed
  | valueNotAllowed
  | tabInIndentation
  | tabInBlockScalar
  | zeroIndentation
  | lineEndExpected
  | documentMarkInScalar
  | unclosedScalar
  | unknownEscape
  | badEscapeDigit
  | badEscapeValue
  | badAnchor
  | unclosedTag
  | badTagEnd
  | badTagHandle
  | emptyTag
  | badTagEscape
  | badDirectiveName
  | unknownDirective
  | badVersion
  | duplicateDirective
  | wrongVersion
  | documentStartExpected
  | undefinedTagHandle
  | nodeExpected
  | entryExpected
  | keyExpected
  | flowSequenceEndExpected
  | flowMappingEndExpected
  | unknownAnchor (name : String)
  deriving DecidableEq, Repr

/-- The wording of a problem. -/
def Problem.message : Problem → String
  | badEncoding => "invalid Unicode character"
  | controlCharacter => "control characters are not allowed"
  | unexpectedCharacter => "found character that cannot start any token"
  | nestingTooDeep => "exceeded max depth of 10000"
  | keyWithoutColon => "could not find expected ':'"
  | entryNotAllowed => "block sequence entries are not allowed in this context"
  | keyNotAllowed => "mapping keys are not allowed in this context"
  | valueNotAllowed => "mapping values are not allowed in this context"
  | tabInIndentation => "found a tab character that violates indentation"
  | tabInBlockScalar => "found a tab character where an indentation space is expected"
  | zeroIndentation => "found an indentation indicator equal to 0"
  | lineEndExpected => "did not find expected comment or line break"
  | documentMarkInScalar => "found unexpected document indicator"
  | unclosedScalar => "found unexpected end of stream"
  | unknownEscape => "found unknown escape character"
  | badEscapeDigit => "did not find expected hexdecimal number"
  | badEscapeValue => "found invalid Unicode character escape code"
  | badAnchor => "did not find expected alphabetic or numeric character"
  | unclosedTag => "did not find the expected '>'"
  | badTagEnd => "did not find expected whitespace or line break"
  | badTagHandle => "did not find expected '!'"
  | emptyTag => "did not find expected tag URI"
  | badTagEscape => "did not find URI escaped octet"
  | badDirectiveName => "could not find expected directive name"
  | unknownDirective => "found unknown directive name"
  | badVersion => "did not find expected version number"
  | duplicateDirective => "found duplicate %TAG directive"
  | wrongVersion => "found incompatible YAML document"
  | documentStartExpected => "did not find expected <document start>"
  | undefinedTagHandle => "found undefined tag handle"
  | nodeExpected => "did not find expected node content"
  | entryExpected => "did not find expected '-' indicator"
  | keyExpected => "did not find expected key"
  | flowSequenceEndExpected => "did not find expected ',' or ']'"
  | flowMappingEndExpected => "did not find expected ',' or '\x7d'"
  | unknownAnchor name => s!"unknown anchor '{name}' referenced"

/-- Why a text is no document. -/
structure SyntaxError where
  problem : Problem
  /-- The line to blame, counted from one, if it is named at all. -/
  line : Option Nat := none
  deriving DecidableEq, Repr

/-- The error as it is reported. -/
def SyntaxError.message (e : SyntaxError) : String :=
  match e.line with
  | some n => s!"yaml: line {n}: {e.problem.message}"
  | none => s!"yaml: {e.problem.message}"

end QuadAsm.Yaml
