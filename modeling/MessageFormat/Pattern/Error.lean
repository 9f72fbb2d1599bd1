import MessageFormat.Text.Position

/-! What can be wrong with a pattern. A cause says what was expected and did not come; while a pattern
is read a failure holds the cause and the text that was left where the fault begins and where it ends,
and for the reader of the message that becomes an error between two positions. -/

namespace MessageFormat.Pattern

/-- Why a pattern is refused. -/
inductive Cause where
  | unterminatedArgument
  | emptyArgument
  | nameExpected
  | separatorExpected
  | closingBraceExpected
  | unknownType (type : String)
  | styleExpected
  | optionsSeparatorExpected
  | invalidOffset (digits : String)
  | unterminatedOptions (name : String)
  | optionsExpected (name : String)
  | otherExpected (name : String)
  | selectorExpected (name : String)
  | invalidExactSelector (digits : String)
  | duplicateOption (key name : String)
  | branchExpected
  | branchEndExpected
  | openingTagUnfinished (name : String)
  | unclosedTag (name : String)
  | mismatchedClosingTag (opened closed : String)
  | closingTagUnfinished (name : String)
  | unmatchedClosingTag (name : String)
  deriving DecidableEq, Repr

namespace Cause

/-- The code by which programs tell causes apart. -/
def code : Cause → String
  | .unterminatedArgument | .separatorExpected | .closingBraceExpected | .unterminatedOptions _ =>
    "expect-argument-closing-brace"
  | .emptyArgument => "empty-argument"
  | .nameExpected => "malformed-argument"
  | .unknownType _ => "invalid-argument-type"
  | .styleExpected => "expect-argument-style"
  | .optionsSeparatorExpected | .optionsExpected _ => "expect-options"
  | .invalidOffset _ => "invalid-offset"
  | .otherExpected _ => "missing-other-clause"
  | .selectorExpected _ => "expect-option-selector"
  | .invalidExactSelector _ => "invalid-plural-selector"
  | .duplicateOption _ _ => "duplicate-option"
  | .branchExpected => "expect-option-body"
  | .branchEndExpected => "expect-option-closing-brace"
  | .openingTagUnfinished _ | .closingTagUnfinished _ => "invalid-tag"
  | .unclosedTag _ => "unclosed-tag"
  | .mismatchedClosingTag _ _ => "mismatched-closing-tag"
  | .unmatchedClosingTag _ => "unmatched-closing-tag"

/-- The sentence for people. -/
def message : Cause → String
  | .unterminatedArgument => "Unterminated argument"
  | .emptyArgument => "Empty argument"
  | .nameExpected => "Expected an argument name"
  | .separatorExpected | .optionsSeparatorExpected => "Expected ','"
  | .closingBraceExpected | .branchEndExpected => "Expected '\x7d'"
  | .unknownType type => "Unknown argument type \"" ++ type ++ "\""
  | .styleExpected => "Expected an argument style"
  | .invalidOffset digits => "Invalid plural offset \"" ++ digits ++ "\""
  | .unterminatedOptions name => "Unterminated options for \"" ++ name ++ "\""
  | .optionsExpected name => "Expected at least one option for \"" ++ name ++ "\""
  | .otherExpected name => "Argument \"" ++ name ++ "\" requires an \"other\" option"
  | .selectorExpected name => "Expected an option selector for \"" ++ name ++ "\""
  | .invalidExactSelector digits => "Invalid exact selector \"=" ++ digits ++ "\""
  | .duplicateOption key name => "Duplicate option \"" ++ key ++ "\" for \"" ++ name ++ "\""
  | .branchExpected => "Expected '\x7b'"
  | .openingTagUnfinished name => "Expected '>' to close opening tag <" ++ name
  | .unclosedTag name => "Unclosed tag <" ++ name ++ ">"
  | .mismatchedClosingTag opened closed =>
    "Expected </" ++ opened ++ "> but found </" ++ closed ++ ">"
  | .closingTagUnfinished name => "Expected '>' to close closing tag </" ++ name
  | .unmatchedClosingTag name => "Closing tag </" ++ name ++ "> has no matching opening tag"

end Cause

/-- A fault met while reading: its cause, the text left at its beginning and the text left at its
end. -/
structure Failure where
  cause : Cause
  start : List Char
  stop : List Char
  deriving DecidableEq, Repr

/-- A fault of a pattern: its cause, and the positions between which it lies. -/
structure Error where
  cause : Cause
  start : Position
  stop : Position
  deriving DecidableEq, Repr

/-- The error that a failure is in the pattern `whole`. -/
def Failure.locate (whole : List Char) (f : Failure) : Error :=
  ⟨f.cause, .ofRest whole f.start, .ofRest whole f.stop⟩

namespace Error

/-- The line and the column of a position, separated by a colon. -/
def place (p : Position) : String :=
  p.line.repr ++ ":" ++ p.column.repr

/-- An error on one line: where, what, and the code. A fault without extent has one place. -/
def display (e : Error) : String :=
  let places := if e.start = e.stop then place e.start else place e.start ++ "-" ++ place e.stop
  places ++ ": " ++ e.cause.message ++ " (" ++ e.cause.code ++ ")"

end Error
end MessageFormat.Pattern
