/-! What can be wrong with a JSON text. A fault is reported with the line, counted from one, and with the
number of bytes of that line up to and with the character that shows the fault. -/

namespace MessageFormat.Json

/-- Why a JSON text is refused. -/
inductive Fault where
  | unfinishedValue
  | unfinishedArray
  | unfinishedObject
  | unfinishedString
  | colonExpected
  | arrayEndExpected
  | objectEndExpected
  | wordExpected
  | valueExpected
  | invalidEscape
  | invalidNumber
  | numberOutOfRange
  | controlCharacter
  | keyExpected
  | loneSurrogate
  | unfinishedSurrogatePair
  | trailingComma
  | trailingCharacters
  | tooDeep
  deriving DecidableEq, Repr

/-- The words for a fault. -/
def Fault.words : Fault → String
  | .unfinishedValue => "EOF while parsing a value"
  | .unfinishedArray => "EOF while parsing a list"
  | .unfinishedObject => "EOF while parsing an object"
  | .unfinishedString => "EOF while parsing a string"
  | .colonExpected => "expected \x60:\x60"
  | .arrayEndExpected => "expected \x60,\x60 or \x60]\x60"
  | .objectEndExpected => "expected \x60,\x60 or \x60\x7d\x60"
  | .wordExpected => "expected ident"
  | .valueExpected => "expected value"
  | .invalidEscape => "invalid escape"
  | .invalidNumber => "invalid number"
  | .numberOutOfRange => "number out of range"
  | .controlCharacter => "control character (\\u0000-\\u001F) found while parsing a string"
  | .keyExpected => "key must be a string"
  | .loneSurrogate => "lone leading surrogate in hex escape"
  | .unfinishedSurrogatePair => "unexpected end of hex escape"
  | .trailingComma => "trailing comma"
  | .trailingCharacters => "trailing characters"
  | .tooDeep => "recursion limit exceeded"

/-- A fault and the text left behind the character that shows it. -/
structure SyntaxError where
  fault : Fault
  rest : List Char
  deriving DecidableEq, Repr

/-- Refuses a text for a fault that shows in the character `s` begins with. -/
def refuseAt {α : Type} (fault : Fault) (s : List Char) : Except SyntaxError α :=
  .error ⟨fault, s.drop 1⟩

/-- The number of bytes of a text. -/
def byteLength (s : List Char) : Nat :=
  s.foldl (fun n c => n + c.utf8Size) 0

/-- A fault of the text `whole` on one line. -/
def SyntaxError.message (whole : List Char) (e : SyntaxError) : String :=
  let consumed := whole.take (whole.length - e.rest.length)
  let line := consumed.count '\n' + 1
  let column := byteLength (consumed.reverse.takeWhile (· != '\n'))
  e.fault.words ++ " at line " ++ line.repr ++ " column " ++ column.repr

end MessageFormat.Json
