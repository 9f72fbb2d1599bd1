import MessageFormat.Script.Basic

/-! The source text of a function in JavaScript. A template stands between backticks; in its text the
backslash, the backtick and the dollar sign are escaped, so that the text cannot end the template or open
an expression. Keys stand between quotation marks. -/

namespace MessageFormat.Script

/-- How a character of text is written in a template. -/
def escapeTemplateChar (c : Char) : List Char :=
  if c = '\\' || c = '\x60' || c = '$' then ['\\', c] else [c]

/-- Text as it is written in a template. -/
def escapeTemplate (s : String) : String :=
  .ofList (s.toList.flatMap escapeTemplateChar)

theorem escapeTemplate_append (s t : String) :
    escapeTemplate (s ++ t) = escapeTemplate s ++ escapeTemplate t := by
  simp [escapeTemplate, String.ofList_append]

/-- How a character is written between quotation marks. -/
def escapeQuotedChar (c : Char) : List Char :=
  if c = '\\' || c = '"' then ['\\', c] else [c]

/-- Text between quotation marks. -/
def quote (s : String) : String :=
  "\"" ++ .ofList (s.toList.flatMap escapeQuotedChar) ++ "\""

/-- The expression for a subject. -/
def Subject.source (s : Subject) : String :=
  if s.offset = 0 then s.name else "(" ++ s.name ++ " - " ++ s.offset.toInt.repr ++ ")"

/-- The second argument of the constructor of a formatter, with the comma before it. -/
def Formatter.settings : Formatter → String
  | .number .plain => ""
  | .number .percent => ", \x7bstyle: \"percent\"\x7d"
  | .number .integer => ", \x7bmaximumFractionDigits: 0\x7d"
  | .date none | .time none => ""
  | .date (some style) => ",\x7bdateStyle: \"" ++ style.name ++ "\"\x7d"
  | .time (some style) => ",\x7btimeStyle: \"" ++ style.name ++ "\"\x7d"

/-- The constructor of a formatter. -/
def Formatter.constructor : Formatter → String
  | .number _ => "Intl.NumberFormat"
  | .date _ | .time _ => "Intl.DateTimeFormat"

/-- The expression for a formatted value. -/
def Formatter.source (locale : String) (f : Formatter) (subject : Subject) : String :=
  "new " ++ f.constructor ++ "(\"" ++ locale ++ "\"" ++ f.settings ++ ").format(" ++
    subject.source ++ ")"

/-- The expression for a test. -/
def Test.source (locale : String) : Test → String
  | .identical name key => name ++ " === " ++ quote key
  | .equal name value => name ++ " == " ++ value.literal
  | .category kind subject key =>
    "new Intl.PluralRules(\"" ++ locale ++ "\", \x7btype: \"" ++ kind.name ++ "\"\x7d).select(" ++
      subject.source ++ ") === " ++ quote key

theorem Test.source_identical (locale name key : String) :
    (Test.identical name key).source locale = name ++ " === " ++ quote key := rfl

theorem Test.source_equal (locale name : String) (value : Quantity) :
    (Test.equal name value).source locale = name ++ " == " ++ value.literal := rfl

theorem Test.source_category (locale key : String) (kind : PluralKind) (subject : Subject) :
    (Test.category kind subject key).source locale =
      "new Intl.PluralRules(\"" ++ locale ++ "\", \x7btype: \"" ++ kind.name ++ "\"\x7d).select(" ++
        subject.source ++ ") === " ++ quote key := rfl

/-- A template of which the inside is written. -/
def template (inside : String) : String :=
  "\x60" ++ inside ++ "\x60"

/-- An expression inside a template. -/
def placeholder (expression : String) : String :=
  "$\x7b" ++ expression ++ "\x7d"

mutual

/-- A piece as it is written in a template. -/
def pieceSource (locale : String) : Piece → String
  | .text s => escapeTemplate s
  | .value name => placeholder name
  | .formatted formatter subject => placeholder (formatter.source locale subject)
  | .choice arms none => placeholder (armsSource locale arms ++ "\"\"")
  | .choice arms (some body) =>
    placeholder (armsSource locale arms ++ template (piecesSource locale body))

/-- Pieces as they are written in a template. -/
def piecesSource (locale : String) : List Piece → String
  | [] => ""
  | p :: ps => pieceSource locale p ++ piecesSource locale ps

/-- The arms of a choice, each with its test in front and ready for what comes if the test fails. -/
def armsSource (locale : String) : List (Test × List Piece) → String
  | [] => ""
  | (test, body) :: arms =>
    test.source locale ++ " ? " ++ template (piecesSource locale body) ++ " : " ++
      armsSource locale arms

end

/-- The source text of a function that takes nothing and returns a text. -/
def constantSource (text : String) : String :=
  "()=>" ++ template (escapeTemplate text)

/-- The source text of a function for a locale. -/
def functionSource (locale : String) (script : Script) : String :=
  "(\x7b" ++ ",".intercalate script.parameters ++ "\x7d) => " ++ template (piecesSource locale script.body)

end MessageFormat.Script
