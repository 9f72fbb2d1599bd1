import MessageFormat.Element
import MessageFormat.Proofs.Scanning

/-! The text of a message in the notation of patterns. White space may stand behind an opening brace, around
the commas, the keys and the offset of an argument and before the greater sign of a tag, and a layout says
how much of it stands at each of these places. -/

namespace MessageFormat.Pattern

/-- White space, perhaps none. -/
abbrev Blank : Type := { w : List Char // IsBlank w }

/-- The white space of a pattern. The places where it may stand have paths: a number for each element,
branch or list of them that the place lies in, and a number for the place itself. -/
abbrev Layout : Type := List Nat → Blank

namespace Layout

/-- The white space at a place that lies in no part. -/
def blank (layout : Layout) (i : Nat) : List Char := (layout [i]).val

/-- The layout of a part. -/
def part (layout : Layout) (i : Nat) : Layout := fun path => layout (i :: path)

theorem isBlank_blank (layout : Layout) (i : Nat) : IsBlank (layout.blank i) :=
  (layout [i]).property

end Layout

/-- The characters that are quoted in a literal. -/
def needsQuoting (inPlural : Bool) (c : Char) : Bool :=
  c = '\x7b' || c = '\x7d' || c = '<' || c = '>' || (c = '#' && inPlural)

/-- A text with each of its apostrophes written twice. -/
def doubleApostrophes (s : List Char) : List Char :=
  s.flatMap fun c => if c = '\x27' then ['\x27', '\x27'] else [c]

/-- A literal: as it is up to the first character that has to be quoted, and from there on in one
quotation. -/
def printLiteral (inPlural : Bool) (s : List Char) : List Char :=
  let plain := s.takeWhile fun c => !needsQuoting inPlural c
  let quoted := s.dropWhile fun c => !needsQuoting inPlural c
  doubleApostrophes plain ++
    if quoted.isEmpty then [] else '\x27' :: (doubleApostrophes quoted ++ ['\x27'])

/-- The keyword of a kind of plural. -/
def pluralKeyword : PluralKind → String
  | .cardinal => "plural"
  | .ordinal => "selectordinal"

/-- An argument from its opening brace to what follows its name. -/
def printName (layout : Layout) (name : String) : List Char :=
  '\x7b' :: (layout.blank 0 ++ name.toList ++ layout.blank 1)

/-- The type of an argument behind a comma. -/
def printType (layout : Layout) (keyword : String) : List Char :=
  ',' :: (layout.blank 2 ++ keyword.toList ++ layout.blank 3)

/-- The style of an argument behind a comma, if it has one, and the closing brace. -/
def printStyle (layout : Layout) : Option String → List Char
  | none => ['\x7d']
  | some style => ',' :: (layout.blank 4 ++ style.toList ++ layout.blank 5 ++ ['\x7d'])

/-- A text that follows a number, behind a space if its own digits would go on with the number. -/
def keepApart (s : List Char) : List Char :=
  if s.head?.any Char.isDigit then ' ' :: s else s

/-- The offset of a plural before its branches. Zero is not written. -/
def printOffset (layout : Layout) (offset : Int64) (branches : List Char) : List Char :=
  if offset = 0 then branches
  else
    layout.blank 4 ++ "offset:".toList ++ layout.blank 5 ++ offset.toInt.repr.toList ++ keepApart branches

mutual

/-- An element; `inPlural` says whether the nearest selection around it is a plural. -/
def printElement (layout : Layout) (inPlural : Bool) : Element → List Char
  | .literal text => printLiteral inPlural text.toList
  | .argument name => printName layout name ++ ['\x7d']
  | .number name style => printName layout name ++ printType layout "number" ++ printStyle layout style
  | .date name style =>
    printName layout name ++ printType layout "date" ++ printStyle layout (style.map DateStyle.name)
  | .time name style =>
    printName layout name ++ printType layout "time" ++ printStyle layout (style.map DateStyle.name)
  | .select name options =>
    printName layout name ++ printType layout "select" ++
      ',' :: printOptions (layout.part 6) false options
  | .plural name kind offset options =>
    printName layout name ++ printType layout (pluralKeyword kind) ++
      ',' :: printOffset layout offset (printOptions (layout.part 6) true options)
  | .pound => ['#']
  | .tag name children =>
    '<' :: (name.toList ++ layout.blank 0 ++ '>' :: printElements (layout.part 1) inPlural children ++
      '<' :: '/' :: (name.toList ++ layout.blank 2 ++ ['>']))

/-- Elements that follow each other. -/
def printElements (layout : Layout) (inPlural : Bool) : List Element → List Char
  | [] => []
  | e :: es => printElement (layout.part 0) inPlural e ++ printElements (layout.part 1) inPlural es

/-- The branches of a selection and the closing brace; `plural` says whether it is a plural. -/
def printOptions (layout : Layout) (plural : Bool) : List (String × List Element) → List Char
  | [] => layout.blank 0 ++ ['\x7d']
  | (key, branch) :: options =>
    layout.blank 0 ++ key.toList ++ layout.blank 1 ++
      '\x7b' :: printElements (layout.part 2) plural branch ++
      '\x7d' :: printOptions (layout.part 3) plural options

end

/-- The pattern of a message in a layout. -/
def print (layout : Layout) (es : List Element) : String :=
  .ofList (printElements layout false es)

end MessageFormat.Pattern
