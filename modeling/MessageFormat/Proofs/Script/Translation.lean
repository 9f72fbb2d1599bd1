import MessageFormat.Proofs.Script.Reader
import MessageFormat.Script.Source

/-! The program that a compiled function is, and which functions have a source text that can be read. -/

namespace MessageFormat.Script

open Program (Constant Reference Call Atom Expr Part)

/-- A subject as a reference. -/
def Subject.reference (s : Subject) : Reference :=
  if s.offset = 0 then .name s.name else .difference s.name s.offset.toInt

/-- The settings of a formatter. -/
def Formatter.setting : Formatter → Option (String × Constant)
  | .number .plain => none
  | .number .percent => some ("style", .text "percent")
  | .number .integer => some ("maximumFractionDigits", .integer 0)
  | .date style => style.map fun s => ("dateStyle", .text s.name)
  | .time style => style.map fun s => ("timeStyle", .text s.name)

/-- The constructor of a formatter, as a name of the facility. -/
def Formatter.facility : Formatter → String
  | .number _ => "NumberFormat"
  | .date _ | .time _ => "DateTimeFormat"

/-- A formatted value as a call. -/
def Formatter.call (locale : String) (f : Formatter) (subject : Subject) : Call :=
  ⟨f.facility, locale, f.setting, "format", subject.reference⟩

/-- The plural category of a subject as a call. -/
def categoryCall (locale : String) (kind : PluralKind) (subject : Subject) : Call :=
  ⟨"PluralRules", locale, some ("type", .text kind.name), "select", subject.reference⟩

/-- Whether a test compares strictly. -/
def Test.strict : Test → Bool
  | .equal _ _ => false
  | .identical _ _ | .category _ _ _ => true

/-- What a test compares. -/
def Test.left (locale : String) : Test → Atom
  | .identical name _ | .equal name _ => .reference (.name name)
  | .category kind subject _ => .call (categoryCall locale kind subject)

/-- What a test compares with. Only integers are literals of the programs. -/
def Test.right : Test → Atom
  | .identical _ key | .category _ _ key => .constant (.text key)
  | .equal _ (.integer n) => .constant (.integer n.toInt)
  | .equal _ value => .reference (.name value.literal)

mutual

/-- The parts that a piece of a template is. -/
def pieceParts (locale : String) : Piece → List Part
  | .text s => s.toList.map .char
  | .value name => [.hole (.atom (.reference (.name name)))]
  | .formatted formatter subject => [.hole (.atom (.call (formatter.call locale subject)))]
  | .choice arms none => [.hole (armsExpr locale (.atom (.constant (.text ""))) arms)]
  | .choice arms (some body) => [.hole (armsExpr locale (.template (piecesParts locale body)) arms)]

/-- The parts that the pieces of a template are. -/
def piecesParts (locale : String) : List Piece → List Part
  | [] => []
  | p :: ps => pieceParts locale p ++ piecesParts locale ps

/-- The chain of conditionals that arms are, before the expression for when no test holds. -/
def armsExpr (locale : String) (fallback : Expr) : List (Test × List Piece) → Expr
  | [] => fallback
  | (test, body) :: arms =>
    .conditional test.strict (test.left locale) test.right (.template (piecesParts locale body))
      (armsExpr locale fallback arms)

end

/-- The program that a function is. -/
def toProgram (locale : String) (script : Script) : Program :=
  ⟨script.parameters, piecesParts locale script.body⟩

/-! ### Functions that can be read -/

/-- A text that can be written between quotation marks, if its quotation marks and backslashes are escaped:
it does not end the line. -/
def Quotable (s : String) : Prop :=
  ∀ c ∈ s.toList, Program.isLineTerminator c = false

/-- A text that stands for itself between quotation marks. -/
def IsPlain (s : String) : Prop :=
  Quotable s ∧ '"' ∉ s.toList ∧ '\\' ∉ s.toList

/-- A test of a name against a key or an integer. -/
def Test.Readable : Test → Prop
  | .identical name key => Program.isName name ∧ Quotable key
  | .equal name value => Program.isName name ∧ ∃ n, value = .integer n
  | .category _ subject key => Program.isName subject.name ∧ Quotable key

mutual

/-- A piece whose names can be read as names and whose tests can be read. -/
def PieceReadable : Piece → Prop
  | .text _ => True
  | .value name => Program.isName name
  | .formatted _ subject => Program.isName subject.name
  | .choice arms none => ArmsReadable arms
  | .choice arms (some body) => ArmsReadable arms ∧ PiecesReadable body

/-- Pieces all of which can be read. -/
def PiecesReadable : List Piece → Prop
  | [] => True
  | p :: ps => PieceReadable p ∧ PiecesReadable ps

/-- Arms all of which can be read. -/
def ArmsReadable : List (Test × List Piece) → Prop
  | [] => True
  | (test, body) :: arms => test.Readable ∧ PiecesReadable body ∧ ArmsReadable arms

end

/-- A function whose parameters can be bound and whose template can be read. -/
structure Readable (script : Script) : Prop where
  names : ∀ x ∈ script.parameters, Program.isName x
  nodup : script.parameters.Nodup
  body : PiecesReadable script.body

end MessageFormat.Script
