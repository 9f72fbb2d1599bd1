/-! Places in a text. A place is given by the line, by the characters since the line began and by the
bytes since the text began, all counted from zero. Only a line feed ends a line. -/

namespace MessageFormat

/-- A place in a text. -/
structure Position where
  line : Nat
  column : Nat
  offset : Nat
  deriving DecidableEq, Repr

namespace Position

/-- The beginning of a text. -/
def start : Position := ⟨0, 0, 0⟩

/-- The place behind one more character. -/
def advance (p : Position) (c : Char) : Position :=
  if c = '\n' then ⟨p.line + 1, 0, p.offset + c.utf8Size⟩
  else ⟨p.line, p.column + 1, p.offset + c.utf8Size⟩

/-- The place behind a text. -/
def after (consumed : List Char) : Position :=
  consumed.foldl advance start

/-- The place in `whole` where the part `rest` that ends it begins. -/
def ofRest (whole rest : List Char) : Position :=
  after (whole.take (whole.length - rest.length))

end Position

end MessageFormat
