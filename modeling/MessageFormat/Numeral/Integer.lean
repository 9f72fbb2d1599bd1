/-! Integers written as an optional sign and decimal digits, read into 64 bits. -/

namespace MessageFormat.Integer

/-- The sign, if there is one, and the digits at the front of a text, and what follows them. -/
def scan : List Char → List Char × List Char
  | '-' :: s => ('-' :: s.takeWhile Char.isDigit, s.dropWhile Char.isDigit)
  | '+' :: s => ('+' :: s.takeWhile Char.isDigit, s.dropWhile Char.isDigit)
  | s => (s.takeWhile Char.isDigit, s.dropWhile Char.isDigit)

/-- The value of a text made of digits, at least one. -/
def natural? (s : List Char) : Option Nat :=
  if !s.isEmpty && s.all Char.isDigit then some (Nat.ofDigitChars 10 s 0) else none

/-- The value of a text made of an optional sign and digits, at least one. -/
def value? : List Char → Option Int
  | '-' :: s => (natural? s).map fun n => -(n : Int)
  | '+' :: s => (natural? s).map fun n => (n : Int)
  | s => (natural? s).map fun n => (n : Int)

/-- Whether an integer can be held in 64 bits with a sign. -/
def fits (n : Int) : Bool :=
  Int64.minValue.toInt ≤ n && n ≤ Int64.maxValue.toInt

/-- The value of a signed decimal text that fits in 64 bits. -/
def read? (s : List Char) : Option Int64 :=
  ((value? s).filter fits).map Int64.ofInt

theorem scan_append (s : List Char) : (scan s).1 ++ (scan s).2 = s := by
  unfold scan
  split <;> simp [List.takeWhile_append_dropWhile]

end MessageFormat.Integer
