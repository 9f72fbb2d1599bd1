/-! Numbers in decimal notation, with a point and an exponent. There must be a digit before the point or
behind it, and one in the exponent if there is one. -/

namespace MessageFormat

/-- The number `digits` times ten to the power `exponent`, or its negative. -/
structure Decimal where
  negative : Bool
  digits : Nat
  exponent : Int
  deriving DecidableEq, Repr

namespace Decimal

/-- A sign at the front of a text, and what follows it. No sign is as good as a plus sign. -/
def readSign : List Char → Bool × List Char
  | '-' :: s => (true, s)
  | '+' :: s => (false, s)
  | s => (false, s)

/-- The digits behind a point at the front of a text, and what follows them. -/
def readFraction : List Char → List Char × List Char
  | '.' :: s => (s.takeWhile Char.isDigit, s.dropWhile Char.isDigit)
  | s => ([], s)

/-- The exponent that a text is, zero for the empty text. -/
def readExponent? : List Char → Option Int
  | [] => some 0
  | c :: s =>
    let (negative, digits) := readSign s
    if (c = 'e' || c = 'E') && !digits.isEmpty && digits.all Char.isDigit then
      let n : Int := Nat.ofDigitChars 10 digits 0
      some (if negative then -n else n)
    else none

/-- The number that a text is. -/
def read? (s : List Char) : Option Decimal :=
  let (negative, s) := readSign s
  let whole := s.takeWhile Char.isDigit
  let (fraction, s) := readFraction (s.dropWhile Char.isDigit)
  if whole.isEmpty && fraction.isEmpty then none
  else (readExponent? s).map fun e =>
    ⟨negative, Nat.ofDigitChars 10 (whole ++ fraction) 0, e - fraction.length⟩

/-- The number written without an exponent: with as many zeros as it takes, and with a point only if
there is a fraction. -/
def positional (x : Decimal) : String :=
  let digits := Nat.toDigits 10 x.digits
  let sign := if x.negative then ['-'] else []
  if 0 ≤ x.exponent then .ofList (sign ++ digits ++ List.replicate x.exponent.toNat '0')
  else
    let places := (-x.exponent).toNat
    let padded := List.replicate (places + 1 - digits.length) '0' ++ digits
    let cut := padded.length - places
    .ofList (sign ++ padded.take cut ++ '.' :: padded.drop cut)

end Decimal
end MessageFormat
