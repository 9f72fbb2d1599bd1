import MessageFormat.Numeral.Binary64
import MessageFormat.Numeral.Integer
import MessageFormat.Text.WhiteSpace

/-! The number that the text of an exact key stands for: the integer, if it is one of 64 bits, else the
nearest binary number of double precision. A text that is no number, or one that is too great, stands
for the undefined number, which equals nothing. -/

namespace MessageFormat

/-- What an exact key is compared with. -/
inductive Quantity where
  | integer (n : Int64)
  | binary (x : Binary64)
  | undefined
  deriving DecidableEq, Repr

namespace Quantity

/-- The quantity that a text stands for. White space around it does not count. -/
def ofText (text : String) : Quantity :=
  let s := trim text.toList
  match Integer.read? s with
  | some n => .integer n
  | none =>
    match (Decimal.read? s).bind Binary64.ofDecimal? with
    | some x => .binary x
    | none => .undefined

/-- The literal for a quantity. -/
def literal : Quantity → String
  | .integer n => n.toInt.repr
  | .binary x => x.shortest.positional
  | .undefined => "NaN"

end Quantity
end MessageFormat
