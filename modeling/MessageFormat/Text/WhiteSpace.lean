/-! White space, in the sense of the Unicode property White_Space. A pattern may be laid out with any
of these characters between its parts, and the style of an argument is trimmed of them. -/

namespace MessageFormat

/-- The Unicode property White_Space. -/
def isWhiteSpace (c : Char) : Bool :=
  let n := c.toNat
  (0x09 ≤ n && n ≤ 0x0D) || n == 0x20 || n == 0x85 || n == 0xA0 || n == 0x1680 ||
    (0x2000 ≤ n && n ≤ 0x200A) || n == 0x2028 || n == 0x2029 || n == 0x202F || n == 0x205F ||
    n == 0x3000

/-- The text after its leading white space. -/
def skipWhiteSpace (s : List Char) : List Char :=
  s.dropWhile isWhiteSpace

/-- The text without the white space at its two ends. -/
def trim (s : List Char) : List Char :=
  (skipWhiteSpace (skipWhiteSpace s).reverse).reverse

theorem skipWhiteSpace_suffix (s : List Char) : skipWhiteSpace s <:+ s :=
  List.dropWhile_suffix _

end MessageFormat
