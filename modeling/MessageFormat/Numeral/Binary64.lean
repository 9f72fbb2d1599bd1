import MessageFormat.Numeral.Decimal

/-! Binary numbers of double precision: a significand below 2^53 times a power of two whose exponent is
between -1074 and 971. A decimal number is rounded to the nearest of them, of two equally near ones to
the one with an even significand. A binary number is written with the fewest decimal digits that are
rounded back to it, and of the texts with that many digits with the one nearest to it. All arithmetic is
exact. -/

namespace MessageFormat

/-- The number `significand` times two to the power `exponent`, or its negative. -/
structure Binary64 where
  negative : Bool
  significand : Nat
  exponent : Int
  deriving DecidableEq, Repr

namespace Binary64

/-- The least exponent. -/
def minExponent : Int := -1074

/-- The greatest exponent. -/
def maxExponent : Int := 971

/-- The quotient rounded to an integer, a half to the even one. -/
def roundDiv (num den : Nat) : Nat :=
  let q := num / den
  let r := num % den
  if 2 * r < den then q
  else if den < 2 * r then q + 1
  else q + q % 2

/-- The quotient of `num` by `den` times two to the power `e`, as a quotient. -/
def scale (num den : Nat) (e : Int) : Nat × Nat :=
  if 0 ≤ e then (num, den * Nat.pow 2 e.toNat) else (num * Nat.pow 2 (-e).toNat, den)

/-- The exponent of the greatest power of two that is at most a positive quotient. -/
def floorLog2 (num den : Nat) : Int :=
  let e : Int := (num.log2 : Int) - den.log2
  let (n, d) := scale num den e
  if n < d then e - 1 else e

/-- The binary number nearest to a positive quotient; none if that is beyond the greatest one. -/
def ofQuotient? (negative : Bool) (num den : Nat) : Option Binary64 :=
  let top := floorLog2 num den - 52
  let e := if minExponent ≤ top then top else minExponent
  let (n, d) := scale num den e
  let m := roundDiv n d
  let x : Binary64 := if m = Nat.pow 2 53 then ⟨negative, Nat.pow 2 52, e + 1⟩ else ⟨negative, m, e⟩
  if x.exponent ≤ maxExponent then some x else none

/-- The number of decimal places before the point beyond which every number is too great. -/
def maxPlaces : Int := 310

/-- The number of decimal places before the point below which every number is rounded to zero. -/
def minPlaces : Int := -330

/-- The binary number nearest to a decimal number; none if that is beyond the greatest one. -/
def ofDecimal? (x : Decimal) : Option Binary64 :=
  let places : Int := (Nat.toDigits 10 x.digits).length + x.exponent
  if x.digits = 0 ∨ places < minPlaces then some ⟨x.negative, 0, minExponent⟩
  else if maxPlaces < places then none
  else if 0 ≤ x.exponent then ofQuotient? x.negative (x.digits * Nat.pow 10 x.exponent.toNat) 1
  else ofQuotient? x.negative x.digits (Nat.pow 10 (-x.exponent).toNat)

/-- The decimal number on the grid of the multiples of ten to the power `g` that is rounded to `x`, if
one of the two neighbours of `x` on the grid is. Of two it is the nearer one, and the greater one if they
are equally near. Everything is counted in the unit `2 ^ (exponent - 2) * 10 ^ (-g)` or a fraction of it. -/
def onGrid? (x : Binary64) (g : Int) : Option Decimal :=
  let two := x.exponent - 2
  let unit := Nat.pow 2 two.toNat * Nat.pow 10 (-g).toNat
  let grid := Nat.pow 2 (-two).toNat * Nat.pow 10 g.toNat
  let value := 4 * x.significand * unit
  let below := if x.significand = Nat.pow 2 52 ∧ minExponent < x.exponent then 1 else 2
  let low := (4 * x.significand - below) * unit
  let high := (4 * x.significand + 2) * unit
  let roundsBack (k : Nat) : Bool :=
    if x.significand % 2 = 0 then low ≤ k * grid && k * grid ≤ high
    else low < k * grid && k * grid < high
  let k := value / grid
  match roundsBack k, roundsBack (k + 1) with
  | true, true => some ⟨x.negative, if 2 * (value % grid) < grid then k else k + 1, g⟩
  | true, false => some ⟨x.negative, k, g⟩
  | false, true => some ⟨x.negative, k + 1, g⟩
  | false, false => none

/-- The power of ten of the coarsest grid that is tried: it is beyond the greatest number. -/
def coarsest : Int := 309

/-- How many grids are tried, each ten times as fine as the one before. The finest one tells all numbers
apart. -/
def gridCount : Nat := 660

/-- The decimal number with the fewest digits that is rounded to `x`: the one on the coarsest grid that
has one. -/
def shortest (x : Binary64) : Decimal :=
  let zero : Decimal := ⟨x.negative, 0, 0⟩
  if x.significand = 0 then zero
  else ((List.range gridCount).findSome? fun i : Nat => x.onGrid? (coarsest - i)).getD zero

end Binary64
end MessageFormat
