import MessageFormat.Json.Basic
import MessageFormat.Json.SyntaxError
import MessageFormat.Numeral.Binary64

/-! Reading the numbers of JSON: a minus sign or none, digits without a leading zero, and perhaps a
fraction and an exponent. A number too great for double precision is refused. -/

namespace MessageFormat.Json

/-- A positive integer rounded to 53 binary places. -/
def roundToDouble (n : Nat) : Nat :=
  let unit := Nat.pow 2 (n.log2 - 52)
  Binary64.roundDiv n unit * unit

/-- The least integer that is rounded to a number beyond the greatest one of double precision. -/
def tooLarge : Nat := Nat.pow 2 1024 - Nat.pow 2 970

/-- The greatest power of ten of double precision. -/
def maxPowerOfTen : Int := 308

/-- Takes digits to a number as long as the number fits a machine word, and says how many were taken. -/
def accumulate (n : Nat) : List Char → Nat × Nat
  | [] => (n, 0)
  | c :: s =>
    let next := 10 * n + (c.toNat - '0'.toNat)
    if next < UInt64.size then
      let (m, taken) := accumulate next s
      (m, taken + 1)
    else (n, 0)

/-- Whether a number is too great. Only the leading digits that fit a machine word count; they and the
power of ten that they are multiplied by are rounded before the product is. -/
def outOfRange (whole fraction : List Char) (exponent : Int) : Bool :=
  let (n, taken) := accumulate 0 (whole ++ fraction)
  let power := exponent + whole.length - taken
  n ≠ 0 && 0 ≤ power &&
    (maxPowerOfTen < power || tooLarge ≤ roundToDouble n * roundToDouble (Nat.pow 10 power.toNat))

/-- The digits of a fraction, if a point comes next. -/
def readFraction (s : List Char) : Except SyntaxError (Option (List Char) × List Char) :=
  match s with
  | '.' :: r =>
    let digits := r.takeWhile Char.isDigit
    let rest := r.dropWhile Char.isDigit
    if digits.isEmpty then
      refuseAt (if rest.isEmpty then .unfinishedValue else .invalidNumber) rest
    else .ok (some digits, rest)
  | _ => .ok (none, s)

/-- An exponent, if its letter comes next. -/
def readExponent (s : List Char) : Except SyntaxError (Option Int × List Char) :=
  match s with
  | c :: r =>
    if c = 'e' || c = 'E' then
      let (negative, r) := Decimal.readSign r
      let digits := r.takeWhile Char.isDigit
      let rest := r.dropWhile Char.isDigit
      if digits.isEmpty then
        refuseAt (if rest.isEmpty then .unfinishedValue else .invalidNumber) rest
      else
        let n : Int := Nat.ofDigitChars 10 digits 0
        .ok (some (if negative then -n else n), rest)
    else .ok (none, s)
  | [] => .ok (none, [])

/-- The number of an integer without a sign or with a minus sign. An integer that fits no machine word,
and zero with a sign, are decimal numbers. -/
def ofDigits (negative : Bool) (digits : List Char) : Number :=
  let n := Nat.ofDigitChars 10 digits 0
  if negative then
    if 0 < n ∧ Int64.minValue.toInt ≤ -n then .integer (-n) else .decimal true n 0
  else if n < UInt64.size then .integer n
  else .decimal false n 0

/-- A number behind its sign. -/
def readUnsigned (negative : Bool) (s : List Char) : Except SyntaxError (Number × List Char) := do
  let whole := s.takeWhile Char.isDigit
  let rest := s.dropWhile Char.isDigit
  if whole.isEmpty then
    refuseAt (if rest.isEmpty then .unfinishedValue else .invalidNumber) rest
  else if whole.head? = some '0' ∧ 1 < whole.length then refuseAt .invalidNumber (s.drop 1)
  else do
    let (fraction?, rest) ← readFraction rest
    let (exponent?, rest) ← readExponent rest
    let places := fraction?.getD []
    let power := exponent?.getD 0
    if outOfRange whole places power then .error ⟨.numberOutOfRange, rest⟩
    else if fraction?.isNone && exponent?.isNone then .ok (ofDigits negative whole, rest)
    else
      .ok (.decimal negative (Nat.ofDigitChars 10 (whole ++ places) 0) (power - places.length), rest)

/-- A number. -/
def readNumber (s : List Char) : Except SyntaxError (Number × List Char) :=
  match s with
  | '-' :: r => readUnsigned true r
  | _ => readUnsigned false s

theorem suffix_of_readFraction {s r : List Char} {digits? : Option (List Char)}
    (h : readFraction s = .ok (digits?, r)) : r <:+ s := by
  unfold readFraction at h
  split at h
  · dsimp only at h
    split at h
    · cases h
    · cases h
      exact (List.dropWhile_suffix _).trans (List.suffix_cons _ _)
  · cases h
    exact List.suffix_refl _

theorem readSign_suffix (s : List Char) : (Decimal.readSign s).2 <:+ s := by
  unfold Decimal.readSign
  split
  · exact List.suffix_cons _ _
  · exact List.suffix_cons _ _
  · exact List.suffix_refl _

theorem suffix_of_readExponent {s r : List Char} {n? : Option Int}
    (h : readExponent s = .ok (n?, r)) : r <:+ s := by
  unfold readExponent at h
  split at h
  · split at h
    · dsimp only at h
      split at h
      · cases h
      · obtain ⟨-, rfl⟩ := Prod.mk.inj (Except.ok.inj h)
        exact (List.dropWhile_suffix _).trans ((readSign_suffix _).trans (List.suffix_cons _ _))
    · cases h
      exact List.suffix_refl _
  · cases h
    exact List.suffix_refl _

theorem suffix_of_readUnsigned {negative : Bool} {s r : List Char} {n : Number}
    (h : readUnsigned negative s = .ok (n, r)) : r <:+ s := by
  unfold readUnsigned at h
  dsimp only at h
  split at h
  · cases h
  · split at h
    · cases h
    · simp only [bind, Except.bind] at h
      split at h
      · cases h
      · rename_i f hf
        split at h
        · cases h
        · rename_i e he
          have hr := (suffix_of_readExponent he).trans
            ((suffix_of_readFraction hf).trans (List.dropWhile_suffix _))
          split at h
          · cases h
          · split at h
            · obtain ⟨-, rfl⟩ := Prod.mk.inj (Except.ok.inj h)
              exact hr
            · obtain ⟨-, rfl⟩ := Prod.mk.inj (Except.ok.inj h)
              exact hr

theorem suffix_of_readNumber {s r : List Char} {n : Number} (h : readNumber s = .ok (n, r)) :
    r <:+ s := by
  unfold readNumber at h
  split at h
  · exact (suffix_of_readUnsigned h).trans (List.suffix_cons _ _)
  · exact suffix_of_readUnsigned h

end MessageFormat.Json
