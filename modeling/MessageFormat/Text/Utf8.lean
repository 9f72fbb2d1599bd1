/-! Decoding of UTF-8. The bytes are cut into the encodings of characters and into ill-formed
stretches; a stretch is as long as it can be while it is still the beginning of the encoding of some
character, and it is one byte where no encoding begins. A reader may then refuse a text with a stretch
(`decode?`) or show each stretch as one replacement character (`decodeLossy`). -/

namespace MessageFormat.Utf8

/-- Where the decoder stands: between two characters, or inside the encoding of one. There the next
byte must lie between `low` and `high`, `value` holds the bits so far, and `more` bytes follow the
next one. -/
inductive State where
  | between
  | inside (low high : UInt8) (value : Nat) (more : Nat)

/-- What the bytes up to some place show: nothing yet, a character, or an ill-formed stretch. -/
abbrev Shown := List (Option Char)

/-- The first byte of an encoding. -/
def first (b : UInt8) : Shown × State :=
  let n := b.toNat
  if n < 0x80 then ([some (Char.ofNat n)], .between)
  else if 0xC2 ≤ n && n ≤ 0xDF then ([], .inside 0x80 0xBF (n - 0xC0) 0)
  else if n == 0xE0 then ([], .inside 0xA0 0xBF 0 1)
  else if n == 0xED then ([], .inside 0x80 0x9F 0xD 1)
  else if 0xE1 ≤ n && n ≤ 0xEF then ([], .inside 0x80 0xBF (n - 0xE0) 1)
  else if n == 0xF0 then ([], .inside 0x90 0xBF 0 2)
  else if 0xF1 ≤ n && n ≤ 0xF3 then ([], .inside 0x80 0xBF (n - 0xF0) 2)
  else if n == 0xF4 then ([], .inside 0x80 0x8F 4 2)
  else ([none], .between)

/-- One byte. A byte that cannot go on with an encoding ends the stretch before it and begins anew. -/
def step (state : State) (b : UInt8) : Shown × State :=
  match state with
  | .between => first b
  | .inside low high value more =>
    if low ≤ b && b ≤ high then
      let value := value * 64 + (b.toNat - 0x80)
      match more with
      | 0 => ([some (Char.ofNat value)], .between)
      | more + 1 => ([], .inside 0x80 0xBF value more)
    else
      let (shown, state) := first b
      (none :: shown, state)

/-- The characters and ill-formed stretches of a text. Bytes that break off inside an encoding are a
stretch. -/
def scan (state : State) : List UInt8 → Shown
  | [] =>
    match state with
    | .between => []
    | .inside .. => [none]
  | b :: bytes =>
    let (shown, next) := step state b
    shown ++ scan next bytes

/-- The text, if all of it is well formed. -/
def decode? (bytes : List UInt8) : Option String :=
  ((scan .between bytes).mapM id).map String.ofList

/-- The character shown for an ill-formed stretch. -/
def replacement : Char := '\uFFFD'

/-- The text with each ill-formed stretch shown as one replacement character. -/
def decodeLossy (bytes : List UInt8) : String :=
  String.ofList ((scan .between bytes).map (·.getD replacement))

end MessageFormat.Utf8
