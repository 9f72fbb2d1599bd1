/-! The kinds of elements and the numbers that stand for them in the JSON form of a message. -/

namespace MessageFormat.Wire

/-- A kind of element. -/
inductive Kind where
  | literal
  | argument
  | number
  | date
  | time
  | select
  | plural
  | pound
  | tag
  deriving DecidableEq, Repr

namespace Kind

/-- The number of a kind. -/
def code : Kind → Nat
  | .literal => 0
  | .argument => 1
  | .number => 2
  | .date => 3
  | .time => 4
  | .select => 5
  | .plural => 6
  | .pound => 7
  | .tag => 8

/-- The kind of a number. -/
def ofCode? : Nat → Option Kind
  | 0 => some .literal
  | 1 => some .argument
  | 2 => some .number
  | 3 => some .date
  | 4 => some .time
  | 5 => some .select
  | 6 => some .plural
  | 7 => some .pound
  | 8 => some .tag
  | _ => none

theorem ofCode?_code (kind : Kind) : ofCode? kind.code = some kind := by
  cases kind <;> rfl

end Kind
end MessageFormat.Wire
