import MessageFormat.Numeral.Integer

/-! JSON values. The members of an object keep their order, and no key of an object that was read comes
twice. A number is an integer if it is written as one and fits a machine word, with a sign or without;
of any other number the decimal value is kept. -/

namespace MessageFormat

/-- A number: an integer of a machine word, or any other decimal number. -/
inductive Json.Number where
  | integer (n : Int)
  /-- The number `digits` times ten to the power `exponent`, or its negative. -/
  | decimal (negative : Bool) (digits : Nat) (exponent : Int)
  deriving DecidableEq, Repr

/-- A JSON value. -/
inductive Json where
  | null
  | bool (b : Bool)
  | number (n : Json.Number)
  | string (s : String)
  | array (items : List Json)
  | object (members : List (String × Json))
  deriving Repr, BEq, Inhabited

namespace Json

/-- An integer as a value. -/
def ofInt (n : Int) : Json := .number (.integer n)

/-- The member of an object under a key. A value of another kind has no members. -/
def get? (key : String) : Json → Option Json
  | .object members => members.lookup key
  | _ => none

/-- The integer from 0 to 2^64 - 1 that a value is. -/
def natural? : Json → Option Nat
  | .number (.integer n) => if 0 ≤ n ∧ n < UInt64.size then some n.toNat else none
  | _ => none

/-- The integer from -2^63 to 2^63 - 1 that a value is. -/
def integer? : Json → Option Int64
  | .number (.integer n) => if Integer.fits n then some (.ofInt n) else none
  | _ => none

/-- The text that a value is. -/
def text? : Json → Option String
  | .string s => some s
  | _ => none

/-- Sets a member. A new key goes behind the others, a key that is there keeps its place. -/
def setMember (key : String) (value : Json) : List (String × Json) → List (String × Json)
  | [] => [(key, value)]
  | (k, v) :: members =>
    if k = key then (k, value) :: members else (k, v) :: setMember key value members

theorem mem_of_get? {key : String} {members : List (String × Json)} {v : Json}
    (h : get? key (.object members) = some v) : (key, v) ∈ members := by
  rw [get?, List.lookup_eq_some_iff] at h
  obtain ⟨front, rest, rfl, -⟩ := h
  simp

theorem sizeOf_lt_of_lookup {key : String} {value : Json} {members : List (String × Json)}
    (h : members.lookup key = some value) : sizeOf value < sizeOf members := by
  induction members with
  | nil => cases h
  | cons m members ih =>
    obtain ⟨k, v⟩ := m
    rw [List.lookup_cons] at h
    split at h
    · cases h
      simp
      omega
    · have := ih h
      simp
      omega

theorem sizeOf_lt_of_get? {key : String} {value json : Json} (h : json.get? key = some value) :
    sizeOf value < sizeOf json := by
  cases json with
  | object members =>
    have := sizeOf_lt_of_lookup h
    simp
    omega
  | _ => cases h

end Json
end MessageFormat
