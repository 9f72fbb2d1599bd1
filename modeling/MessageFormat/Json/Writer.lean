import MessageFormat.Json.Basic

/-! The text of a JSON value, on one line or indented. In a string the quotation mark, the backslash and
the control characters below the space are escaped, and nothing else. -/

namespace MessageFormat.Json

/-- How a value is laid out: whether every item and member has a line of its own. -/
inductive Layout where
  | compact
  | pretty
  deriving DecidableEq, Repr

namespace Layout

/-- The break before an item, a member or a closing bracket with `depth` brackets open around it. -/
def newline (layout : Layout) (depth : Nat) : List Char :=
  match layout with
  | .compact => []
  | .pretty => '\n' :: List.replicate (2 * depth) ' '

/-- The blank behind a colon. -/
def blank : Layout → List Char
  | .compact => []
  | .pretty => [' ']

end Layout

/-- A digit of a number to the base sixteen. -/
def hexDigit (n : Nat) : Char := Nat.digitChar (n % 16)

/-- How a character is written inside a string. -/
def escapeChar (c : Char) : List Char :=
  if c = '"' then ['\\', '"']
  else if c = '\\' then ['\\', '\\']
  else if c = '\n' then ['\\', 'n']
  else if c = '\r' then ['\\', 'r']
  else if c = '\t' then ['\\', 't']
  else if c = '\x08' then ['\\', 'b']
  else if c = '\x0c' then ['\\', 'f']
  else if c.toNat < 0x20 then ['\\', 'u', '0', '0', hexDigit (c.toNat / 16), hexDigit c.toNat]
  else [c]

/-- A string with its quotation marks. -/
def writeString (s : String) : List Char :=
  '"' :: (s.toList.flatMap escapeChar ++ ['"'])

/-- A number in decimal notation. -/
def writeNumber : Number → List Char
  | .integer n => n.repr.toList
  | .decimal negative digits exponent =>
    (if negative then ['-'] else []) ++ digits.repr.toList ++ 'e' :: exponent.repr.toList

mutual

/-- A value inside `depth` brackets. -/
def write (layout : Layout) (depth : Nat) : Json → List Char
  | .null => "null".toList
  | .bool true => "true".toList
  | .bool false => "false".toList
  | .number n => writeNumber n
  | .string s => writeString s
  | .array [] => ['[', ']']
  | .array (v :: vs) =>
    '[' :: (layout.newline (depth + 1) ++ write layout (depth + 1) v ++
      writeItems layout (depth + 1) vs ++ layout.newline depth ++ [']'])
  | .object [] => '\x7b' :: (layout.newline depth ++ ['\x7d'])
  | .object ((k, v) :: ms) =>
    '\x7b' :: (layout.newline (depth + 1) ++ writeString k ++ ':' :: layout.blank ++
      write layout (depth + 1) v ++ writeMembers layout (depth + 1) ms ++ layout.newline depth ++
      ['\x7d'])

/-- The items of an array behind the first one, each behind a comma. -/
def writeItems (layout : Layout) (depth : Nat) : List Json → List Char
  | [] => []
  | v :: vs => ',' :: (layout.newline depth ++ write layout depth v ++ writeItems layout depth vs)

/-- The members of an object behind the first one, each behind a comma. -/
def writeMembers (layout : Layout) (depth : Nat) : List (String × Json) → List Char
  | [] => []
  | (k, v) :: ms =>
    ',' :: (layout.newline depth ++ writeString k ++ ':' :: layout.blank ++ write layout depth v ++
      writeMembers layout depth ms)

end

/-- The text of a value. -/
def render (layout : Layout) (json : Json) : String :=
  .ofList (write layout 0 json)

end MessageFormat.Json
