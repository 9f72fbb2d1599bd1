import MessageFormat.Element
import MessageFormat.Numeral.Quantity

/-! The functions that messages are compiled to. A function takes the arguments of the message by name
and returns one template, a list of pieces. The template itself names no locale: the locale is given
when the source text of the function is written. -/

namespace MessageFormat.Script

/-- The number that a plural chooses by: an argument less an offset. -/
structure Subject where
  name : String
  offset : Int64
  deriving DecidableEq, Repr

/-- How a number is formatted. -/
inductive NumberStyle where
  | plain
  | percent
  | integer
  deriving DecidableEq, Repr

/-- A formatter of the host for the values of a locale. -/
inductive Formatter where
  | number (style : NumberStyle)
  | date (style : Option DateStyle)
  | time (style : Option DateStyle)
  deriving DecidableEq, Repr

/-- The condition of a branch. -/
inductive Test where
  /-- The argument is the text `key`. -/
  | identical (name key : String)
  /-- The argument equals a number. -/
  | equal (name : String) (value : Quantity)
  /-- The subject is of the plural category `key` of the locale. -/
  | category (kind : PluralKind) (subject : Subject) (key : String)
  deriving DecidableEq, Repr

/-- A part of a template. -/
inductive Piece where
  /-- Text that stands for itself. -/
  | text (s : String)
  /-- The value of an argument. -/
  | value (name : String)
  /-- A formatted value. -/
  | formatted (formatter : Formatter) (subject : Subject)
  /-- The template of the first arm whose test holds; if none does the fallback, or else nothing. -/
  | choice (arms : List (Test × List Piece)) (fallback : Option (List Piece))
  deriving Repr, BEq, Inhabited

end MessageFormat.Script

namespace MessageFormat

/-- A function from the arguments of a message to its text. -/
structure Script where
  parameters : List String
  body : List Script.Piece
  deriving Repr, BEq

end MessageFormat
