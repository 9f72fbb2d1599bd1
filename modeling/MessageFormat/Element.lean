/-! A message is a list of elements: text, arguments to be formatted, tags around further elements, and
selections among branches. A branch is the list of elements under a key; the order of the branches is
their precedence. -/

namespace MessageFormat

/-- The four named lengths of a date or a time. -/
inductive DateStyle where
  | short
  | medium
  | long
  | full
  deriving DecidableEq, Repr

namespace DateStyle

/-- The name of a style. -/
def name : DateStyle → String
  | .short => "short"
  | .medium => "medium"
  | .long => "long"
  | .full => "full"

/-- The style of a name. -/
def ofName? : String → Option DateStyle
  | "short" => some .short
  | "medium" => some .medium
  | "long" => some .long
  | "full" => some .full
  | _ => none

theorem ofName?_name (style : DateStyle) : ofName? style.name = some style := by
  cases style <;> rfl

end DateStyle

/-- Plural categories are those of a count or those of a rank. -/
inductive PluralKind where
  | cardinal
  | ordinal
  deriving DecidableEq, Repr

/-- The name of a kind of plural. -/
def PluralKind.name : PluralKind → String
  | .cardinal => "cardinal"
  | .ordinal => "ordinal"

/-- One part of a message. -/
inductive Element where
  /-- Text that stands for itself. -/
  | literal (text : String)
  /-- The value of an argument. -/
  | argument (name : String)
  /-- The value of an argument as a number, in a style. -/
  | number (name : String) (style : Option String)
  /-- The value of an argument as a date. -/
  | date (name : String) (style : Option DateStyle)
  /-- The value of an argument as a time of day. -/
  | time (name : String) (style : Option DateStyle)
  /-- The branch whose key is the value of an argument. -/
  | select (name : String) (options : List (String × List Element))
  /-- The branch whose key is the value of an argument, or the plural category of that value less an
  offset. -/
  | plural (name : String) (kind : PluralKind) (offset : Int64) (options : List (String × List Element))
  /-- The number that the plural around it has chosen its branch by. -/
  | pound
  /-- Elements between an opening and a closing tag. -/
  | tag (name : String) (children : List Element)
  deriving Repr, BEq, Inhabited

/-- The branches of a selection under their keys, in order of precedence. -/
abbrev Options := List (String × List Element)

/-- The key of the branch taken when no other one is. -/
def otherKey : String := "other"

namespace Element

/-- The argument that an element itself reads. -/
def argumentName? : Element → Option String
  | .literal _ | .pound => none
  | .argument name | .number name _ | .date name _ | .time name _ | .select name _
  | .plural name _ _ _ | .tag name _ => some name

/-- Whether an element is text that stands for itself. -/
def isLiteral : Element → Bool
  | .literal _ => true
  | _ => false

/-- The text of an element that stands for itself. -/
def literalText? : Element → Option String
  | .literal text => some text
  | _ => none

/-- Puts a name behind others, unless it is one of them. -/
def insertName (names : List String) (name : String) : List String :=
  if name ∈ names then names else names ++ [name]

mutual

/-- Puts behind names those that an element and all elements inside it read, from left to right. -/
def collect (names : List String) : Element → List String
  | .literal _ | .pound => names
  | .argument name | .number name _ | .date name _ | .time name _ => insertName names name
  | .select name options => collectOptions (insertName names name) options
  | .plural name _ _ options => collectOptions (insertName names name) options
  | .tag name children => collectList (insertName names name) children

/-- Puts behind names those that a list of elements reads. -/
def collectList (names : List String) : List Element → List String
  | [] => names
  | e :: es => collectList (collect names e) es

/-- Puts behind names those that the branches of a selection read. -/
def collectOptions (names : List String) : List (String × List Element) → List String
  | [] => names
  | (_, branch) :: options => collectOptions (collectList names branch) options

end

/-- The arguments of a message, each at its first mention. -/
def names (es : List Element) : List String :=
  collectList [] es

end Element
end MessageFormat
