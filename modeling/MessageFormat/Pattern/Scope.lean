import MessageFormat.Text.Alphanumeric
import MessageFormat.Text.WhiteSpace

/-! The characters of a pattern and what they mean at a place. Whether a brace, a pound sign or a less
sign stands for itself depends on the dialect and on what is open around the place. -/

namespace MessageFormat.Pattern

/-- Which patterns are accepted. -/
structure Dialect where
  /-- Every selection must have a branch under the key `other`. -/
  requiresOther : Bool
  /-- Tags are read as tags, and not as text. -/
  tags : Bool
  deriving DecidableEq, Repr

/-- The dialect with tags that requires a branch under the key `other`. -/
def Dialect.strict : Dialect := ⟨true, true⟩

/-- The dialect with tags that accepts a selection without a branch under the key `other`. -/
def Dialect.lenient : Dialect := ⟨false, true⟩

/-- What is open around a place in a pattern. -/
structure Scope where
  /-- The place lies inside a branch or a tag. -/
  enclosed : Bool
  /-- The nearest selection around the place is a plural. -/
  inPlural : Bool
  /-- The nearest thing open around the place is a tag. -/
  inTag : Bool
  deriving DecidableEq, Repr

namespace Scope

/-- The scope of a whole pattern. -/
def top : Scope := ⟨false, false, false⟩

/-- The scope of a branch of a selection. -/
def branch (plural : Bool) : Scope := ⟨true, plural, false⟩

/-- The scope between an opening and a closing tag. -/
def tag (σ : Scope) : Scope := ⟨true, σ.inPlural, true⟩

end Scope

/-- What begins at a place in a pattern. -/
inductive Lead where
  | text
  | argument
  | pound
  | openingTag
  | strayClosingTag
  /-- Whatever is open around the place ends here. -/
  | stop
  deriving DecidableEq, Repr

/-- The letters that a tag can begin with. -/
def isTagLetter (c : Char) : Bool := c.isAlpha

/-- What begins with the character `c` when the character after it is `next?`. -/
def lead (d : Dialect) (σ : Scope) (c : Char) (next? : Option Char) : Lead :=
  if c = '\x7b' then .argument
  else if c = '\x7d' then if σ.enclosed then .stop else .text
  else if c = '#' then if σ.inPlural then .pound else .text
  else if c = '<' && d.tags then
    if next? = some '/' then if σ.inTag then .stop else .strayClosingTag
    else if next?.any isTagLetter then .openingTag
    else .text
  else .text

/-- The characters that set the parts of an argument apart and so are in no name. -/
def isDelimiter (c : Char) : Bool :=
  c = '\x7b' || c = '\x7d' || c = ',' || c = '#' || c = '<' || c = '>' || c = '\x27' || c = '=' ||
    c = '|' || c = '"' || c = ':'

/-- The characters of the names of arguments and of the keys of branches. -/
def isNameChar (c : Char) : Bool :=
  !isWhiteSpace c && !isDelimiter c

/-- The characters of the names of tags. -/
def isTagNameChar (c : Char) : Bool :=
  isAlphanumeric c || c = '-' || c = '.' || c = '_'

end MessageFormat.Pattern
