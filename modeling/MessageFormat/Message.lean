import MessageFormat.Pattern.Parser
import MessageFormat.Script.Compile
import MessageFormat.Script.Source
import MessageFormat.TypeExpr.OfElements

/-! From the pattern of a message to its function and to the type of its arguments. Both accept a
selection without a branch for all other keys. -/

namespace MessageFormat.Message

/-- Why a message has no function. -/
inductive Error where
  | pattern (e : Pattern.Error)
  | strayPound
  deriving DecidableEq, Repr

namespace Error

/-- The code by which programs tell errors apart. -/
def code : Error → String
  | .pattern e => e.cause.code
  | .strayPound => "pound-outside-context"

/-- The sentence for people. -/
def message : Error → String
  | .pattern e => e.cause.message
  | .strayPound => "Pound sign used outside of plural/select element"

/-- The sentence for people, with the place in the pattern if there is one. -/
def display : Error → String
  | .pattern e => e.display
  | .strayPound => message .strayPound

end Error

/-- The source text of the function for a message that has been read. A message of literals alone has a function
that takes nothing and does not depend on the locale. -/
def compileElements (es : List Element) (locale : String) : Except Error String :=
  if es.all Element.isLiteral then
    .ok (Script.constantSource (String.join (es.filterMap Element.literalText?)))
  else
    match Script.ofElements? es with
    | none => .error .strayPound
    | some script => .ok (script.functionSource locale)

/-- The source text of the function for a message. -/
def compile (pattern locale : String) : Except Error String :=
  match Pattern.parse .lenient pattern with
  | .error e => .error (.pattern e)
  | .ok es => compileElements es locale

/-- The text of the type of the arguments of a message that has been read. -/
def typeOfElements (es : List Element) : String :=
  (TypeExpr.ofElements es).render

/-- The text of the type of the arguments of a message. -/
def typeOf (pattern : String) : Except Pattern.Error String :=
  match Pattern.parse .lenient pattern with
  | .error e => .error e
  | .ok es => .ok (typeOfElements es)

end MessageFormat.Message
