import MessageFormat.Json.Reader
import MessageFormat.Json.Writer
import MessageFormat.Wire.Decode
import MessageFormat.Wire.Encode

/-! Messages as JSON texts. -/

namespace MessageFormat.Wire

/-- The JSON text of a message. -/
def render (layout : Json.Layout) (es : List Element) : String :=
  (encode es).render layout

/-- Why a text is not the JSON text of a message. -/
inductive Error where
  | json (e : Json.SyntaxError)
  | mismatch (m : Mismatch)
  deriving DecidableEq, Repr

/-- The sentence for people about the text `text`; `root` is the name of the whole value. -/
def Error.message (text root : String) : Error → String
  | .json e => "invalid JSON: " ++ e.message text.toList
  | .mismatch m => m.message root

/-- The name of the whole value, unless the caller has another one. -/
def defaultRoot : String := "$"

/-- Reads the JSON text of a message. -/
def read (text : String) : Except Error (List Element) :=
  match Json.read text with
  | .error e => .error (.json e)
  | .ok json =>
    match decode json with
    | .error m => .error (.mismatch m)
    | .ok es => .ok es

end MessageFormat.Wire
