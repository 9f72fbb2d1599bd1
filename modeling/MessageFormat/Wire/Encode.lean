import MessageFormat.Element
import MessageFormat.Json.Basic
import MessageFormat.Wire.Kind

/-! The JSON form of a message: an array of objects. The member `type` of an element is the number of its
kind, the member `value` its text or the name of its argument, and the branches of a selection are an
object that keeps their order. -/

namespace MessageFormat.Wire

/-- A text that may be absent. -/
def optionalText : Option String → Json
  | none => .null
  | some s => .string s

/-- The members that every element but the pound sign begins with. -/
def front (kind : Kind) (value : String) : List (String × Json) :=
  [("type", .ofInt kind.code), ("value", .string value)]

mutual

/-- The JSON form of an element. -/
def encodeElement : Element → Json
  | .literal text => .object (front .literal text)
  | .argument name => .object (front .argument name)
  | .number name style => .object (front .number name ++ [("style", optionalText style)])
  | .date name style =>
    .object (front .date name ++ [("style", optionalText (style.map DateStyle.name))])
  | .time name style =>
    .object (front .time name ++ [("style", optionalText (style.map DateStyle.name))])
  | .select name options =>
    .object (front .select name ++ [("options", .object (encodeOptions options))])
  | .plural name kind offset options =>
    .object (front .plural name ++
      [("options", .object (encodeOptions options)), ("offset", .ofInt offset.toInt),
        ("pluralType", .string kind.name)])
  | .pound => .object [("type", .ofInt Kind.pound.code)]
  | .tag name children =>
    .object (front .tag name ++ [("children", .array (encodeList children))])

/-- The JSON forms of a list of elements. -/
def encodeList : List Element → List Json
  | [] => []
  | e :: es => encodeElement e :: encodeList es

/-- The JSON forms of the branches of a selection. -/
def encodeOptions : List (String × List Element) → List (String × Json)
  | [] => []
  | (key, branch) :: options =>
    (key, .object [("value", .array (encodeList branch))]) :: encodeOptions options

end

/-- The JSON form of a message. -/
def encode (es : List Element) : Json :=
  .array (encodeList es)

end MessageFormat.Wire
