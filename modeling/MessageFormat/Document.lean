import MessageFormat.Message
import MessageFormat.Text.Utf8
import MessageFormat.Wire.Text

/-! Results for a program that holds this one as a part: one JSON object, with the member `ok` for a
result or the member `error` for an error. A message and a locale come as bytes; what is ill formed in
them is replaced. -/

namespace MessageFormat.Document

/-- The object of a position. -/
def ofPosition (p : Position) : Json :=
  .object [("line", .ofInt p.line), ("column", .ofInt p.column), ("offset", .ofInt p.offset)]

/-- The object of an error. One of the pattern has the positions between which it lies. -/
def ofError (e : Message.Error) : Json :=
  let place := match e with
    | .pattern e => [("begin", ofPosition e.start), ("end", ofPosition e.stop)]
    | .strayPound => []
  .object ([("code", .string e.code), ("message", .string e.message)] ++ place)

/-- The text of the document of a result. -/
def render {α : Type} (encode : α → Json) (result : Except Message.Error α) : String :=
  Json.render .compact <|
    match result with
    | .ok a => .object [("ok", encode a)]
    | .error e => .object [("error", ofError e)]

/-- An error of the pattern as an error of the message. -/
def ofPattern {α : Type} : Except Pattern.Error α → Except Message.Error α
  | .error e => .error (.pattern e)
  | .ok a => .ok a

/-- The document of the source text of a function. -/
def compile (pattern locale : String) : String :=
  render .string (Message.compile pattern locale)

/-- The document of the type of the arguments. -/
def typeOf (pattern : String) : String :=
  render .string (ofPattern (Message.typeOf pattern))

/-- The document of the elements of a message. -/
def parse (pattern : String) : String :=
  render Wire.encode (ofPattern (Pattern.parse .strict pattern))

/-- The document of the source text of a function, from bytes. -/
def compileBytes (pattern locale : List UInt8) : String :=
  compile (Utf8.decodeLossy pattern) (Utf8.decodeLossy locale)

/-- The document of the type of the arguments, from bytes. -/
def typeOfBytes (pattern : List UInt8) : String :=
  typeOf (Utf8.decodeLossy pattern)

/-- The document of the elements of a message, from bytes. -/
def parseBytes (pattern : List UInt8) : String :=
  parse (Utf8.decodeLossy pattern)

end MessageFormat.Document
