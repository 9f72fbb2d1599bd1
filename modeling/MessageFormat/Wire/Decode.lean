import MessageFormat.Element
import MessageFormat.Json.Basic
import MessageFormat.Wire.Kind

/-! Reading a message from its JSON form. Members that an element does not use are passed over; a style
or a kind of plural that is absent or no text, and an offset that is absent or no integer, are read as
none, cardinal and zero. Anything else that is missing or of the wrong kind is reported with the path
that leads to it. -/

namespace MessageFormat.Wire

/-- A step from a value into one of its parts. -/
inductive Step where
  | index (i : Nat)
  | member (key : String)
  deriving DecidableEq, Repr

/-- The text of a step. -/
def Step.render : Step → String
  | .index i => "[" ++ i.repr ++ "]"
  | .member key => "." ++ key

/-- What a value should have been. -/
inductive Expected where
  | elements
  | element
  | kindCode
  | text
  | options
  deriving DecidableEq, Repr

/-- The words for what a value should have been. -/
def Expected.words : Expected → String
  | .elements => "an array of elements"
  | .element => "an element object"
  | .kindCode => "a numeric type code"
  | .text => "a string"
  | .options => "an options object"

/-- What can be wrong with the JSON form of a message. -/
inductive Defect where
  | shape (expected : Expected)
  | unknownKind (code : Nat)
  | missingMember (key : String)
  deriving DecidableEq, Repr

/-- A defect and the text of the place that has it. -/
structure Report where
  defect : Defect
  place : String
  deriving DecidableEq, Repr

/-- The sentence for people. -/
def Report.message (report : Report) : String :=
  let place := " at " ++ report.place
  match report.defect with
  | .shape expected => "expected " ++ expected.words ++ place
  | .unknownKind code => "unknown element type " ++ code.repr ++ place
  | .missingMember key => "missing field \"" ++ key ++ "\"" ++ place

/-- A defect and the path from the whole value to the value that has it. -/
structure Mismatch where
  defect : Defect
  path : List Step
  deriving DecidableEq, Repr

namespace Mismatch

/-- The defect seen from a value one step further out. -/
def under (step : Step) (m : Mismatch) : Mismatch :=
  { m with path := step :: m.path }

/-- The defect with the text of its path; `root` is the name of the whole value. -/
def report (root : String) (m : Mismatch) : Report :=
  ⟨m.defect, root ++ String.join (m.path.map Step.render)⟩

/-- The sentence for people; `root` is the name of the whole value. -/
def message (root : String) (m : Mismatch) : String :=
  (m.report root).message

end Mismatch

/-- Refuses a value itself. -/
def refuse {α : Type} (defect : Defect) : Except Mismatch α :=
  .error ⟨defect, []⟩

/-- Reports the defects of a part of a value as seen from the value. -/
def within {α : Type} (step : Step) : Except Mismatch α → Except Mismatch α
  | .error m => .error (m.under step)
  | .ok a => .ok a

/-- The member `value` of an element, which must be a text. -/
def valueText (json : Json) : Except Mismatch String :=
  match json.get? "value" with
  | none => refuse (.missingMember "value")
  | some v =>
    match v.text? with
    | none => within (.member "value") (refuse (.shape .text))
    | some s => .ok s

/-- A member that may be absent and is passed over if it is no text. -/
def optionalText? (key : String) (json : Json) : Option String :=
  (json.get? key).bind Json.text?

/-- The style of a date or a time. -/
def dateStyle? (json : Json) : Option DateStyle :=
  (optionalText? "style" json).bind DateStyle.ofName?

/-- The kind of a plural, cardinal unless it says otherwise. -/
def pluralKind (json : Json) : PluralKind :=
  if optionalText? "pluralType" json = some "ordinal" then .ordinal else .cardinal

/-- The offset of a plural, zero unless it says otherwise. -/
def pluralOffset (json : Json) : Int64 :=
  ((json.get? "offset").bind Json.integer?).getD 0

/-- The kind of an element. -/
def kindOf (json : Json) : Except Mismatch Kind :=
  match json with
  | .object _ =>
    match json.get? "type" with
    | none => refuse (.missingMember "type")
    | some v =>
      match v.natural? with
      | none => within (.member "type") (refuse (.shape .kindCode))
      | some code =>
        match Kind.ofCode? code with
        | none => refuse (.unknownKind code)
        | some kind => .ok kind
  | _ => refuse (.shape .element)

mutual

/-- The message that a value is the form of. -/
def decode (json : Json) : Except Mismatch (List Element) :=
  match json with
  | .array items => decodeItems 0 items
  | _ => refuse (.shape .elements)
termination_by (sizeOf json, 0)

/-- The elements of an array from the index `i` on. -/
def decodeItems (i : Nat) (items : List Json) : Except Mismatch (List Element) :=
  match items with
  | [] => .ok []
  | v :: vs => do
    let e ← within (.index i) (decodeElement v)
    let es ← decodeItems (i + 1) vs
    .ok (e :: es)
termination_by (sizeOf items, 0)

/-- The element that a value is the form of. -/
def decodeElement (json : Json) : Except Mismatch Element := do
  let kind ← kindOf json
  match kind with
  | .literal => do
    let text ← valueText json
    .ok (.literal text)
  | .argument => do
    let name ← valueText json
    .ok (.argument name)
  | .number => do
    let name ← valueText json
    .ok (.number name (optionalText? "style" json))
  | .date => do
    let name ← valueText json
    .ok (.date name (dateStyle? json))
  | .time => do
    let name ← valueText json
    .ok (.time name (dateStyle? json))
  | .select => do
    let name ← valueText json
    let options ← decodeOptions json
    .ok (.select name options)
  | .plural => do
    let name ← valueText json
    let options ← decodeOptions json
    .ok (.plural name (pluralKind json) (pluralOffset json) options)
  | .pound => .ok .pound
  | .tag => do
    let name ← valueText json
    match h : json.get? "children" with
    | none => refuse (.missingMember "children")
    | some v => do
      have := Json.sizeOf_lt_of_get? h
      let children ← within (.member "children") (decode v)
      .ok (.tag name children)
termination_by (sizeOf json, 1)

/-- The branches of the selection that a value is the form of. -/
def decodeOptions (json : Json) : Except Mismatch Options :=
  match h : json.get? "options" with
  | none => refuse (.missingMember "options")
  | some (.object members) =>
    have : sizeOf members < sizeOf json := by
      have := Json.sizeOf_lt_of_get? h
      simp at this
      omega
    within (.member "options") (decodeBranches members)
  | some _ => within (.member "options") (refuse (.shape .options))
termination_by (sizeOf json, 0)

/-- The branches of a selection under the keys of an object. -/
def decodeBranches (members : List (String × Json)) : Except Mismatch Options :=
  match members with
  | [] => .ok []
  | (key, v) :: ms => do
    let branch ← within (.member key) (decodeBranch v)
    let options ← decodeBranches ms
    .ok ((key, branch) :: options)
termination_by (sizeOf members, 0)

/-- The branch that is wrapped in an object. -/
def decodeBranch (json : Json) : Except Mismatch (List Element) :=
  match h : json.get? "value" with
  | none => refuse (.missingMember "value")
  | some v =>
    have := Json.sizeOf_lt_of_get? h
    within (.member "value") (decode v)
termination_by (sizeOf json, 0)

end
end MessageFormat.Wire
