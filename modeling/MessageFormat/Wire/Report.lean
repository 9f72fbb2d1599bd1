import MessageFormat.Wire.Decode

/-! Reading a message from its JSON form at a place that the caller names. Each part of a value is read with the
text of its own place, which is the text of the place of the whole with the step to the part behind it, and a
defect is reported with the text of the place that has it. -/

namespace MessageFormat.Wire

/-- Refuses the value at a place. -/
def refuseAt {α : Type} (place : String) (defect : Defect) : Except Report α :=
  .error ⟨defect, place⟩

/-- The member `value` of the element at a place, which must be a text. -/
def valueTextAt (place : String) (json : Json) : Except Report String :=
  match json.get? "value" with
  | none => refuseAt place (.missingMember "value")
  | some v =>
    match v.text? with
    | none => refuseAt (place ++ ".value") (.shape .text)
    | some s => .ok s

/-- The kind of the element at a place. -/
def kindAt (place : String) (json : Json) : Except Report Kind :=
  match json with
  | .object _ =>
    match json.get? "type" with
    | none => refuseAt place (.missingMember "type")
    | some v =>
      match v.natural? with
      | none => refuseAt (place ++ ".type") (.shape .kindCode)
      | some code =>
        match Kind.ofCode? code with
        | none => refuseAt place (.unknownKind code)
        | some kind => .ok kind
  | _ => refuseAt place (.shape .element)

mutual

/-- The message that the value at a place is the form of. -/
def decodeAt (place : String) (json : Json) : Except Report (List Element) :=
  match json with
  | .array items => decodeItemsAt place 0 items
  | _ => refuseAt place (.shape .elements)
termination_by (sizeOf json, 0)

/-- The elements of the array at a place from the index `i` on. -/
def decodeItemsAt (place : String) (i : Nat) (items : List Json) : Except Report (List Element) :=
  match items with
  | [] => .ok []
  | v :: vs => do
    let e ← decodeElementAt (place ++ "[" ++ i.repr ++ "]") v
    let es ← decodeItemsAt place (i + 1) vs
    .ok (e :: es)
termination_by (sizeOf items, 0)

/-- The element that the value at a place is the form of. -/
def decodeElementAt (place : String) (json : Json) : Except Report Element := do
  let kind ← kindAt place json
  match kind with
  | .literal => do
    let text ← valueTextAt place json
    .ok (.literal text)
  | .argument => do
    let name ← valueTextAt place json
    .ok (.argument name)
  | .number => do
    let name ← valueTextAt place json
    .ok (.number name (optionalText? "style" json))
  | .date => do
    let name ← valueTextAt place json
    .ok (.date name (dateStyle? json))
  | .time => do
    let name ← valueTextAt place json
    .ok (.time name (dateStyle? json))
  | .select => do
    let name ← valueTextAt place json
    let options ← decodeOptionsAt place json
    .ok (.select name options)
  | .plural => do
    let name ← valueTextAt place json
    let options ← decodeOptionsAt place json
    .ok (.plural name (pluralKind json) (pluralOffset json) options)
  | .pound => .ok .pound
  | .tag => do
    let name ← valueTextAt place json
    match h : json.get? "children" with
    | none => refuseAt place (.missingMember "children")
    | some v => do
      have := Json.sizeOf_lt_of_get? h
      let children ← decodeAt (place ++ ".children") v
      .ok (.tag name children)
termination_by (sizeOf json, 1)

/-- The branches of the selection at a place. -/
def decodeOptionsAt (place : String) (json : Json) : Except Report Options :=
  match h : json.get? "options" with
  | none => refuseAt place (.missingMember "options")
  | some (.object members) =>
    have : sizeOf members < sizeOf json := by
      have := Json.sizeOf_lt_of_get? h
      simp at this
      omega
    decodeBranchesAt (place ++ ".options") members
  | some _ => refuseAt (place ++ ".options") (.shape .options)
termination_by (sizeOf json, 0)

/-- The branches under the keys of the object at a place. -/
def decodeBranchesAt (place : String) (members : List (String × Json)) : Except Report Options :=
  match members with
  | [] => .ok []
  | (key, v) :: ms => do
    let branch ← decodeBranchAt (place ++ "." ++ key) v
    let options ← decodeBranchesAt place ms
    .ok ((key, branch) :: options)
termination_by (sizeOf members, 0)

/-- The branch that is wrapped in the object at a place. -/
def decodeBranchAt (place : String) (json : Json) : Except Report (List Element) :=
  match h : json.get? "value" with
  | none => refuseAt place (.missingMember "value")
  | some v =>
    have := Json.sizeOf_lt_of_get? h
    decodeAt (place ++ ".value") v
termination_by (sizeOf json, 0)

end
end MessageFormat.Wire
