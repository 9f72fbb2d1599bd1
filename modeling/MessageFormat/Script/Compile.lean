import MessageFormat.Script.Basic

/-! Compiling a message. A pound sign formats the subject of the nearest plural around it, looking through
tags and through selections by text; a message with a pound sign that has no plural around it cannot be
compiled. The exact keys of a plural are tested before its categories, each group in its order. -/

namespace MessageFormat.Script

/-- How a number in a style is formatted. Without a style, and in one that is not known, it is plain. -/
def NumberStyle.ofStyle : Option String → NumberStyle
  | some "percent" => .percent
  | some "integer" => .integer
  | _ => .plain

/-- The text of an exact key behind its equality sign. -/
def exactText? (key : String) : Option String :=
  match key.toList with
  | '=' :: s => some (.ofList s)
  | _ => none

/-- The branches of a selection, compiled. -/
abbrev Branches := List (String × List Piece)

/-- The choice among the branches of a selection by text. -/
def selectPiece (name : String) (branches : Branches) : Piece :=
  .choice
    (branches.filterMap fun (key, body) =>
      if key = otherKey then none else some (.identical name key, body))
    (branches.lookup otherKey)

/-- The arms of the exact keys of a plural. -/
def exactArms (name : String) (branches : Branches) : List (Test × List Piece) :=
  branches.filterMap fun (key, body) =>
    (exactText? key).map fun text => (.equal name (.ofText text), body)

/-- The arms of the categories of a plural. -/
def categoryArms (kind : PluralKind) (subject : Subject) (branches : Branches) :
    List (Test × List Piece) :=
  branches.filterMap fun (key, body) =>
    if key = otherKey ∨ (exactText? key).isSome then none
    else some (.category kind subject key, body)

/-- The choice among the branches of a plural. -/
def pluralPiece (kind : PluralKind) (subject : Subject) (branches : Branches) : Piece :=
  .choice (exactArms subject.name branches ++ categoryArms kind subject branches)
    (branches.lookup otherKey)

/-- The pieces of a tag around the pieces of what is between its ends. -/
def tagPieces (name : String) (children : List Piece) : List Piece :=
  [.text "<", .value name, .text ">"] ++ children ++ [.text "</", .value name, .text ">"]

mutual

/-- The pieces of an element; `pound` is the subject of the nearest plural around it. -/
def compileElement (pound : Option Subject) : Element → Option (List Piece)
  | .literal text => some [.text text]
  | .argument name => some [.value name]
  | .number name style => some [.formatted (.number (.ofStyle style)) ⟨name, 0⟩]
  | .date name style => some [.formatted (.date style) ⟨name, 0⟩]
  | .time name style => some [.formatted (.time style) ⟨name, 0⟩]
  | .select name options => do
    let branches ← compileOptions pound options
    some [selectPiece name branches]
  | .plural name kind offset options => do
    let branches ← compileOptions (some ⟨name, offset⟩) options
    some [pluralPiece kind ⟨name, offset⟩ branches]
  | .pound => do
    let subject ← pound
    some [.formatted (.number .plain) subject]
  | .tag name children => do
    let pieces ← compileList pound children
    some (tagPieces name pieces)

/-- The pieces of a list of elements. -/
def compileList (pound : Option Subject) : List Element → Option (List Piece)
  | [] => some []
  | e :: es => do
    let pieces ← compileElement pound e
    let rest ← compileList pound es
    some (pieces ++ rest)

/-- The branches of a selection. -/
def compileOptions (pound : Option Subject) : List (String × List Element) → Option Branches
  | [] => some []
  | (key, branch) :: options => do
    let body ← compileList pound branch
    let rest ← compileOptions pound options
    some ((key, body) :: rest)

end
end MessageFormat.Script

namespace MessageFormat

/-- The function for a message, unless the message has a pound sign with no plural around it. -/
def Script.ofElements? (es : List Element) : Option Script :=
  (Script.compileList none es).map fun body => ⟨Element.names es, body⟩

end MessageFormat
