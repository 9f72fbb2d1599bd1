import MessageFormat.Element
import MessageFormat.TypeExpr.Basic

/-! The type of the arguments of a message. Every element asks for its own argument, and for what the
elements inside it ask for: all of it between two tags, and that of one of the branches in a selection.
Text and pound signs ask for nothing. -/

namespace MessageFormat.TypeExpr

/-- The types that the branches of a selection ask for, under their keys. -/
abbrev BranchTypes := List (String × List TypeExpr)

/-- The type of what one of the branches asks for; none if no branch asks for anything. -/
def ofBranches (branches : BranchTypes) : List TypeExpr :=
  if branches.all fun (_, parts) => parts.isEmpty then []
  else
    [.parens (.union (branches.map fun (_, parts) =>
      if parts.isEmpty then .anything else .parens (.intersection parts)))]

/-- The type of a branch of a closed selection: the argument is the key, and the rest is what the branch
asks for. -/
def closedMember (name key : String) (parts : List TypeExpr) : TypeExpr :=
  let own := .property name (.exactly key)
  if parts.isEmpty then own
  else .parens (.intersection [own, .parens (.intersection parts)])

/-- The type of a selection without a branch for all other keys. -/
def ofClosed (name : String) (branches : BranchTypes) : TypeExpr :=
  match branches with
  | [(key, parts)] => closedMember name key parts
  | _ => .parens (.union (branches.map fun (key, parts) => closedMember name key parts))

/-- The types of a selection by text. -/
def ofSelect (name : String) (branches : BranchTypes) : List TypeExpr :=
  let keys := branches.map Prod.fst
  if keys.contains otherKey then
    .property name (.oneOf (keys.filter (· != otherKey))) :: ofBranches branches
  else [ofClosed name branches]

mutual

/-- The types that an element asks for, all at once. -/
def ofElement : Element → List TypeExpr
  | .literal _ | .pound => []
  | .argument name => [.property name .stringOrNumber]
  | .number name _ => [.property name .number]
  | .date name _ => [.property name .date]
  | .time name _ => [.property name .date]
  | .select name options => ofSelect name (ofOptions options)
  | .plural name _ _ options => .property name .number :: ofBranches (ofOptions options)
  | .tag name children =>
    let inside := ofList children
    .property name .string ::
      if inside.isEmpty then [] else [.parens (.intersection inside)]

/-- The types that a list of elements asks for. -/
def ofList : List Element → List TypeExpr
  | [] => []
  | e :: es => ofElement e ++ ofList es

/-- The types that the branches of a selection ask for. -/
def ofOptions : List (String × List Element) → BranchTypes
  | [] => []
  | (key, branch) :: options => (key, ofList branch) :: ofOptions options

end

/-- The type of the arguments of a message. -/
def ofElements (es : List Element) : TypeExpr :=
  match ofList es with
  | [] => .anything
  | parts => .intersection parts

end MessageFormat.TypeExpr
