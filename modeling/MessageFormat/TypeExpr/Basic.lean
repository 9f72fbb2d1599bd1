import MessageFormat.Script.Source

/-! Types of argument records, and their text in TypeScript. An intersection binds tighter than a union;
the places where that would go wrong have parentheses of their own. -/

namespace MessageFormat

/-- The type of one argument. -/
inductive ValueType where
  | stringOrNumber
  | number
  | date
  | string
  /-- Any text, among them the given ones. -/
  | oneOf (keys : List String)
  /-- The given text. -/
  | exactly (key : String)
  deriving DecidableEq, Repr

/-- The type of a record of arguments. -/
inductive TypeExpr where
  /-- The type of every record. -/
  | anything
  /-- The records that have an argument of a type. -/
  | property (name : String) (type : ValueType)
  | intersection (parts : List TypeExpr)
  | union (members : List TypeExpr)
  | parens (inside : TypeExpr)
  deriving Repr, BEq, Inhabited

/-- The text of the type of one argument. -/
def ValueType.render : ValueType → String
  | .stringOrNumber => "string | number"
  | .number => "number"
  | .date => "Date"
  | .string => "string"
  | .oneOf keys => " | ".intercalate (keys.map Script.quote ++ ["(string & \x7b\x7d)"])
  | .exactly key => Script.quote key

namespace TypeExpr

/-- The characters that a name written without quotation marks can begin with. -/
def isIdentifierStart (c : Char) : Bool :=
  c.isAlpha || c = '_' || c = '$'

/-- The characters that such a name can go on with. -/
def isIdentifierPart (c : Char) : Bool :=
  c.isAlphanum || c = '_' || c = '$'

/-- Whether a name can be written without quotation marks. -/
def isIdentifier (name : String) : Bool :=
  match name.toList with
  | [] => false
  | c :: s => isIdentifierStart c && s.all isIdentifierPart

theorem isIdentifierPart_of_isIdentifierStart {c : Char} (h : isIdentifierStart c) : isIdentifierPart c := by
  simp only [isIdentifierStart, isIdentifierPart, Char.isAlphanum] at h ⊢
  grind

/-- Such a name begins with a letter or the like and goes on with letters, digits and the like. -/
theorem exists_cons_of_isIdentifier {name : String} (h : isIdentifier name) :
    ∃ c s, name.toList = c :: s ∧ isIdentifierStart c ∧ ∀ d ∈ s, isIdentifierPart d := by
  unfold isIdentifier at h
  split at h
  · cases h
  · rename_i c s hs
    obtain ⟨hc, hparts⟩ := Bool.and_eq_true_iff.mp h
    exact ⟨c, s, hs, hc, List.all_eq_true.mp hparts⟩

theorem isIdentifierPart_of_mem {name : String} (h : isIdentifier name) {c : Char} (hc : c ∈ name.toList) :
    isIdentifierPart c := by
  obtain ⟨d, s, hs, hd, hparts⟩ := exists_cons_of_isIdentifier h
  rcases List.mem_cons.mp (hs ▸ hc) with rfl | hc
  · exact isIdentifierPart_of_isIdentifierStart hd
  · exact hparts c hc

/-- The key of a property. -/
def propertyKey (name : String) : String :=
  if isIdentifier name then name else Script.quote name

mutual

/-- The text of a type. -/
def render : TypeExpr → String
  | .anything => "\x7b\x7d"
  | .property name type => "\x7b " ++ propertyKey name ++ ": " ++ type.render ++ " \x7d"
  | .intersection parts => " & ".intercalate (renderAll parts)
  | .union members => " | ".intercalate (renderAll members)
  | .parens inside => "(" ++ render inside ++ ")"

/-- The texts of a list of types. -/
def renderAll : List TypeExpr → List String
  | [] => []
  | t :: ts => render t :: renderAll ts

end
end TypeExpr
end MessageFormat
