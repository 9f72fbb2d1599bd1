import MessageFormat.Proofs.Script.Reader

/-! Types of records as terms, and reading them from their text. Intersections bind tighter than unions, and
parentheses bind tightest. An object type has one property or none; the key of the property is bare or stands
between quotation marks, where a backslash and the character behind it stand for that character. -/

namespace MessageFormat

/-- The signs between types. -/
inductive TypeTerm.Operator where
  | union
  | intersection
  deriving DecidableEq, Repr

/-- A type. -/
inductive TypeTerm where
  /-- The object type without properties. -/
  | present
  | string
  | number
  | date
  /-- The type of one text. -/
  | literal (text : String)
  /-- The object type with one property. -/
  | property (key : String) (type : TypeTerm)
  | combined (op : TypeTerm.Operator) (left right : TypeTerm)
  deriving DecidableEq, Repr

namespace TypeTerm

open Program (skipSpaces token)

/-- How an operator is written. -/
def Operator.sign : Operator → Char
  | .union => '|'
  | .intersection => '&'

/-- The characters of a text between quotation marks, from behind the first one. -/
def readQuoted : List Char → Option (List Char × List Char)
  | [] => none
  | '"' :: r => some ([], r)
  | '\\' :: c :: r => (readQuoted r).map fun body => (c :: body.1, body.2)
  | c :: r => (readQuoted r).map fun body => (c :: body.1, body.2)

/-- The key of a property. -/
def readKey (s : List Char) : Option (String × List Char) :=
  match skipSpaces s with
  | '"' :: r => (readQuoted r).map fun body => (.ofList body.1, body.2)
  | r =>
    let name := String.ofList (r.takeWhile TypeExpr.isIdentifierPart)
    if TypeExpr.isIdentifier name then some (name, r.dropWhile TypeExpr.isIdentifierPart) else none

/-- The types that are named by a word. -/
def ofWord? (word : String) : Option TypeTerm :=
  if word = "string" then some .string
  else if word = "number" then some .number
  else if word = "Date" then some .date
  else none

/-- A type that is named by a word. -/
def readWord (s : List Char) : Option (TypeTerm × List Char) :=
  (ofWord? (.ofList (s.takeWhile TypeExpr.isIdentifierPart))).map fun type =>
    (type, s.dropWhile TypeExpr.isIdentifierPart)

theorem length_lt_of_skipSpaces {c : Char} {r s : List Char} (h : skipSpaces s = c :: r) :
    r.length < s.length := by
  have hle := (List.dropWhile_suffix (l := s) fun c => decide (c = ' ')).length_le
  rw [show s.dropWhile _ = _ from h, List.length_cons] at hle
  exact hle

/-- The tighter an operator binds, the lower its rank; between two ranks there is room for operands. -/
def Operator.rank : Operator → Nat
  | .union => 3
  | .intersection => 1

mutual

/-- Types with an operator between them. What follows a part is shorter than the whole, or else it is
refused; what is read of the same text is of a lower rank: operands, then the operators inside them, and at last
what stands in brackets. -/
def readOperands (op : Operator) (s : List Char) : Option (TypeTerm × List Char) := do
  let (left, r₁) ← readOperand op s
  match token [op.sign] r₁ with
  | none => some (left, r₁)
  | some r₂ =>
    if r₂.length < s.length then do
      let (right, r₃) ← readOperands op r₂
      some (.combined op left right, r₃)
    else none
termination_by (s.length, op.rank + 1)

/-- What an operator combines: a union combines intersections, and an intersection combines types without
operators of their own. -/
def readOperand (op : Operator) (s : List Char) : Option (TypeTerm × List Char) :=
  match op with
  | .union => readOperands .intersection s
  | .intersection => readPrimary s
termination_by (s.length, op.rank)
decreasing_by all_goals simp [Prod.lex_def, Operator.rank]

/-- A type without operators of its own: one in brackets, a text or a word. -/
def readPrimary (s : List Char) : Option (TypeTerm × List Char) :=
  match h : skipSpaces s with
  | '(' :: r => do
    have := length_lt_of_skipSpaces h
    let (type, r₁) ← readOperands .union r
    let r₂ ← token [')'] r₁
    some (type, r₂)
  | '\x7b' :: r =>
    match token ['\x7d'] r with
    | some r₁ => some (.present, r₁)
    | none => do
      let (key, r₁) ← readKey r
      let r₂ ← token [':'] r₁
      if r₂.length < s.length then do
        let (type, r₃) ← readOperands .union r₂
        let r₄ ← token ['\x7d'] r₃
        some (.property key type, r₄)
      else none
  | '"' :: r => (readQuoted r).map fun body => (.literal (.ofList body.1), body.2)
  | r => readWord r
termination_by (s.length, 0)

end

/-- Reads a text as one type. -/
def read (text : String) : Option TypeTerm := do
  let (type, r) ← readOperands .union text.toList
  if (skipSpaces r).isEmpty then some type else none

/-! ### The steps of the reader -/

section Steps

variable {s r r₁ r₂ r₃ r₄ : List Char} {type left right : TypeTerm}

theorem readOperands_single (op : Operator) (h : readOperand op s = some (type, r))
    (hsign : token [op.sign] r = none) : readOperands op s = some (type, r) := by
  rw [readOperands]
  simp [h, hsign]

theorem readOperands_combined (op : Operator) (hleft : readOperand op s = some (left, r₁))
    (hsign : token [op.sign] r₁ = some r₂) (hlt : r₂.length < s.length)
    (hright : readOperands op r₂ = some (right, r₃)) :
    readOperands op s = some (.combined op left right, r₃) := by
  rw [readOperands]
  simp [hleft, hsign, hlt, hright]

theorem readOperand_union (s : List Char) : readOperand .union s = readOperands .intersection s := by
  rw [readOperand]

theorem readOperand_intersection (s : List Char) : readOperand .intersection s = readPrimary s := by
  rw [readOperand]

theorem readPrimary_parens (hs : skipSpaces s = '(' :: r₁) (htype : readOperands .union r₁ = some (type, r₂))
    (hclose : token [')'] r₂ = some r₃) : readPrimary s = some (type, r₃) := by
  rw [readPrimary]
  split <;> rename_i hr
  · cases hs.symm.trans hr
    simp [htype, hclose]
  all_goals simp_all

theorem readPrimary_present (hs : skipSpaces s = '\x7b' :: r₁) (hclose : token ['\x7d'] r₁ = some r₂) :
    readPrimary s = some (.present, r₂) := by
  rw [readPrimary]
  split <;> rename_i hr
  · simp_all
  · cases hs.symm.trans hr
    simp [hclose]
  all_goals simp_all

theorem readPrimary_property {key : String} (hs : skipSpaces s = '\x7b' :: r)
    (hopen : token ['\x7d'] r = none) (hkey : readKey r = some (key, r₁)) (hcolon : token [':'] r₁ = some r₂)
    (hlt : r₂.length < s.length) (htype : readOperands .union r₂ = some (type, r₃))
    (hclose : token ['\x7d'] r₃ = some r₄) : readPrimary s = some (.property key type, r₄) := by
  rw [readPrimary]
  split <;> rename_i hr
  · simp_all
  · cases hs.symm.trans hr
    simp [hopen, hkey, hcolon, hlt, htype, hclose]
  all_goals simp_all

theorem readPrimary_literal {body : List Char} (hs : skipSpaces s = '"' :: r₁)
    (hbody : readQuoted r₁ = some (body, r₂)) : readPrimary s = some (.literal (.ofList body), r₂) := by
  rw [readPrimary]
  split <;> rename_i hr
  · simp_all
  · simp_all
  · cases hs.symm.trans hr
    simp [hbody]
  · simp_all

theorem readPrimary_word {c : Char} (hs : skipSpaces s = c :: r₁) (hc : TypeExpr.isIdentifierStart c)
    (hword : readWord (c :: r₁) = some (type, r₂)) : readPrimary s = some (type, r₂) := by
  have hne : ∀ d r, TypeExpr.isIdentifierStart d = false → skipSpaces s ≠ d :: r := by
    rintro d r hd hr
    cases hs.symm.trans hr
    exact Bool.false_ne_true (hd.symm.trans hc)
  rw [readPrimary]
  split
  · rename_i r hr
    exact absurd hr (hne _ r rfl)
  · rename_i r hr
    exact absurd hr (hne _ r rfl)
  · rename_i r hr
    exact absurd hr (hne _ r rfl)
  · rw [hs, hword]

end Steps

end TypeTerm
end MessageFormat
