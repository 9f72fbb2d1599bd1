import MessageFormat.Proofs.Script.Program
import MessageFormat.TypeExpr.Basic

/-! Reading the source text of a program. Spaces may stand between its tokens. In a template a backslash
and the character behind it stand for that character, a dollar sign with an opening brace behind it opens an
expression, and any other character stands for itself. -/

namespace MessageFormat.Program

/-- The words that no parameter can be named by. -/
def reservedWords : List String :=
  ["await", "break", "case", "catch", "class", "const", "continue", "debugger", "default", "delete", "do",
    "else", "enum", "export", "extends", "false", "finally", "for", "function", "if", "import", "in",
    "instanceof", "new", "null", "return", "super", "switch", "this", "throw", "true", "try", "typeof", "var",
    "void", "while", "with", "yield"]

/-- Whether a name is an identifier and no reserved word. -/
def isName (x : String) : Bool :=
  TypeExpr.isIdentifier x && !reservedWords.contains x

/-- The characters that end a line, which no text between quotation marks holds. -/
def isLineTerminator (c : Char) : Bool :=
  c = '\n' || c = '\r' || c = '\u2028' || c = '\u2029'

/-- The text behind its leading spaces. -/
def skipSpaces (s : List Char) : List Char :=
  s.dropWhile fun c => c = ' '

/-- The text behind the characters `t`, which must come next. -/
def expect : List Char → List Char → Option (List Char)
  | [], s => some s
  | _ :: _, [] => none
  | x :: t, c :: s => if c = x then expect t s else none

/-- The text behind the token `t`, which must come next but for spaces. -/
def token (t s : List Char) : Option (List Char) :=
  expect t (skipSpaces s)

/-- A name. -/
def readName (s : List Char) : Option (String × List Char) :=
  let s := skipSpaces s
  let name := String.ofList (s.takeWhile TypeExpr.isIdentifierPart)
  if isName name then some (name, s.dropWhile TypeExpr.isIdentifierPart) else none

/-- An integer without a sign. A zero in front of further digits is refused. -/
def readNatural (s : List Char) : Option (Nat × List Char) :=
  let digits := s.takeWhile Char.isDigit
  if digits.isEmpty || (digits.head? = some '0' && 1 < digits.length) then none
  else some (Nat.ofDigitChars 10 digits 0, s.dropWhile Char.isDigit)

/-- An integer, perhaps with a minus sign. -/
def readInteger (s : List Char) : Option (Int × List Char) :=
  match skipSpaces s with
  | '-' :: r => (readNatural r).map fun n => (-(n.1 : Int), n.2)
  | r => (readNatural r).map fun n => ((n.1 : Int), n.2)

/-- The characters of a text between quotation marks, from behind the first one. -/
def readQuoted : List Char → Option (List Char × List Char)
  | [] => none
  | '"' :: r => some ([], r)
  | '\\' :: c :: r => (readQuoted r).map fun body => (c :: body.1, body.2)
  | c :: r => if isLineTerminator c then none else (readQuoted r).map fun body => (c :: body.1, body.2)

/-- A text between quotation marks. -/
def readText (s : List Char) : Option (String × List Char) := do
  let r ← token ['"'] s
  let (body, r) ← readQuoted r
  some (.ofList body, r)

/-- A literal. -/
def readConstant (s : List Char) : Option (Constant × List Char) :=
  match readText s with
  | some (text, r) => some (.text text, r)
  | none => (readInteger s).map fun n => (.integer n.1, n.2)

/-- A name, or in parentheses a name less an integer. -/
def readReference (s : List Char) : Option (Reference × List Char) :=
  match token ['('] s with
  | some r => do
    let (x, r) ← readName r
    let r ← token ['-'] r
    let (k, r) ← readInteger r
    let r ← token [')'] r
    some (.difference x k, r)
  | none => (readName s).map fun x => (.name x.1, x.2)

/-- The settings of a formatter, if a comma comes next. -/
def readSetting (s : List Char) : Option (Option (String × Constant) × List Char) :=
  match token [','] s with
  | some r => do
    let r ← token ['\x7b'] r
    let (key, r) ← readName r
    let r ← token [':'] r
    let (value, r) ← readConstant r
    let r ← token ['\x7d'] r
    some (some (key, value), r)
  | none => some (none, s)

/-- A call, from behind the word `new`. -/
def readCall (s : List Char) : Option (Call × List Char) := do
  let r ← token facility.toList s
  let r ← token ['.'] r
  let (constructor, r) ← readName r
  let r ← token ['('] r
  let (locale, r) ← readText r
  let (setting, r) ← readSetting r
  let r ← token [')'] r
  let r ← token ['.'] r
  let (method, r) ← readName r
  let r ← token ['('] r
  let (argument, r) ← readReference r
  let r ← token [')'] r
  some (⟨constructor, locale, setting, method, argument⟩, r)

/-- An atom. -/
def readAtom (s : List Char) : Option (Atom × List Char) :=
  match token ['n', 'e', 'w', ' '] s with
  | some r => (readCall r).map fun c => (.call c.1, c.2)
  | none =>
    match readConstant s with
    | some (c, r) => some (.constant c, r)
    | none => (readReference s).map fun x => (.reference x.1, x.2)

/-- The sign of a comparison, and whether the comparison is strict. -/
def readComparison (s : List Char) : Option (Bool × List Char) :=
  match token ['=', '=', '='] s with
  | some r => some (true, r)
  | none => (token ['=', '='] s).map fun r => (false, r)

/-! ### Expressions -/

mutual

/-- An expression. What follows a part of it is shorter than the whole, or else it is refused. -/
def readExpr (s : List Char) : Option (Expr × List Char) :=
  match h : skipSpaces s with
  | '\x60' :: r =>
    have : r.length < s.length := by
      have := (List.dropWhile_suffix (l := s) fun c => decide (c = ' ')).length_le
      rw [show s.dropWhile _ = _ from h] at this
      exact this
    (readParts r).map fun parts => (.template parts.1, parts.2)
  | t => do
    let (left, r₁) ← readAtom t
    match readComparison r₁ with
    | none => some (.atom left, r₁)
    | some (strict, r₂) => do
      let (right, r₃) ← readAtom r₂
      let r₄ ← token ['?'] r₃
      if r₄.length < s.length then do
        let (yes, r₅) ← readExpr r₄
        let r₆ ← token [':'] r₅
        if r₆.length < s.length then do
          let (no, r₇) ← readExpr r₆
          some (.conditional strict left right yes no, r₇)
        else none
      else none
termination_by s.length

/-- The parts of a template, from behind its opening backtick. -/
def readParts (s : List Char) : Option (List Part × List Char) :=
  match s with
  | [] => none
  | '\x60' :: r => some ([], r)
  | '\\' :: c :: r => (readParts r).map fun parts => (.char c :: parts.1, parts.2)
  | '$' :: '\x7b' :: r => do
    let (e, r₁) ← readExpr r
    let r₂ ← token ['\x7d'] r₁
    if r₂.length < r.length then do
      let (parts, r₃) ← readParts r₂
      some (.hole e :: parts, r₃)
    else none
  | c :: r => (readParts r).map fun parts => (.char c :: parts.1, parts.2)
termination_by s.length

end

/-- The names of the parameters, in braces and with commas between them; without braces there are none.
No name may come twice. -/
def readParameters (s : List Char) : Option (List String × List Char) :=
  match token ['\x7b'] s with
  | some r => do
    let names := ((r.takeWhile fun c => c ≠ '\x7d').splitOn ',').map String.ofList
    let r ← token ['\x7d'] (r.dropWhile fun c => c ≠ '\x7d')
    if names.all isName && names.Nodup then some (names, r) else none
  | none => some ([], s)

/-- Reads a text as one program. -/
def read (source : String) : Option Program := do
  let r ← token ['('] source.toList
  let (parameters, r) ← readParameters r
  let r ← token [')'] r
  let r ← token ['=', '>'] r
  let r ← token ['\x60'] r
  let (body, r) ← readParts r
  if (skipSpaces r).isEmpty then some ⟨parameters, body⟩ else none

end MessageFormat.Program
