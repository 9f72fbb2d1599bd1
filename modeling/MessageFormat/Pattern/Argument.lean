import MessageFormat.Element
import MessageFormat.Numeral.Integer
import MessageFormat.Pattern.Error
import MessageFormat.Pattern.Scope

/-! The parts of an argument that hold no further elements: its name, its type, the style of a number,
a date or a time, and the offset of a plural. Each reader takes its part off the front of the text and
leaves the rest; `start` is the text from the opening brace of the argument, where most faults begin. -/

namespace MessageFormat.Pattern

/-- Refuses a pattern for a fault that begins where `start` is left and ends where `stop` is left. -/
def fail {α : Type} (cause : Cause) (start stop : List Char) : Except Failure α :=
  .error ⟨cause, start, stop⟩

/-- The text behind the character `c`, which must come next. -/
def expect (c : Char) (cause : Cause) (start s : List Char) : Except Failure (List Char) :=
  match s with
  | [] => fail cause start []
  | x :: r => if x = c then .ok r else fail cause start s

/-- The name at the front of a text, perhaps empty. -/
def leadingName (s : List Char) : String :=
  .ofList (s.takeWhile isNameChar)

/-- The text behind its leading name and the white space after that. -/
def afterName (s : List Char) : List Char :=
  skipWhiteSpace (s.dropWhile isNameChar)

/-- How an argument is to be formatted. -/
inductive ArgumentType where
  | number
  | date
  | time
  | select
  | plural (kind : PluralKind)
  deriving DecidableEq, Repr

/-- The type that a keyword of the notation stands for. -/
def ArgumentType.ofKeyword? : String → Option ArgumentType
  | "number" => some .number
  | "date" => some .date
  | "time" => some .time
  | "select" => some .select
  | "plural" => some (.plural .cardinal)
  | "selectordinal" => some (.plural .ordinal)
  | _ => none

/-- An argument up to its branches: a whole element, or a selection whose branches follow. -/
inductive Head where
  | whole (element : Element)
  | select (name : String)
  | plural (name : String) (kind : PluralKind) (offset : Int64)

/-- The characters of a style. -/
def isStyleChar (c : Char) : Bool :=
  c != '\x7b' && c != '\x7d'

/-- The style of a number, a date or a time, trimmed, and the closing brace. Without a style only the
brace is there. -/
def style (start s : List Char) : Except Failure (Option String × List Char) :=
  match s with
  | '\x7d' :: r => .ok (none, r)
  | _ => do
    let s ← expect ',' .separatorExpected start s
    let text := trim (s.takeWhile isStyleChar)
    let rest := s.dropWhile isStyleChar
    if text.isEmpty then fail .styleExpected start rest
    else do
      let rest ← expect '\x7d' .closingBraceExpected start rest
      .ok (some (.ofList text), rest)

/-- The word before the offset of a plural. -/
def offsetKeyword : List Char := "offset:".toList

/-- The offset of a plural, zero if none is written. -/
def offset (s : List Char) : Except Failure (Int64 × List Char) :=
  if offsetKeyword.isPrefixOf s then
    let number := Integer.scan (skipWhiteSpace (s.drop offsetKeyword.length))
    match Integer.read? number.1 with
    | none => fail (.invalidOffset (.ofList number.1)) s number.2
    | some n => .ok (n, skipWhiteSpace number.2)
  else .ok (0, s)

/-- What follows the type of an argument, up to its branches. -/
def headOfType (start : List Char) (name : String) (type : ArgumentType) (s : List Char) :
    Except Failure (Head × List Char) :=
  match type with
  | .number => do
    let (text?, rest) ← style start s
    .ok (.whole (.number name text?), rest)
  | .date => do
    let (text?, rest) ← style start s
    .ok (.whole (.date name (text?.bind DateStyle.ofName?)), rest)
  | .time => do
    let (text?, rest) ← style start s
    .ok (.whole (.time name (text?.bind DateStyle.ofName?)), rest)
  | .select => do
    let rest ← expect ',' .optionsSeparatorExpected start s
    .ok (.select name, skipWhiteSpace rest)
  | .plural kind => do
    let rest ← expect ',' .optionsSeparatorExpected start s
    let (n, rest) ← offset (skipWhiteSpace rest)
    .ok (.plural name kind n, rest)

/-- What follows the name of an argument, up to its branches. -/
def headOfName (start : List Char) (name : String) (s : List Char) :
    Except Failure (Head × List Char) :=
  match s with
  | '\x7d' :: r => .ok (.whole (.argument name), r)
  | _ => do
    let s ← expect ',' .separatorExpected start s
    let s := skipWhiteSpace s
    match ArgumentType.ofKeyword? (leadingName s) with
    | none => fail (.unknownType (leadingName s)) s (afterName s)
    | some type => headOfType start name type (afterName s)

/-- An argument up to its branches, from behind its opening brace. -/
def argumentHead (s : List Char) : Except Failure (Head × List Char) :=
  let start := '\x7b' :: s
  match skipWhiteSpace s with
  | [] => fail .unterminatedArgument start []
  | '\x7d' :: r => fail .emptyArgument start r
  | r =>
    if leadingName r = "" then fail .nameExpected start r
    else headOfName start (leadingName r) (afterName r)

/-! ### What is left ends what there was -/

theorem eq_cons_of_expect {c : Char} {cause : Cause} {start s r : List Char}
    (h : expect c cause start s = .ok r) : s = c :: r := by
  unfold expect at h
  split at h
  · cases h
  · split at h
    · cases h; subst_vars; rfl
    · cases h

theorem suffix_of_expect {c : Char} {cause : Cause} {start s r : List Char}
    (h : expect c cause start s = .ok r) : r <:+ s :=
  eq_cons_of_expect h ▸ List.suffix_cons c r

theorem afterName_suffix (s : List Char) : afterName s <:+ s :=
  (skipWhiteSpace_suffix _).trans (List.dropWhile_suffix _)

theorem suffix_of_style {start s r : List Char} {text? : Option String}
    (h : style start s = .ok (text?, r)) : r <:+ s := by
  unfold style at h
  split at h
  · cases h
    exact List.suffix_cons _ _
  · cases he : expect ',' .separatorExpected start s with
    | error f => simp [he, bind, Except.bind] at h
    | ok t =>
      simp only [he, bind, Except.bind] at h
      split at h
      · cases h
      · split at h
        · cases h
        · rename_i u hu
          cases h
          rw [eq_cons_of_expect he]
          refine .trans ?_ (List.suffix_cons _ _)
          refine .trans ?_ (List.dropWhile_suffix isStyleChar)
          rw [eq_cons_of_expect hu]
          exact List.suffix_cons _ _

theorem suffix_of_offset {s r : List Char} {n : Int64} (h : offset s = .ok (n, r)) : r <:+ s := by
  unfold offset at h
  split at h
  · dsimp only at h
    split at h
    · cases h
    · cases h
      refine .trans (skipWhiteSpace_suffix _) ?_
      refine .trans ⟨_, Integer.scan_append _⟩ ?_
      exact (skipWhiteSpace_suffix _).trans (List.drop_suffix _ _)
  · cases h
    exact List.suffix_refl _

theorem suffix_of_headOfType {start s r : List Char} {name : String} {type : ArgumentType}
    {head : Head} (h : headOfType start name type s = .ok (head, r)) : r <:+ s := by
  cases type with
  | number | date | time =>
    simp only [headOfType, bind, Except.bind] at h
    split at h
    · cases h
    · rename_i v hv
      cases h
      exact suffix_of_style hv
  | select =>
    simp only [headOfType, bind, Except.bind] at h
    split at h
    · cases h
    · rename_i v hv
      cases h
      rw [eq_cons_of_expect hv]
      exact (skipWhiteSpace_suffix _).trans (List.suffix_cons _ _)
  | plural kind =>
    simp only [headOfType, bind, Except.bind] at h
    split at h
    · cases h
    · rename_i v hv
      split at h
      · cases h
      · rename_i w hw
        cases h
        rw [eq_cons_of_expect hv]
        exact (suffix_of_offset hw).trans ((skipWhiteSpace_suffix _).trans (List.suffix_cons _ _))

theorem suffix_of_headOfName {start s r : List Char} {name : String} {head : Head}
    (h : headOfName start name s = .ok (head, r)) : r <:+ s := by
  unfold headOfName at h
  split at h
  · cases h
    exact List.suffix_cons _ _
  · cases he : expect ',' .separatorExpected start s with
    | error f => simp [he, bind, Except.bind] at h
    | ok t =>
      simp only [he, bind, Except.bind] at h
      split at h
      · cases h
      · rw [eq_cons_of_expect he]
        exact (suffix_of_headOfType h).trans
          ((afterName_suffix _).trans ((skipWhiteSpace_suffix _).trans (List.suffix_cons _ _)))

theorem suffix_of_argumentHead {s r : List Char} {head : Head}
    (h : argumentHead s = .ok (head, r)) : r <:+ s := by
  unfold argumentHead at h
  split at h
  · cases h
  · cases h
  · split at h
    · cases h
    · exact (suffix_of_headOfName h).trans ((afterName_suffix _).trans (skipWhiteSpace_suffix _))

end MessageFormat.Pattern
