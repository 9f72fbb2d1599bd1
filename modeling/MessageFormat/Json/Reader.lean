import MessageFormat.Json.Numeral
import MessageFormat.Json.Quoted

/-! Reading JSON. The notation is taken strictly: nothing but space, tab, line feed and carriage return
between its parts, and nothing behind the value. Arrays and objects may be nested only so deep. Of two
members with one key the value is the later one and the place the earlier one. -/

namespace MessageFormat.Json

/-- The characters that may stand between the parts of a value. -/
def isBlank (c : Char) : Bool :=
  c = ' ' || c = '\t' || c = '\n' || c = '\r'

/-- The text behind its leading blanks. -/
def skipBlanks (s : List Char) : List Char :=
  s.dropWhile isBlank

theorem skipBlanks_suffix (s : List Char) : skipBlanks s <:+ s :=
  List.dropWhile_suffix _

/-- The rest of a word, which must come next. -/
def readWord (letters s : List Char) : Except SyntaxError (List Char) :=
  match letters, s with
  | [], s => .ok s
  | _ :: _, [] => .error ⟨.unfinishedValue, []⟩
  | x :: xs, c :: s => if c = x then readWord xs s else .error ⟨.wordExpected, s⟩

/-- A value without parts. -/
def readScalar (s : List Char) : Except SyntaxError (Json × List Char) :=
  match s with
  | [] => .error ⟨.unfinishedValue, []⟩
  | 'n' :: r => do
    let r ← readWord "ull".toList r
    .ok (.null, r)
  | 't' :: r => do
    let r ← readWord "rue".toList r
    .ok (.bool true, r)
  | 'f' :: r => do
    let r ← readWord "alse".toList r
    .ok (.bool false, r)
  | '"' :: r => do
    let body ← readString r
    .ok (.string (.ofList body.value), body.rest)
  | c :: _ =>
    if c = '-' || c.isDigit then do
      let (n, r) ← readNumber s
      .ok (.number n, r)
    else refuseAt .valueExpected s

/-- A key of an object and the colon behind it. -/
def readKey (s : List Char) : Except SyntaxError (String × List Char) :=
  match s with
  | '"' :: r => do
    let body ← readString r
    match skipBlanks body.rest with
    | ':' :: r => .ok (.ofList body.value, r)
    | [] => .error ⟨.unfinishedObject, []⟩
    | r => refuseAt .colonExpected r
  | s => refuseAt .keyExpected s

/-- What follows a value in an array: a further item, from behind its comma, or the end. -/
def nextItem (s : List Char) : Except SyntaxError (Bool × List Char) :=
  match skipBlanks s with
  | [] => .error ⟨.unfinishedArray, []⟩
  | ']' :: r => .ok (false, r)
  | ',' :: r =>
    match skipBlanks r with
    | [] => .error ⟨.unfinishedValue, []⟩
    | ']' :: t => .error ⟨.trailingComma, t⟩
    | _ => .ok (true, r)
  | r => refuseAt .arrayEndExpected r

/-- What follows a value in an object: a further member, from behind its comma, or the end. -/
def nextMember (s : List Char) : Except SyntaxError (Bool × List Char) :=
  match skipBlanks s with
  | [] => .error ⟨.unfinishedObject, []⟩
  | '\x7d' :: r => .ok (false, r)
  | ',' :: r =>
    match skipBlanks r with
    | [] => .error ⟨.unfinishedValue, []⟩
    | '\x7d' :: t => .error ⟨.trailingComma, t⟩
    | _ => .ok (true, r)
  | r => refuseAt .objectEndExpected r

/-- The members of an object, with one place for each key. -/
def collect (members : List (String × Json)) : List (String × Json) :=
  members.foldl (fun ms m => setMember m.1 m.2 ms) []

theorem suffix_of_readWord {letters s r : List Char} (h : readWord letters s = .ok r) : r <:+ s := by
  fun_induction readWord letters s with
  | case1 s =>
    cases h
    exact List.suffix_refl _
  | case2 => cases h
  | case3 xs c s ih => exact (ih h).trans (List.suffix_cons _ _)
  | case4 => cases h

theorem suffix_of_readScalar {s r : List Char} {v : Json} (h : readScalar s = .ok (v, r)) :
    r <:+ s := by
  unfold readScalar at h
  split at h
  · cases h
  iterate 3
    · simp only [bind, Except.bind] at h
      split at h
      · cases h
      · rename_i hw
        cases h
        exact (suffix_of_readWord hw).trans (List.suffix_cons _ _)
  · simp only [bind, Except.bind] at h
    split at h
    · cases h
    · rename_i body _
      cases h
      exact body.suffix.trans (List.suffix_cons _ _)
  · split at h
    · simp only [bind, Except.bind] at h
      split at h
      · cases h
      · rename_i hn
        cases h
        exact suffix_of_readNumber hn
    · cases h

theorem suffix_of_readKey {s r : List Char} {key : String} (h : readKey s = .ok (key, r)) :
    r <:+ s := by
  unfold readKey at h
  split at h
  · simp only [bind, Except.bind] at h
    split at h
    · cases h
    · rename_i body _
      have hb := (skipBlanks_suffix body.rest).trans (body.suffix.trans (List.suffix_cons '"' _))
      split at h
      · rename_i ht
        cases h
        rw [ht] at hb
        exact (List.suffix_cons _ _).trans hb
      · cases h
      · cases h
  · cases h

/-- What is left behind a character of a text is shorter than the text. -/
theorem suffix_and_length_lt {c : Char} {r s : List Char} (h : c :: r <:+ s) :
    r <:+ s ∧ r.length < s.length :=
  ⟨(List.suffix_cons _ _).trans h, h.length_le⟩

theorem suffix_of_nextItem {s r : List Char} {more : Bool} (h : nextItem s = .ok (more, r)) :
    r <:+ s ∧ r.length < s.length := by
  have hs := skipBlanks_suffix s
  unfold nextItem at h
  split at h
  · cases h
  · rename_i ht
    cases h
    exact suffix_and_length_lt (ht ▸ hs)
  · rename_i ht
    split at h
    · cases h
    · cases h
    · cases h
      exact suffix_and_length_lt (ht ▸ hs)
  · cases h

theorem suffix_of_nextMember {s r : List Char} {more : Bool} (h : nextMember s = .ok (more, r)) :
    r <:+ s ∧ r.length < s.length := by
  have hs := skipBlanks_suffix s
  unfold nextMember at h
  split at h
  · cases h
  · rename_i ht
    cases h
    exact suffix_and_length_lt (ht ▸ hs)
  · rename_i ht
    split at h
    · cases h
    · cases h
    · cases h
      exact suffix_and_length_lt (ht ▸ hs)
  · cases h

mutual

/-- A value with blanks before it, nested at most `room` deep. -/
def readValue (room : Nat) (s : List Char) : Except SyntaxError (Parsed Json s) :=
  have hs := skipBlanks_suffix s
  match h : skipBlanks s with
  | '[' :: r => do
    have hr := suffix_and_length_lt (h ▸ hs)
    match room with
    | 0 => .error ⟨.tooDeep, r⟩
    | room + 1 =>
      have ht := skipBlanks_suffix r
      match h' : skipBlanks r with
      | [] => .error ⟨.unfinishedArray, []⟩
      | ']' :: t => .ok ⟨.array [], t, (suffix_and_length_lt (h' ▸ ht)).1.trans hr.1⟩
      | _ => do
        let v ← readValue room r
        let vs ← readItems room v.rest
        .ok (vs.lift (fun vs => .array (v.value :: vs)) (v.suffix.trans hr.1))
  | '\x7b' :: r => do
    have hr := suffix_and_length_lt (h ▸ hs)
    match room with
    | 0 => .error ⟨.tooDeep, r⟩
    | room + 1 =>
      have ht := skipBlanks_suffix r
      match h' : skipBlanks r with
      | [] => .error ⟨.unfinishedObject, []⟩
      | '\x7d' :: t => .ok ⟨.object [], t, (suffix_and_length_lt (h' ▸ ht)).1.trans hr.1⟩
      | _ => do
        let m ← readMember room r
        let ms ← readMembers room m.rest
        .ok (ms.lift (fun ms => .object (collect (m.value :: ms))) (m.suffix.trans hr.1))
  | t => do
    let ⟨(v, r), hv⟩ ← attach (readScalar t)
    .ok ⟨v, r, (suffix_of_readScalar hv).trans (h ▸ hs)⟩
termination_by (s.length, 0)
decreasing_by
  · exact .left _ _ hr.2
  · exact .left _ _ (Nat.lt_of_le_of_lt v.suffix.length_le hr.2)
  · exact .left _ _ hr.2
  · exact .left _ _ (Nat.lt_of_le_of_lt m.suffix.length_le hr.2)

/-- The items of an array behind the first one, and its closing bracket. -/
def readItems (room : Nat) (s : List Char) : Except SyntaxError (Parsed (List Json) s) := do
  let ⟨(more, r), h⟩ ← attach (nextItem s)
  have hr := suffix_of_nextItem h
  match more with
  | false => .ok ⟨[], r, hr.1⟩
  | true => do
    let v ← readValue room r
    let vs ← readItems room v.rest
    .ok (vs.lift (v.value :: ·) (v.suffix.trans hr.1))
termination_by (s.length, 0)
decreasing_by
  · exact .left _ _ hr.2
  · exact .left _ _ (Nat.lt_of_le_of_lt v.suffix.length_le hr.2)

/-- A member of an object with blanks before it. -/
def readMember (room : Nat) (s : List Char) : Except SyntaxError (Parsed (String × Json) s) := do
  let ⟨(key, r), h⟩ ← attach (readKey (skipBlanks s))
  have hr : r <:+ s := (suffix_of_readKey h).trans (skipBlanks_suffix s)
  let v ← readValue room r
  .ok (v.lift (key, ·) hr)
termination_by (s.length, 1)
decreasing_by
  rcases Nat.lt_or_eq_of_le hr.length_le with hl | hl
  · exact .left _ _ hl
  · rw [hl]
    exact .right _ (by decide)

/-- The members of an object behind the first one, and its closing brace. -/
def readMembers (room : Nat) (s : List Char) :
    Except SyntaxError (Parsed (List (String × Json)) s) := do
  let ⟨(more, r), h⟩ ← attach (nextMember s)
  have hr := suffix_of_nextMember h
  match more with
  | false => .ok ⟨[], r, hr.1⟩
  | true => do
    let m ← readMember room r
    let ms ← readMembers room m.rest
    .ok (ms.lift (m.value :: ·) (m.suffix.trans hr.1))
termination_by (s.length, 0)
decreasing_by
  · exact .left _ _ hr.2
  · exact .left _ _ (Nat.lt_of_le_of_lt m.suffix.length_le hr.2)

end

/-- How deep arrays and objects may be nested. -/
def maxDepth : Nat := 127

/-- Reads a text as one value nested at most `limit` deep. -/
def readWithin (limit : Nat) (text : String) : Except SyntaxError Json := do
  let v ← readValue limit text.toList
  match skipBlanks v.rest with
  | [] => .ok v.value
  | _ :: r => .error ⟨.trailingCharacters, r⟩

/-- Reads a text as one value. -/
def read (text : String) : Except SyntaxError Json :=
  readWithin maxDepth text

end MessageFormat.Json
