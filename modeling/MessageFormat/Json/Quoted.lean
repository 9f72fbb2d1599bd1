import MessageFormat.Json.SyntaxError
import MessageFormat.Text.Parsed

/-! Reading the strings of JSON. A character may be escaped by a letter or by its number to the base
sixteen; one beyond the first 2^16 takes two such numbers, its surrogates. Control characters must be
escaped. -/

namespace MessageFormat.Json

/-- The value of a digit to the base sixteen. -/
def hexValue? (c : Char) : Option Nat :=
  if '0' ≤ c ∧ c ≤ '9' then some (c.toNat - '0'.toNat)
  else if 'a' ≤ c ∧ c ≤ 'f' then some (c.toNat - 'a'.toNat + 10)
  else if 'A' ≤ c ∧ c ≤ 'F' then some (c.toNat - 'A'.toNat + 10)
  else none

/-- The value of four digits to the base sixteen. -/
def readHexUnit (s : List Char) : Except SyntaxError (Nat × List Char) :=
  match s with
  | a :: b :: c :: d :: r =>
    match hexValue? a, hexValue? b, hexValue? c, hexValue? d with
    | some a, some b, some c, some d => .ok (((a * 16 + b) * 16 + c) * 16 + d, r)
    | _, _, _, _ => .error ⟨.invalidEscape, r⟩
  | _ => .error ⟨.unfinishedString, []⟩

/-- A character escaped by its number, from behind the letter. A number of the upper range needs a second
escape. -/
def readUnicodeEscape (s : List Char) : Except SyntaxError (Char × List Char) := do
  let (high, r) ← readHexUnit s
  if 0xDC00 ≤ high ∧ high ≤ 0xDFFF then .error ⟨.loneSurrogate, r⟩
  else if 0xD800 ≤ high ∧ high ≤ 0xDBFF then
    match r with
    | '\\' :: 'u' :: r => do
      let (low, r) ← readHexUnit r
      if 0xDC00 ≤ low ∧ low ≤ 0xDFFF then
        .ok (.ofNat (0x10000 + (high - 0xD800) * 0x400 + (low - 0xDC00)), r)
      else .error ⟨.loneSurrogate, r⟩
    | '\\' :: r => refuseAt .unfinishedSurrogatePair r
    | r => refuseAt .unfinishedSurrogatePair r
  else .ok (.ofNat high, r)

/-- An escaped character, from behind the backslash. -/
def readEscape (s : List Char) : Except SyntaxError (Char × List Char) :=
  match s with
  | [] => .error ⟨.unfinishedString, []⟩
  | '"' :: r => .ok ('"', r)
  | '\\' :: r => .ok ('\\', r)
  | '/' :: r => .ok ('/', r)
  | 'b' :: r => .ok ('\x08', r)
  | 'f' :: r => .ok ('\x0c', r)
  | 'n' :: r => .ok ('\n', r)
  | 'r' :: r => .ok ('\r', r)
  | 't' :: r => .ok ('\t', r)
  | 'u' :: r => readUnicodeEscape r
  | _ :: r => .error ⟨.invalidEscape, r⟩

theorem suffix_of_readHexUnit {s r : List Char} {n : Nat} (h : readHexUnit s = .ok (n, r)) :
    r <:+ s := by
  unfold readHexUnit at h
  split at h
  · split at h
    · cases h
      exact ⟨[_, _, _, _], rfl⟩
    · cases h
  · cases h

theorem suffix_of_readUnicodeEscape {s r : List Char} {c : Char}
    (h : readUnicodeEscape s = .ok (c, r)) : r <:+ s := by
  unfold readUnicodeEscape at h
  cases hu : readHexUnit s with
  | error e => simp [hu, bind, Except.bind] at h
  | ok v =>
    obtain ⟨high, t⟩ := v
    have ht := suffix_of_readHexUnit hu
    simp only [hu, bind, Except.bind] at h
    split at h
    · cases h
    · split at h
      · split at h
        · rename_i t
          cases hv : readHexUnit t with
          | error e => simp [hv] at h
          | ok v =>
            simp only [hv] at h
            split at h
            · obtain ⟨-, rfl⟩ := Prod.mk.inj (Except.ok.inj h)
              exact (suffix_of_readHexUnit hv).trans (.trans ⟨['\\', 'u'], rfl⟩ ht)
            · cases h
        · cases h
        · cases h
      · cases h
        exact ht

theorem suffix_of_readEscape {s r : List Char} {c : Char} (h : readEscape s = .ok (c, r)) :
    r <:+ s := by
  unfold readEscape at h
  split at h
  · cases h
  iterate 8
    · cases h
      exact List.suffix_cons _ _
  · exact (suffix_of_readUnicodeEscape h).trans (List.suffix_cons _ _)
  · cases h

/-- The characters of a string from behind its opening quotation mark up to behind its closing one. -/
def readString (s : List Char) : Except SyntaxError (Parsed (List Char) s) :=
  match s with
  | [] => .error ⟨.unfinishedString, []⟩
  | c :: r =>
    if c = '"' then .ok ⟨[], r, List.suffix_cons _ _⟩
    else if c = '\\' then do
      let ⟨(x, r₁), h⟩ ← attach (readEscape r)
      have hr : r₁ <:+ r := suffix_of_readEscape h
      let tail ← readString r₁
      .ok (tail.lift (x :: ·) (hr.trans (List.suffix_cons c r)))
    else if c.toNat < 0x20 then .error ⟨.controlCharacter, r⟩
    else do
      let tail ← readString r
      .ok (tail.lift (c :: ·) (List.suffix_cons c r))
termination_by s.length
decreasing_by
  · exact Nat.lt_succ_of_le hr.length_le
  · exact Nat.lt_succ_self _

end MessageFormat.Json
