import MessageFormat.Proofs.Script.LiteralValue

/-! What a text between quotation marks is worth by the rules of ECMAScript. As in a template, a backslash begins
an escape; but a line feed or a carriage return that is written as it is makes it no string at all, whereas the
two separators of lines and of paragraphs may stand in it. Text that is written between quotation marks with only
its backslashes and quotation marks escaped is therefore a string exactly when no such line end is in it, and then
it is worth itself. -/

namespace MessageFormat.LiteralValue

/-- The characters that end a line of a program and are in no string as they are. -/
def isLineEnd (c : Char) : Bool :=
  c = '\n' || c = '\r'

/-- Whether a text has a line end in it. -/
def hasLineEnd (text : String) : Bool :=
  text.toList.any isLineEnd

/-- The value of a string from behind its opening quotation mark, and the text behind its closing one. There is
none if the string has a line end, something that is no escape, or no end. -/
def readString (s : List Char) : Option (List UInt16 × List Char) :=
  match s with
  | [] => none
  | '"' :: r => some ([], r)
  | '\\' :: r =>
    (escape? r).bind fun escape =>
      (readString (r.drop escape.2)).map fun tail => (escape.1 ++ tail.1, tail.2)
  | c :: r =>
    if isLineEnd c then none
    else (readString r).map fun tail => (units c.toNat ++ tail.1, tail.2)
termination_by s.length

/-- The value of a whole text that is one string between quotation marks. -/
def string? (source : String) : Option (List UInt16) :=
  match source.toList with
  | '"' :: s =>
    match readString s with
    | some (value, []) => some value
    | _ => none
  | _ => none

section Escaped

variable {c : Char} {s : List Char}

/-- The characters that are escaped between quotation marks. -/
def isMark (c : Char) : Bool :=
  c = '\\' || c = '"'

theorem readString_escaped (h : isMark c) :
    readString ('\\' :: c :: s) = (readString s).map fun tail => (units c.toNat ++ tail.1, tail.2) := by
  have hescape : escape? (c :: s) = some (units c.toNat, 1) := by
    simp only [isMark, Bool.or_eq_true, decide_eq_true_eq] at h
    rcases h with rfl | rfl <;> rfl
  rw [readString, hescape]
  rfl

theorem readString_plain (h : isMark c = false) :
    readString (c :: s) =
      if isLineEnd c then none else (readString s).map fun tail => (units c.toNat ++ tail.1, tail.2) := by
  simp only [isMark, Bool.or_eq_false_iff, decide_eq_false_iff_not] at h
  rw [readString]
  · exact h.2
  · exact h.1

theorem isLineEnd_of_isMark (h : isMark c) : isLineEnd c = false := by
  simp only [isMark, Bool.or_eq_true, decide_eq_true_eq] at h
  rcases h with rfl | rfl <;> rfl

/-- Escaped text is read up to the quotation mark behind it unless it has a line end. -/
theorem readString_escapeQuoted (s r : List Char) :
    readString (s.flatMap Script.escapeQuotedChar ++ '"' :: r) =
      if s.any isLineEnd then none else some (utf16 s, r) := by
  induction s with
  | nil =>
      rw [List.flatMap_nil, List.nil_append, readString]
      rfl
  | cons c s ih =>
      rw [List.flatMap_cons, List.append_assoc, List.any_cons]
      cases hmark : isMark c with
      | true =>
          have htext : Script.escapeQuotedChar c = ['\\', c] := if_pos hmark
          rw [htext, List.cons_append, List.cons_append, List.nil_append, readString_escaped hmark, ih,
            isLineEnd_of_isMark hmark, Bool.false_or]
          split <;> rfl
      | false =>
          have htext : Script.escapeQuotedChar c = [c] := if_neg (Bool.eq_false_iff.mp hmark)
          rw [htext, List.cons_append, List.nil_append, readString_plain hmark, ih]
          cases isLineEnd c with
          | true => rfl
          | false =>
              rw [Bool.false_or, if_neg Bool.false_ne_true]
              split <;> rfl

end Escaped

/-- A text between quotation marks is a string unless it has a line end, and is worth itself. -/
theorem string?_quote (text : String) :
    string? (Script.quote text) = if hasLineEnd text then none else some (utf16 text.toList) := by
  have htext : (Script.quote text).toList = '"' :: (text.toList.flatMap Script.escapeQuotedChar ++ ['"']) := by
    simp [Script.quote]
  rw [string?, htext]
  simp only [readString_escapeQuoted]
  rw [hasLineEnd]
  cases text.toList.any isLineEnd with
  | true => rfl
  | false => rfl

end MessageFormat.LiteralValue
