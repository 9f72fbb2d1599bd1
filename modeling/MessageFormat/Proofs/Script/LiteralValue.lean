import MessageFormat.Json.Quoted
import MessageFormat.Proofs.Script.Lexer
import MessageFormat.Proofs.Script.Reader
import MessageFormat.Proofs.Script.Shape

/-! What a template without placeholders is worth by the rules of ECMAScript. The value is a sequence of
units of UTF-16. A backslash begins an escape, which stands for the units that the rules give it; a line end
that is written as it is, be it a carriage return or one with a line feed behind it, counts as a line feed;
every other character stands for itself. Text that is escaped for a template is worth the text with its line
ends counted so, which is the text itself exactly when there is no carriage return in it. -/

namespace MessageFormat.LiteralValue

/-- The units of the character with the number `n`: one, or a pair of surrogates. -/
def units (n : Nat) : List UInt16 :=
  if n < 0x10000 then [.ofNat n]
  else [.ofNat (0xD800 + (n - 0x10000) / 0x400), .ofNat (0xDC00 + (n - 0x10000) % 0x400)]

/-- The units of a text. -/
def utf16 (s : List Char) : List UInt16 :=
  s.flatMap fun c => units c.toNat

/-- The unit of the carriage return. -/
def carriageReturn : UInt16 := 0x0D

theorem mem_units_iff {n : Nat} (hn : n < 0x110000) : carriageReturn ∈ units n ↔ n = 0x0D := by
  have hofNat : ∀ k < 0x10000, carriageReturn = UInt16.ofNat k ↔ k = 0x0D := by
    intro k hk
    rw [← UInt16.toNat_inj, UInt16.toNat_ofNat_of_lt' hk]
    exact eq_comm
  unfold units
  split
  · rw [List.mem_singleton, hofNat n (by omega)]
  · simp only [List.mem_cons, List.not_mem_nil, or_false]
    rw [hofNat _ (by omega), hofNat _ (by omega)]
    omega

theorem mem_utf16_iff {s : List Char} : carriageReturn ∈ utf16 s ↔ '\r' ∈ s := by
  have hchar : ∀ c : Char, carriageReturn ∈ units c.toNat ↔ c = '\r' := by
    intro c
    have hvalid : c.toNat < 0xD800 ∨ 0xDFFF < c.toNat ∧ c.toNat < 0x110000 := c.valid
    rw [mem_units_iff (by omega), ← Char.toNat_inj]
    rfl
  simp [utf16, hchar]

/-- The number that digits to the base sixteen stand for. -/
def hexNumber? (digits : List Char) : Option Nat :=
  (digits.mapM Json.hexValue?).map fun ds => ds.foldl (fun n d => 16 * n + d) 0

/-- The unit of a character that is escaped by a letter. -/
def controlUnit? : Char → Option UInt16
  | 'b' => some 0x08
  | 't' => some 0x09
  | 'n' => some 0x0A
  | 'v' => some 0x0B
  | 'f' => some 0x0C
  | 'r' => some 0x0D
  | _ => none

/-- The units that the escape behind a backslash stands for, and how many characters it takes. The end of a
line stands for nothing; a zero is the character of that number unless a digit follows; other digits, and a
letter `x` or `u` without the digits that it asks for, are no escapes. -/
def escape? : List Char → Option (List UInt16 × Nat)
  | [] => none
  | '\r' :: '\n' :: _ => some ([], 2)
  | 'x' :: s =>
    match s with
    | a :: b :: _ => (hexNumber? [a, b]).map fun n => (units n, 3)
    | _ => none
  | 'u' :: '\x7b' :: s => do
    let digits := s.takeWhile (· ≠ '\x7d')
    let n ← hexNumber? digits
    if digits.isEmpty || digits.length = s.length || 0x10FFFF < n then none
    else some (units n, digits.length + 3)
  | 'u' :: s =>
    match s with
    | a :: b :: c :: d :: _ => (hexNumber? [a, b, c, d]).map fun n => (units n, 5)
    | _ => none
  | c :: s =>
    if Program.isLineTerminator c then some ([], 1)
    else if c.isDigit then
      if c = '0' ∧ s.head?.all (!·.isDigit) then some ([0], 1) else none
    else some (((controlUnit? c).map fun u => [u]).getD (units c.toNat), 1)

/-- The value of a template from behind its opening backtick, and the text behind its closing one. There is
none if the template has a placeholder, something that is no escape, or no end. -/
def readTemplate (s : List Char) : Option (List UInt16 × List Char) :=
  match s with
  | [] => none
  | '\x60' :: r => some ([], r)
  | '$' :: '\x7b' :: _ => none
  | '\\' :: r =>
    (escape? r).bind fun escape =>
      (readTemplate (r.drop escape.2)).map fun tail => (escape.1 ++ tail.1, tail.2)
  | '\r' :: '\n' :: r => (readTemplate r).map fun tail => (units '\n'.toNat ++ tail.1, tail.2)
  | '\r' :: r => (readTemplate r).map fun tail => (units '\n'.toNat ++ tail.1, tail.2)
  | c :: r => (readTemplate r).map fun tail => (units c.toNat ++ tail.1, tail.2)
termination_by s.length

/-- The value of a template of which the inside is written. -/
def template? (inside : String) : Option (List UInt16) :=
  match readTemplate (inside.toList ++ ['\x60']) with
  | some (value, []) => some value
  | _ => none

/-- The value that a function without parameters returns whose body is one template without placeholders. -/
def constant? (source : String) : Option (List UInt16) :=
  match source.toList with
  | '(' :: ')' :: '=' :: '>' :: '\x60' :: s =>
    match readTemplate s with
    | some (value, []) => some value
    | _ => none
  | _ => none

/-- The text with every line end that has a carriage return made a line feed. -/
def foldReturns : List Char → List Char
  | [] => []
  | '\r' :: '\n' :: s => '\n' :: foldReturns s
  | '\r' :: s => '\n' :: foldReturns s
  | c :: s => c :: foldReturns s

theorem return_notMem_foldReturns (s : List Char) : '\r' ∉ foldReturns s := by
  fun_induction foldReturns s with
  | case1 => exact List.not_mem_nil
  | case2 s ih => simpa using ih
  | case3 s hfeed ih => simpa using ih
  | case4 c s hpair hreturn ih =>
      rw [List.mem_cons, not_or]
      exact ⟨fun h => hreturn h.symm, ih⟩

theorem foldReturns_of_notMem {s : List Char} (h : '\r' ∉ s) : foldReturns s = s := by
  fun_induction foldReturns s with
  | case1 => rfl
  | case2 s ih => simp at h
  | case3 s hfeed ih => simp at h
  | case4 c s hpair hreturn ih => rw [ih fun hs => h (.tail _ hs)]

/-- Counting line ends as line feeds changes the units of a text unless it has no carriage return. -/
theorem utf16_foldReturns_eq_iff (s : List Char) : utf16 (foldReturns s) = utf16 s ↔ '\r' ∉ s := by
  constructor
  · intro h hs
    have hmem : carriageReturn ∈ utf16 (foldReturns s) := h ▸ mem_utf16_iff.mpr hs
    exact return_notMem_foldReturns s (mem_utf16_iff.mp hmem)
  · intro h
    rw [foldReturns_of_notMem h]

/-! ### Escaped text -/

section Escaped

variable {c : Char} {s r : List Char}

/-- The characters that a template needs escapes for. -/
def isSpecial (c : Char) : Bool :=
  c = '\\' || c = '\x60' || c = '$'

theorem escape?_of_isSpecial (h : isSpecial c) : escape? (c :: s) = some (units c.toNat, 1) := by
  simp only [isSpecial, Bool.or_eq_true, decide_eq_true_eq] at h
  rcases h with (rfl | rfl) | rfl <;> rfl

theorem readTemplate_escaped (h : isSpecial c) :
    readTemplate ('\\' :: c :: s) = (readTemplate s).map fun tail => (units c.toNat ++ tail.1, tail.2) := by
  rw [readTemplate, escape?_of_isSpecial h]
  rfl

theorem readTemplate_plain (hspecial : isSpecial c = false) (hreturn : c ≠ '\r') :
    readTemplate (c :: s) = (readTemplate s).map fun tail => (units c.toNat ++ tail.1, tail.2) := by
  simp only [isSpecial, Bool.or_eq_false_iff, decide_eq_false_iff_not] at hspecial
  rw [readTemplate]
  all_goals simp_all

/-- A carriage return counts as a line feed where no line feed follows it. -/
theorem readTemplate_return (h : s.head? ≠ some '\n') :
    readTemplate ('\r' :: s) = (readTemplate s).map fun tail => (units '\n'.toNat ++ tail.1, tail.2) := by
  rw [readTemplate]
  rintro r rfl
  exact h rfl

theorem head?_escaped_ne (h : s.head? ≠ some '\n') :
    (s.flatMap Script.escapeTemplateChar ++ '\x60' :: r).head? ≠ some '\n' := by
  cases s with
  | nil => simp
  | cons c s =>
      rw [List.flatMap_cons, Script.escapeTemplateChar]
      split
      · simp
      · simpa using h

/-- Escaped text is read up to the backtick behind it, and is worth the text with its line ends counted as
line feeds. -/
theorem readTemplate_escapeTemplate (s r : List Char) :
    readTemplate (s.flatMap Script.escapeTemplateChar ++ '\x60' :: r) = some (utf16 (foldReturns s), r) := by
  fun_induction foldReturns s with
  | case1 =>
      rw [List.flatMap_nil, List.nil_append, readTemplate]
      rfl
  | case2 s ih =>
      have htext : ('\r' :: '\n' :: s).flatMap Script.escapeTemplateChar =
          '\r' :: '\n' :: s.flatMap Script.escapeTemplateChar := rfl
      rw [htext, List.cons_append, List.cons_append, readTemplate, ih]
      rfl
  | case3 s hfeed ih =>
      have htext : ('\r' :: s).flatMap Script.escapeTemplateChar =
          '\r' :: s.flatMap Script.escapeTemplateChar := rfl
      have hhead : s.head? ≠ some '\n' := by
        intro h
        obtain ⟨t, rfl⟩ := List.head?_eq_some_iff.mp h
        exact hfeed t rfl
      rw [htext, List.cons_append, readTemplate_return (head?_escaped_ne hhead), ih]
      rfl
  | case4 c s hpair hreturn ih =>
      rw [List.flatMap_cons, List.append_assoc]
      cases hspecial : isSpecial c with
      | true =>
          have htext : Script.escapeTemplateChar c = ['\\', c] := if_pos hspecial
          rw [htext, List.cons_append, List.cons_append, List.nil_append, readTemplate_escaped hspecial, ih]
          rfl
      | false =>
          have htext : Script.escapeTemplateChar c = [c] := if_neg (Bool.eq_false_iff.mp hspecial)
          rw [htext, List.cons_append, List.nil_append, readTemplate_plain hspecial hreturn, ih]
          rfl

end Escaped

theorem template?_escapeTemplate (text : String) :
    template? (Script.escapeTemplate text) = some (utf16 (foldReturns text.toList)) := by
  rw [template?, Script.escapeTemplate, String.toList_ofList, readTemplate_escapeTemplate]

/-- The function of a message of literals returns the value of their escaped text. -/
theorem constant?_source (text : String) :
    constant? ("()=>" ++ Script.template (Script.escapeTemplate text)) = some (utf16 (foldReturns text.toList)) := by
  have htext : ("()=>" ++ Script.template (Script.escapeTemplate text)).toList =
      '(' :: ')' :: '=' :: '>' :: '\x60' :: (text.toList.flatMap Script.escapeTemplateChar ++ ['\x60']) := by
    simp [Script.template, Script.escapeTemplate]
  rw [constant?, htext]
  simp only [readTemplate_escapeTemplate]

/-- By the rules of ECMAScript escaped text is worth the text with its line ends counted as line feeds, and
so the text itself exactly when it has no carriage return; no backtick and no placeholder is in it. The
function of a message of literals takes nothing and returns what their texts, one behind the other, are worth
so. -/
theorem escaped_text_value_eq_iff_no_return (locale : String) :
    (∀ text : String,
      template? (Script.escapeTemplate text) = some (utf16 (foldReturns text.toList)) ∧
        (template? (Script.escapeTemplate text) = some (utf16 text.toList) ↔ '\r' ∉ text.toList) ∧
        Lexer.run .template [] (Script.escapeTemplate text).toList = some ([], .template, [])) ∧
    ∀ texts : List String, ∃ source, Message.compileElements (texts.map .literal) locale = .ok source ∧
      constant? source = some (utf16 (foldReturns (String.join texts).toList)) ∧
        (constant? source = some (utf16 (String.join texts).toList) ↔ '\r' ∉ (String.join texts).toList) := by
  constructor
  · intro text
    have hvalue := template?_escapeTemplate text
    have hlexed := Lexer.balanced_escapeTemplate text [] []
    rw [List.append_nil] at hlexed
    refine ⟨hvalue, ?_, hlexed⟩
    rw [hvalue, Option.some_inj]
    exact utf16_foldReturns_eq_iff _
  · intro texts
    have hvalue := constant?_source (String.join texts)
    refine ⟨_, Message.compileElements_literals texts locale, hvalue, ?_⟩
    rw [hvalue, Option.some_inj]
    exact utf16_foldReturns_eq_iff _

/-- A carriage return is written as it is, and is worth a line feed. -/
theorem escaped_return_value_ne :
    Message.compileElements [.literal "\r"] "en" = .ok "()=>\x60\r\x60" ∧
      constant? "()=>\x60\r\x60" = some (utf16 ['\n']) ∧
      template? (Script.escapeTemplate "\r") = some (utf16 ['\n']) ∧ utf16 ['\n'] ≠ utf16 ['\r'] := by
  refine ⟨Message.compileElements_literals ["\r"] "en", constant?_source "\r", template?_escapeTemplate "\r", ?_⟩
  decide

end MessageFormat.LiteralValue
