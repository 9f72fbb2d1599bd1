import MessageFormat.Script.Source

/-! The lexical structure of emitted source text. A lexer goes over the text with a stack of modes: it is
inside a template, an expression or a string. In a template and in a string a backslash takes the character
behind it along; a backtick ends a template and a quotation mark a string; a dollar sign with a brace behind
it opens an expression inside a template, and in an expression backticks, quotation marks and braces open
what their counterparts end. The tokens that it gives are the structure alone, without the text of templates
and the contents of strings. -/

namespace MessageFormat.Lexer

/-- What the lexer is inside of. -/
inductive Mode where
  | template
  | expression
  | string
  deriving DecidableEq, Repr

/-- A character of an expression, or the opening or the closing of something. A closing brace ends an
expression inside a template as well as a pair of braces. -/
inductive Token where
  | code (c : Char)
  | openTemplate
  | closeTemplate
  | openHole
  | openString
  | closeString
  | openBrace
  | closeBrace
  deriving DecidableEq, Repr

/-- The tokens of a text, and the mode and the enclosing modes at its end; nothing if a mode was left that
nothing encloses. -/
abbrev Outcome := Option (List Token × Mode × List Mode)

/-- The outcome with tokens in front of it. -/
def emit (tokens : List Token) (outcome : Outcome) : Outcome :=
  outcome.map fun r => (tokens ++ r.1, r.2)

/-- Leaves a mode for the nearest one around it. -/
def leave (token : Token) (next : Mode → List Mode → Outcome) : List Mode → Outcome
  | [] => none
  | outer :: stack => emit [token] (next outer stack)

/-- Runs the lexer in a mode that the modes of the stack are around. -/
def run : Mode → List Mode → List Char → Outcome
  | mode, stack, [] => some ([], mode, stack)
  | .template, stack, '\\' :: _ :: s => run .template stack s
  | .template, stack, '\x60' :: s => leave .closeTemplate (fun outer stack => run outer stack s) stack
  | .template, stack, '$' :: '\x7b' :: s => emit [.openHole] (run .expression (.template :: stack) s)
  | .template, stack, _ :: s => run .template stack s
  | .expression, stack, '\x60' :: s => emit [.openTemplate] (run .template (.expression :: stack) s)
  | .expression, stack, '"' :: s => emit [.openString] (run .string (.expression :: stack) s)
  | .expression, stack, '\x7b' :: s => emit [.openBrace] (run .expression (.expression :: stack) s)
  | .expression, stack, '\x7d' :: s => leave .closeBrace (fun outer stack => run outer stack s) stack
  | .expression, stack, c :: s => emit [.code c] (run .expression stack s)
  | .string, stack, '\\' :: _ :: s => run .string stack s
  | .string, stack, '"' :: s => leave .closeString (fun outer stack => run outer stack s) stack
  | .string, stack, _ :: s => run .string stack s

@[simp]
theorem emit_nil (outcome : Outcome) : emit [] outcome = outcome := by
  cases outcome <;> rfl

@[simp]
theorem emit_emit (tokens tokens' : List Token) (outcome : Outcome) :
    emit tokens (emit tokens' outcome) = emit (tokens ++ tokens') outcome := by
  cases outcome <;> simp [emit]

/-- The characters of an expression that open and close nothing. -/
def isCode (c : Char) : Bool :=
  c != '\x60' && c != '"' && c != '\x7b' && c != '\x7d'

/-- A text of an expression that opens and closes nothing. -/
def IsCode (s : String) : Prop :=
  ∀ c ∈ s.toList, isCode c

instance (s : String) : Decidable (IsCode s) :=
  decidable_of_iff (s.toList.all isCode = true) List.all_eq_true

theorem IsCode.append {s t : String} (hs : IsCode s) (ht : IsCode t) : IsCode (s ++ t) := by
  unfold IsCode
  rw [String.toList_append]
  exact List.forall_mem_append.mpr ⟨hs, ht⟩

section Steps

variable {c : Char} (stack : List Mode) (s : List Char)

theorem run_template_plain (hslash : c ≠ '\\') (htick : c ≠ '\x60') (hdollar : c ≠ '$') :
    run .template stack (c :: s) = run .template stack s := by
  rw [run]
  all_goals simp_all

theorem run_expression_code (hc : isCode c) :
    run .expression stack (c :: s) = emit [.code c] (run .expression stack s) := by
  simp only [isCode, Bool.and_eq_true, bne_iff_ne] at hc
  rw [run]
  all_goals simp_all

theorem run_string_plain (hslash : c ≠ '\\') (hquote : c ≠ '"') :
    run .string stack (c :: s) = run .string stack s := by
  rw [run]
  all_goals simp_all

end Steps

/-! ### Texts that leave the mode as it was -/

/-- A text that needs no escapes between quotation marks. -/
def Bare (s : String) : Prop :=
  '"' ∉ s.toList ∧ '\\' ∉ s.toList

instance (s : String) : Decidable (Bare s) :=
  inferInstanceAs (Decidable (_ ∧ _))

/-- In the mode the text gives the tokens, and behind it the lexer is in that mode again with the same modes
around it. -/
def Balanced (mode : Mode) (text : String) (tokens : List Token) : Prop :=
  ∀ stack rest, run mode stack (text.toList ++ rest) = emit tokens (run mode stack rest)

section Balanced

variable {mode : Mode} {s t : String} {ts us : List Token}

theorem Balanced.append (hs : Balanced mode s ts) (ht : Balanced mode t us) :
    Balanced mode (s ++ t) (ts ++ us) := by
  intro stack rest
  rw [String.toList_append, List.append_assoc, hs, ht, emit_emit]

/-- A balanced text inside a template, with its backticks, is balanced in an expression. -/
theorem Balanced.template (h : Balanced .template s ts) :
    Balanced .expression (Script.template s) (.openTemplate :: (ts ++ [.closeTemplate])) := by
  intro stack rest
  have htext : (Script.template s).toList ++ rest = '\x60' :: (s.toList ++ '\x60' :: rest) := by
    simp [Script.template]
  rw [htext, run, h]
  simp [run, leave]

/-- A balanced expression, with its braces and the dollar sign, is balanced in a template. -/
theorem Balanced.placeholder (h : Balanced .expression s ts) :
    Balanced .template (Script.placeholder s) (.openHole :: (ts ++ [.closeBrace])) := by
  intro stack rest
  have htext : (Script.placeholder s).toList ++ rest = '$' :: '\x7b' :: (s.toList ++ '\x7d' :: rest) := by
    simp [Script.placeholder]
  rw [htext, run, h]
  simp [run, leave]

theorem Balanced.braces (h : Balanced .expression s ts) :
    Balanced .expression ("\x7b" ++ s ++ "\x7d") (.openBrace :: (ts ++ [.closeBrace])) := by
  intro stack rest
  have htext : ("\x7b" ++ s ++ "\x7d").toList ++ rest = '\x7b' :: (s.toList ++ '\x7d' :: rest) := by
    simp
  rw [htext, run, h]
  simp [run, leave]

/-- A balanced content of a string, with its quotation marks, is balanced in an expression. -/
theorem Balanced.quoted (h : Balanced .string s ts) :
    Balanced .expression ("\"" ++ s ++ "\"") (.openString :: (ts ++ [.closeString])) := by
  intro stack rest
  have htext : ("\"" ++ s ++ "\"").toList ++ rest = '"' :: (s.toList ++ '"' :: rest) := by
    simp
  rw [htext, run, h]
  simp [run, leave]

theorem balanced_code (h : IsCode s) : Balanced .expression s (s.toList.map .code) := by
  intro stack rest
  unfold IsCode at h
  generalize s.toList = cs at h
  induction cs with
  | nil => exact (emit_nil _).symm
  | cons c cs ih =>
      rw [List.cons_append, run_expression_code stack _ (h c (.head _)), ih fun d hd => h d (.tail _ hd)]
      simp

/-- Escaped text of a template has no structure. -/
theorem balanced_escapeTemplate (text : String) : Balanced .template (Script.escapeTemplate text) [] := by
  intro stack rest
  rw [Script.escapeTemplate, String.toList_ofList, emit_nil]
  induction text.toList with
  | nil => rfl
  | cons c cs ih =>
      rw [List.flatMap_cons, List.append_assoc, Script.escapeTemplateChar]
      split
      · exact ih
      · rename_i hc
        simp only [Bool.or_eq_true, decide_eq_true_eq, not_or] at hc
        rw [List.singleton_append, run_template_plain stack _ hc.1.1 hc.1.2 hc.2, ih]

/-- The escaped content of a string has no structure. -/
theorem balanced_escapeQuoted (text : String) :
    Balanced .string (.ofList (text.toList.flatMap Script.escapeQuotedChar)) [] := by
  intro stack rest
  rw [String.toList_ofList, emit_nil]
  induction text.toList with
  | nil => rfl
  | cons c cs ih =>
      rw [List.flatMap_cons, List.append_assoc, Script.escapeQuotedChar]
      split
      · exact ih
      · rename_i hc
        simp only [Bool.or_eq_true, decide_eq_true_eq, not_or] at hc
        rw [List.singleton_append, run_string_plain stack _ hc.1 hc.2, ih]

theorem Bare.balanced (h : Bare s) : Balanced .string s [] := by
  intro stack rest
  rw [emit_nil]
  obtain ⟨hquote, hslash⟩ := h
  generalize s.toList = cs at hquote hslash
  induction cs with
  | nil => rfl
  | cons c cs ih =>
      rw [List.mem_cons, not_or] at hquote hslash
      rw [List.cons_append, run_string_plain stack _ (Ne.symm hslash.1) (Ne.symm hquote.1),
        ih hquote.2 hslash.2]

end Balanced

/-- In the mode both texts are balanced, and they give the same tokens. -/
def Alike (mode : Mode) (s t : String) : Prop :=
  ∃ tokens, Balanced mode s tokens ∧ Balanced mode t tokens

namespace Alike

variable {mode : Mode} {s s' t t' : String}

theorem append (hs : Alike mode s s') (ht : Alike mode t t') : Alike mode (s ++ t) (s' ++ t') := by
  obtain ⟨ts, hs, hs'⟩ := hs
  obtain ⟨us, ht, ht'⟩ := ht
  exact ⟨ts ++ us, hs.append ht, hs'.append ht'⟩

theorem template (h : Alike .template s t) : Alike .expression (Script.template s) (Script.template t) := by
  obtain ⟨ts, hs, ht⟩ := h
  exact ⟨_, hs.template, ht.template⟩

theorem placeholder (h : Alike .expression s t) :
    Alike .template (Script.placeholder s) (Script.placeholder t) := by
  obtain ⟨ts, hs, ht⟩ := h
  exact ⟨_, hs.placeholder, ht.placeholder⟩

theorem braces (h : Alike .expression s t) :
    Alike .expression ("\x7b" ++ s ++ "\x7d") ("\x7b" ++ t ++ "\x7d") := by
  obtain ⟨ts, hs, ht⟩ := h
  exact ⟨_, hs.braces, ht.braces⟩

theorem code (h : IsCode s) : Alike .expression s s :=
  ⟨_, balanced_code h, balanced_code h⟩

theorem escapeTemplate (s t : String) : Alike .template (Script.escapeTemplate s) (Script.escapeTemplate t) :=
  ⟨[], balanced_escapeTemplate s, balanced_escapeTemplate t⟩

theorem quote (s t : String) : Alike .expression (Script.quote s) (Script.quote t) :=
  ⟨_, (balanced_escapeQuoted s).quoted, (balanced_escapeQuoted t).quoted⟩

theorem bare (hs : Bare s) (ht : Bare t) : Alike .expression ("\"" ++ s ++ "\"") ("\"" ++ t ++ "\"") :=
  ⟨_, hs.balanced.quoted, ht.balanced.quoted⟩

end Alike

end MessageFormat.Lexer
