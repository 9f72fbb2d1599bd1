import MessageFormat.Element
import MessageFormat.Pattern.Scope

/-! Literal text and its quoting. Two apostrophes are one apostrophe of the text. A single apostrophe
before a character that could mean something begins a quotation, in which every character stands for
itself until the next single apostrophe or the end of the pattern; before any other character it is an
apostrophe of the text. -/

namespace MessageFormat.Pattern

/-- Whether an apostrophe before the character `next?` begins a quotation. -/
def opensQuotation (σ : Scope) (next? : Option Char) : Bool :=
  next?.any fun c =>
    c = '\x7b' || c = '\x7d' || c = '<' || c = '>' || (c = '#' && σ.inPlural)

/-- Whether text that is not quoted ends before the character `c` when the character after it is `next?`. -/
def endsText (d : Dialect) (σ : Scope) (c : Char) (next? : Option Char) : Bool :=
  c = '\x7b' || (c = '\x7d' && σ.enclosed) || (c = '#' && σ.inPlural) ||
    (c = '<' && d.tags && next?.any fun next => next = '/' || isTagLetter next)

/-- Text ends before a character exactly if something else than text begins with it. -/
theorem endsText_eq_false_iff {d : Dialect} {σ : Scope} {c : Char} {next? : Option Char} :
    endsText d σ c next? = false ↔ lead d σ c next? = .text := by
  unfold endsText lead
  by_cases hless : c = '<'
  · subst hless
    cases d.tags with
    | false => simp
    | true =>
        cases next? with
        | none => simp
        | some next =>
            by_cases hslash : next = '/'
            · cases σ.inTag <;> simp [hslash]
            · cases isTagLetter next <;> simp [hslash]
  · by_cases hopen : c = '\x7b'
    · simp [hopen]
    · by_cases hclose : c = '\x7d'
      · cases σ.enclosed <;> simp [hclose]
      · by_cases hpound : c = '#'
        · cases σ.inPlural <;> simp [hpound]
        · simp [hless, hopen, hclose, hpound]

/-- Puts a character in front of the text that was read. -/
def consRead (c : Char) (read : List Char × List Char) : List Char × List Char :=
  (c :: read.1, read.2)

/-- The literal text at the front of a pattern, freed of its quoting, and what follows it. `quoted`
says whether the pattern begins inside a quotation. -/
def literalText (d : Dialect) (σ : Scope) (quoted : Bool) : List Char → List Char × List Char
  | [] => ([], [])
  | '\x27' :: '\x27' :: s => consRead '\x27' (literalText d σ quoted s)
  | '\x27' :: s =>
    if quoted then literalText d σ false s
    else if opensQuotation σ s.head? then literalText d σ true s
    else consRead '\x27' (literalText d σ false s)
  | c :: s =>
    if quoted || !endsText d σ c s.head? then consRead c (literalText d σ quoted s)
    else ([], c :: s)

theorem literalText_suffix (d : Dialect) (σ : Scope) (quoted : Bool) (s : List Char) :
    (literalText d σ quoted s).2 <:+ s := by
  fun_induction literalText d σ quoted s with
  | case1 => exact List.suffix_refl _
  | case2 quoted s ih => exact ih.trans ((List.suffix_cons _ _).trans (List.suffix_cons _ _))
  | case3 s _ ih => exact ih.trans (List.suffix_cons _ _)
  | case4 quoted s _ _ _ ih => exact ih.trans (List.suffix_cons _ _)
  | case5 quoted s _ _ _ ih => exact ih.trans (List.suffix_cons _ _)
  | case6 quoted c s _ _ _ ih => exact ih.trans (List.suffix_cons _ _)
  | case7 => exact List.suffix_refl _

/-- Text that begins with a character of text takes that character away. -/
theorem literalText_cons_suffix {d : Dialect} {σ : Scope} {c : Char} {s : List Char}
    (h : lead d σ c s.head? = .text) : (literalText d σ false (c :: s)).2 <:+ s := by
  unfold literalText
  split
  · rename_i heq
    cases heq
  · rename_i r heq
    obtain ⟨rfl, rfl⟩ := List.cons.inj heq
    exact (literalText_suffix d σ false r).trans (List.suffix_cons _ _)
  · rename_i r _ heq
    obtain ⟨rfl, rfl⟩ := List.cons.inj heq
    simp only [Bool.false_eq_true, if_false]
    split
    · exact literalText_suffix d σ true _
    · exact literalText_suffix d σ false _
  · rename_i r _ _ heq
    obtain ⟨rfl, rfl⟩ := List.cons.inj heq
    simp only [endsText_eq_false_iff.mpr h, Bool.not_false, Bool.or_true, if_true]
    exact literalText_suffix d σ false _

/-- Puts text in front of a message, as one literal with the literal that the message begins with. -/
def consLiteral (text : String) : List Element → List Element
  | .literal next :: es => .literal (text ++ next) :: es
  | es => if text = "" then es else .literal text :: es

end MessageFormat.Pattern
