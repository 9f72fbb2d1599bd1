import MessageFormat.Pattern.Scope
import Mathlib.Data.List.TakeWhile

/-! Runs of characters at the front of a text. A run is read as a whole and no further when a character
outside its class follows it, or the end of the text. White space is in no name of any kind and in no
number, so that it ends all of them. -/

namespace MessageFormat

/-- A text that does not begin with a character of the class `p`. -/
def Stops (p : Char → Bool) (s : List Char) : Prop :=
  ∀ c ∈ s.head?, p c = false

section Runs

variable {p q : Char → Bool} {run s : List Char}

@[simp]
theorem stops_nil : Stops p [] := by
  intro c hc
  cases hc

@[simp]
theorem stops_cons {c : Char} : Stops p (c :: s) ↔ p c = false := by
  simp [Stops]

theorem stops_dropWhile (s : List Char) : Stops p (s.dropWhile p) := by
  intro c hc
  have h := List.head?_dropWhile_not p s
  rw [Option.mem_def.mp hc] at h
  exact h

theorem stops_append (hrun : ∀ c ∈ run, p c = false) (hs : Stops p s) : Stops p (run ++ s) := by
  cases run with
  | nil => exact hs
  | cons c run => exact stops_cons.mpr (hrun c (.head _))

theorem takeWhile_eq_nil (hs : Stops p s) : s.takeWhile p = [] := by
  cases s with
  | nil => rfl
  | cons c s => simp [stops_cons.mp hs]

theorem dropWhile_eq_self (hs : Stops p s) : s.dropWhile p = s := by
  cases s with
  | nil => rfl
  | cons c s => simp [stops_cons.mp hs]

theorem takeWhile_run_append (hrun : ∀ c ∈ run, p c) (hs : Stops p s) :
    (run ++ s).takeWhile p = run := by
  rw [List.takeWhile_append_of_pos hrun, takeWhile_eq_nil hs, List.append_nil]

theorem dropWhile_run_append (hrun : ∀ c ∈ run, p c) (hs : Stops p s) :
    (run ++ s).dropWhile p = s := by
  rw [List.dropWhile_append_of_pos hrun, dropWhile_eq_self hs]

end Runs

/-- The characters of texts with a separator between them are those of the texts and of the separator. -/
theorem forall_mem_intercalate {p : Char → Prop} {separator : String} {texts : List String}
    (hseparator : ∀ c ∈ separator.toList, p c) (htexts : ∀ x ∈ texts, ∀ c ∈ x.toList, p c) :
    ∀ c ∈ (separator.intercalate texts).toList, p c := by
  induction texts with
  | nil => simp
  | cons x texts ih =>
      rw [List.forall_mem_cons] at htexts
      by_cases hnil : texts = []
      · subst hnil
        rw [String.intercalate_singleton]
        exact htexts.1
      · rw [String.intercalate_cons_of_ne_nil hnil]
        simp only [String.toList_append, List.forall_mem_append]
        exact ⟨⟨htexts.1, hseparator⟩, ih htexts.2⟩

/-! ### White space -/

/-- The code points of white space. -/
def whiteSpacePoints : List Nat :=
  [0x09, 0x0A, 0x0B, 0x0C, 0x0D, 0x20, 0x85, 0xA0, 0x1680, 0x2000, 0x2001, 0x2002, 0x2003, 0x2004, 0x2005,
    0x2006, 0x2007, 0x2008, 0x2009, 0x200A, 0x2028, 0x2029, 0x202F, 0x205F, 0x3000]

theorem toNat_mem_whiteSpacePoints {c : Char} (h : isWhiteSpace c) : c.toNat ∈ whiteSpacePoints := by
  simp only [isWhiteSpace, Bool.or_eq_true, Bool.and_eq_true, decide_eq_true_eq, beq_iff_eq] at h
  simp only [whiteSpacePoints, List.mem_cons, List.not_mem_nil, or_false]
  omega

theorem ne_of_isWhiteSpace {c d : Char} (hc : isWhiteSpace c) (hd : isWhiteSpace d = false) : c ≠ d := by
  rintro rfl
  exact Bool.false_ne_true (hd.symm.trans hc)

theorem isAlphanumeric_of_isWhiteSpace {c : Char} (h : isWhiteSpace c) : isAlphanumeric c = false := by
  have hpoints : ∀ n ∈ whiteSpacePoints,
      (alphanumericRanges.any fun range => range.1 ≤ n && n ≤ range.2) = false := by
    decide +kernel
  exact hpoints _ (toNat_mem_whiteSpacePoints h)

theorem isDigit_of_isWhiteSpace {c : Char} (h : isWhiteSpace c) : c.isDigit = false := by
  by_contra hdigit
  have halpha := isAlphanumeric_of_isAlphanum (c := c) (by simp_all [Char.isAlphanum])
  rw [isAlphanumeric_of_isWhiteSpace h] at halpha
  exact Bool.false_ne_true halpha

namespace Pattern

theorem isNameChar_of_isWhiteSpace {c : Char} (h : isWhiteSpace c) : isNameChar c = false := by
  simp [isNameChar, h]

theorem isTagNameChar_of_isWhiteSpace {c : Char} (h : isWhiteSpace c) : isTagNameChar c = false := by
  simp [isTagNameChar, isAlphanumeric_of_isWhiteSpace h, ne_of_isWhiteSpace h (d := '-') rfl,
    ne_of_isWhiteSpace h (d := '.') rfl, ne_of_isWhiteSpace h (d := '_') rfl]

theorem isWhiteSpace_of_isNameChar {c : Char} (h : isNameChar c) : isWhiteSpace c = false := by
  by_contra hspace
  rw [isNameChar_of_isWhiteSpace (Bool.not_eq_false _ ▸ hspace)] at h
  cases h

theorem isWhiteSpace_of_isTagNameChar {c : Char} (h : isTagNameChar c) : isWhiteSpace c = false := by
  by_contra hspace
  rw [isTagNameChar_of_isWhiteSpace (Bool.not_eq_false _ ▸ hspace)] at h
  cases h

end Pattern

/-- A text of white space alone. -/
def IsBlank (w : List Char) : Prop :=
  ∀ c ∈ w, isWhiteSpace c

/-- Blanks end a run of a class without white space, unless there are none and what follows does not. -/
theorem IsBlank.stops {p : Char → Bool} {w s : List Char} (hw : IsBlank w)
    (hp : ∀ {c : Char}, isWhiteSpace c → p c = false) (hs : Stops p s) : Stops p (w ++ s) :=
  stops_append (fun c hc => hp (hw c hc)) hs

theorem skipWhiteSpace_append {w s : List Char} (hw : IsBlank w) (hs : Stops isWhiteSpace s) :
    skipWhiteSpace (w ++ s) = s :=
  dropWhile_run_append hw hs

end MessageFormat
