import MessageFormat.Proofs.Pattern.Derivation
import MessageFormat.Proofs.Pattern.Printer

/-! Quoting is undone: what is printed for a literal is read as the literal, before any text that cannot
go on with it. A quotation is not ended by an apostrophe of the literal, because that is written twice, and
not by what follows it, because no apostrophe does. -/

namespace MessageFormat.Pattern

variable {d : Dialect} {σ : Scope}

theorem literalText_pair (quoted : Bool) (s : List Char) :
    literalText d σ quoted ('\x27' :: '\x27' :: s) = consRead '\x27' (literalText d σ quoted s) := by
  rw [literalText]

theorem literalText_plain {quoted : Bool} {c : Char} {s : List Char} (hc : c ≠ '\x27')
    (h : quoted = true ∨ lead d σ c s.head? = .text) :
    literalText d σ quoted (c :: s) = consRead c (literalText d σ quoted s) := by
  rw [literalText]
  · rw [if_pos (by simpa [endsText_eq_false_iff] using h)]
  · rintro t rfl
    simp at hc
  · rintro rfl
    simp at hc

theorem ne_apostrophe_of_needsQuoting {inPlural : Bool} {c : Char} (h : needsQuoting inPlural c) :
    c ≠ '\x27' := by
  rintro rfl
  exact absurd h (by simp [needsQuoting])

theorem lead_of_needsQuoting_eq_false {c : Char} (h : needsQuoting σ.inPlural c = false)
    (next? : Option Char) : lead d σ c next? = .text := by
  simp only [needsQuoting, Bool.or_eq_false_iff, Bool.and_eq_false_iff, decide_eq_false_iff_not] at h
  obtain ⟨⟨⟨⟨hopen, hclose⟩, hless⟩, -⟩, hpound⟩ := h
  unfold lead
  rw [if_neg hopen, if_neg hclose]
  by_cases hc : c = '#'
  · rw [if_pos hc, if_neg (by simpa [hc] using hpound)]
  · rw [if_neg hc, if_neg (by simp [hless])]

theorem literalText_open {c : Char} {s : List Char} (h : needsQuoting σ.inPlural c) :
    literalText d σ false ('\x27' :: c :: s) = literalText d σ true (c :: s) := by
  rw [literalText]
  · exact if_pos h
  · intro t ht
    exact ne_apostrophe_of_needsQuoting h (List.cons.inj ht).1

theorem literalText_close {s : List Char} (h : s.head? ≠ some '\x27') :
    literalText d σ true ('\x27' :: s) = literalText d σ false s := by
  rw [literalText]
  · rfl
  · rintro t rfl
    exact h rfl

/-- A text before which a literal ends. -/
def EndsLiteral (d : Dialect) (σ : Scope) (s : List Char) : Prop :=
  ∀ c r, s = c :: r → lead d σ c r.head? ≠ .text

theorem EndsLiteral.head?_ne {s : List Char} (h : EndsLiteral d σ s) : s.head? ≠ some '\x27' := by
  intro hhead
  obtain ⟨r, rfl⟩ := List.head?_eq_some_iff.mp hhead
  exact h _ r rfl rfl

theorem literalText_end {s : List Char} (h : EndsLiteral d σ s) :
    literalText d σ false s = ([], s) := by
  cases s with
  | nil => rw [literalText]
  | cons c s =>
      have hne : c ≠ '\x27' := fun hc => h.head?_ne (congrArg some hc)
      rw [literalText]
      · rw [if_neg (by simpa [endsText_eq_false_iff] using h c s rfl)]
      · rintro t rfl
        simp at hne
      · rintro rfl
        simp at hne

theorem doubleApostrophes_cons_apostrophe (s : List Char) :
    doubleApostrophes ('\x27' :: s) = '\x27' :: '\x27' :: doubleApostrophes s := rfl

theorem doubleApostrophes_cons {c : Char} (hc : c ≠ '\x27') (s : List Char) :
    doubleApostrophes (c :: s) = c :: doubleApostrophes s := by
  rw [doubleApostrophes, List.flatMap_cons, if_neg hc, doubleApostrophes, List.singleton_append]

/-- Inside a quotation every character stands for itself. -/
theorem literalText_quoted (s : List Char) {r : List Char} (h : EndsLiteral d σ r) :
    literalText d σ true (doubleApostrophes s ++ '\x27' :: r) = (s, r) := by
  induction s with
  | nil =>
      show literalText d σ true ('\x27' :: r) = ([], r)
      rw [literalText_close h.head?_ne, literalText_end h]
  | cons c s ih =>
      by_cases hc : c = '\x27'
      · subst hc
        rw [doubleApostrophes_cons_apostrophe, List.cons_append, List.cons_append, literalText_pair, ih]
        rfl
      · rw [doubleApostrophes_cons hc, List.cons_append, literalText_plain hc (.inl rfl), ih]
        rfl

/-- Outside of a quotation every character that needs none stands for itself. -/
theorem literalText_unquoted {s r t u : List Char} (hs : ∀ c ∈ s, needsQuoting σ.inPlural c = false)
    (hr : literalText d σ false r = (t, u)) :
    literalText d σ false (doubleApostrophes s ++ r) = (s ++ t, u) := by
  induction s with
  | nil => exact hr
  | cons c s ih =>
      have ih := ih fun x hx => hs x (.tail _ hx)
      by_cases hc : c = '\x27'
      · subst hc
        rw [doubleApostrophes_cons_apostrophe, List.cons_append, List.cons_append, literalText_pair, ih]
        rfl
      · have hlead := lead_of_needsQuoting_eq_false (d := d) (hs c (.head _))
        rw [doubleApostrophes_cons hc, List.cons_append, literalText_plain hc (.inr (hlead _)), ih]
        rfl

/-- A printed literal is read as the literal before any text that ends it. -/
theorem literalText_printLiteral (s : List Char) {r : List Char} (h : EndsLiteral d σ r) :
    literalText d σ false (printLiteral σ.inPlural s ++ r) = (s, r) := by
  have hplain : ∀ c ∈ s.takeWhile (fun c => !needsQuoting σ.inPlural c),
      needsQuoting σ.inPlural c = false := by
    intro c hc
    simpa using List.mem_takeWhile_imp hc
  have hsplit := List.takeWhile_append_dropWhile (p := fun c => !needsQuoting σ.inPlural c) (l := s)
  have hstops := stops_dropWhile (p := fun c => !needsQuoting σ.inPlural c) s
  rw [printLiteral, List.append_assoc]
  cases hquoted : s.dropWhile (fun c => !needsQuoting σ.inPlural c) with
  | nil =>
      rw [hquoted] at hsplit
      conv => rhs; rw [← hsplit]
      exact literalText_unquoted hplain (literalText_end h)
  | cons c t =>
      rw [hquoted] at hsplit hstops
      have hc : needsQuoting σ.inPlural c := by simpa using hstops
      conv => rhs; rw [← hsplit]
      refine literalText_unquoted hplain ?_
      have hread := literalText_quoted (c :: t) h
      rw [doubleApostrophes_cons (ne_apostrophe_of_needsQuoting hc)] at hread ⊢
      simpa [literalText_open hc] using hread

/-- What is printed for a literal begins with a character of text. -/
theorem printLiteral_eq_cons (inPlural : Bool) {s : List Char} (hs : s ≠ []) :
    ∃ c t, printLiteral inPlural s = c :: t ∧ needsQuoting inPlural c = false := by
  obtain ⟨c, t, rfl⟩ := List.exists_cons_of_ne_nil hs
  unfold printLiteral
  cases hc : needsQuoting inPlural c with
  | true =>
      rw [List.takeWhile_cons_of_neg (by simp [hc]), List.dropWhile_cons_of_neg (by simp [hc])]
      exact ⟨'\x27', _, rfl, by simp [needsQuoting]⟩
  | false =>
      rw [List.takeWhile_cons_of_pos (by simp [hc])]
      by_cases happ : c = '\x27'
      · subst happ
        exact ⟨'\x27', _, rfl, hc⟩
      · dsimp only
        rw [doubleApostrophes_cons happ]
        exact ⟨c, _, rfl, hc⟩

end MessageFormat.Pattern
