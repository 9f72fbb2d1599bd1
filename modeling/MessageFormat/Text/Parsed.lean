/-! Reading off the front of a text. What is read comes with the rest of the text and with the proof that
the rest ends the text, so that a reader that calls itself on the rest can be seen to end. -/

namespace MessageFormat

/-- A value read off the front of the text `s`, and the rest of the text. -/
structure Parsed (α : Type) (s : List Char) where
  value : α
  rest : List Char
  suffix : rest <:+ s

namespace Parsed

variable {α β : Type} {s t : List Char}

/-- What is made of the value, for a text that ends in the one read. -/
def lift (f : α → β) (h : s <:+ t) (p : Parsed α s) : Parsed β t :=
  ⟨f p.value, p.rest, p.suffix.trans h⟩

/-- The value and the rest alone. -/
def pair (p : Parsed α s) : α × List Char :=
  (p.value, p.rest)

end Parsed

/-- A result together with the proof that it is the result. -/
def attach {ε α : Type} : (x : Except ε α) → Except ε { a : α // x = .ok a }
  | .error e => .error e
  | .ok a => .ok ⟨a, rfl⟩

/-- A computation of two steps succeeds when both of them do. -/
theorem bind_eq_ok {ε α β : Type} {x : Except ε α} {f : α → Except ε β} {b : β} :
    (x >>= f) = .ok b ↔ ∃ a, x = .ok a ∧ f a = .ok b := by
  constructor
  · intro h
    cases x with
    | error e => cases h
    | ok a => exact ⟨a, rfl, h⟩
  · rintro ⟨a, rfl, h⟩
    exact h

/-! ### Leaving the proofs out

What a reader does next does not depend on the proofs that come with what it has read. -/

theorem attach_bind {ε α β : Type} {x : Except ε α} {f : { a : α // x = .ok a } → Except ε β}
    {g : α → Except ε β} (h : ∀ a (ha : x = .ok a), f ⟨a, ha⟩ = g a) : (attach x >>= f) = x >>= g := by
  cases x with
  | error e => rfl
  | ok a => exact h a rfl

theorem map_bind {ε α β γ : Type} (x : Except ε α) (f : α → Except ε β) (g : β → γ) :
    (x >>= f).map g = x >>= fun a => (f a).map g := by
  cases x <;> rfl

theorem pair_bind {ε α β : Type} {s : List Char} (x : Except ε (Parsed α s))
    (f : α × List Char → Except ε β) :
    (x.map Parsed.pair >>= f) = x >>= fun p => f (p.value, p.rest) := by
  cases x <;> rfl

theorem pair_lift {ε α β : Type} {s t : List Char} (x : Except ε (Parsed α s)) (f : α → β)
    (h : s <:+ t) :
    (x >>= fun p => .ok (p.lift f h)).map Parsed.pair =
      x.map Parsed.pair >>= fun p => .ok (f p.1, p.2) := by
  cases x <;> rfl

theorem suffix_of_map_pair {ε α : Type} {s r : List Char} {x : Except ε (Parsed α s)} {a : α}
    (h : x.map Parsed.pair = .ok (a, r)) : r <:+ s := by
  cases x with
  | error e => cases h
  | ok p =>
    cases h
    exact p.suffix

end MessageFormat
