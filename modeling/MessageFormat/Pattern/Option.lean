import MessageFormat.Pattern.Argument

/-! The keys of a selection. The branches of a selection follow each other as a key and a pattern in
braces, and the closing brace of the argument ends them. A plural may have exact keys, an equality sign
and an integer. -/

namespace MessageFormat.Pattern

/-- A selection whose branches are being read. -/
structure Chooser where
  /-- The argument that is selected by. -/
  name : String
  /-- Whether the selection is a plural. -/
  plural : Bool
  /-- The text from the opening brace of the argument. -/
  start : List Char

/-- The key of a branch at the front of a text. -/
def selector (k : Chooser) (s : List Char) : Except Failure (String × List Char) :=
  match k.plural, s with
  | true, '=' :: r =>
    let number := Integer.scan r
    match Integer.read? number.1 with
    | none => fail (.invalidExactSelector (.ofList number.1)) s number.2
    | some _ => .ok (.ofList ('=' :: number.1), number.2)
  | _, _ =>
    if leadingName s = "" then fail (.selectorExpected k.name) s s
    else .ok (leadingName s, s.dropWhile isNameChar)

/-- The next key of a selection, with the opening brace of its branch, or nothing at the closing brace
of the argument. `seen` are the keys before it. -/
def optionHead (d : Dialect) (k : Chooser) (seen : List String) (s : List Char) :
    Except Failure (Option String × List Char) :=
  match skipWhiteSpace s with
  | [] => fail (.unterminatedOptions k.name) k.start []
  | '\x7d' :: r =>
    if seen.isEmpty then fail (.optionsExpected k.name) k.start ('\x7d' :: r)
    else if d.requiresOther && !seen.contains otherKey then
      fail (.otherExpected k.name) k.start ('\x7d' :: r)
    else .ok (none, r)
  | t => do
    let (key, r) ← selector k t
    if seen.contains key then fail (.duplicateOption key k.name) t r
    else do
      let r ← expect '\x7b' .branchExpected t (skipWhiteSpace r)
      .ok (some key, r)

theorem suffix_of_selector {k : Chooser} {s r : List Char} {key : String}
    (h : selector k s = .ok (key, r)) : r <:+ s := by
  unfold selector at h
  split at h
  · dsimp only at h
    split at h
    · cases h
    · cases h
      exact .trans ⟨_, Integer.scan_append _⟩ (List.suffix_cons _ _)
  · split at h
    · cases h
    · cases h
      exact List.dropWhile_suffix _

/-- A key or the closing brace takes at least one character away. -/
theorem cons_suffix_of_optionHead {d : Dialect} {k : Chooser} {seen : List String}
    {s r : List Char} {key? : Option String} (h : optionHead d k seen s = .ok (key?, r)) :
    ∃ c, c :: r <:+ s := by
  have hs := skipWhiteSpace_suffix s
  unfold optionHead at h
  split at h
  · cases h
  · rename_i t ht
    rw [ht] at hs
    split at h
    · cases h
    · split at h
      · cases h
      · cases h
        exact ⟨_, hs⟩
  · cases hk : selector k (skipWhiteSpace s) with
    | error f => simp [hk, bind, Except.bind] at h
    | ok v =>
      obtain ⟨key, u⟩ := v
      simp only [hk, bind, Except.bind] at h
      split at h
      · cases h
      · split at h
        · cases h
        · rename_i w hw
          cases h
          refine ⟨'\x7b', .trans ?_ hs⟩
          rw [← eq_cons_of_expect hw]
          exact (skipWhiteSpace_suffix _).trans (suffix_of_selector hk)

theorem suffix_of_optionHead {d : Dialect} {k : Chooser} {seen : List String} {s r : List Char}
    {key? : Option String} (h : optionHead d k seen s = .ok (key?, r)) : r <:+ s :=
  have ⟨_, hs⟩ := cons_suffix_of_optionHead h
  (List.suffix_cons _ _).trans hs

theorem length_lt_of_optionHead {d : Dialect} {k : Chooser} {seen : List String} {s r : List Char}
    {key? : Option String} (h : optionHead d k seen s = .ok (key?, r)) : r.length < s.length :=
  have ⟨_, hs⟩ := cons_suffix_of_optionHead h
  hs.length_le

end MessageFormat.Pattern
