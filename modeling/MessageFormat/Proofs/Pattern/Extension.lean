import MessageFormat.Proofs.Pattern.Foresight
import MessageFormat.Proofs.Pattern.Progress
import MessageFormat.Proofs.Pattern.WellFormed

/-! A pattern that goes on. What has been read of a pattern up to some place is read in the same way if more text
is put behind the pattern, and what is left there has the new text behind it. Where two characters are left this
is a matter of foresight. A thing that ends with a bracket of its own does not need them, because the reader does
not look beyond that bracket. -/

namespace MessageFormat.Pattern

section Runs

variable {p : Char → Bool} {s : List Char}

theorem dropWhile_extend (h : s.dropWhile p ≠ []) (t : List Char) :
    (s ++ t).dropWhile p = s.dropWhile p ++ t := by
  rw [List.dropWhile_append, if_neg (by simpa using h)]

theorem takeWhile_extend (h : s.dropWhile p ≠ []) (t : List Char) :
    (s ++ t).takeWhile p = s.takeWhile p := by
  rw [List.takeWhile_append, if_neg]
  intro hlength
  have hsplit := congrArg List.length (List.takeWhile_append_dropWhile (p := p) (l := s))
  rw [List.length_append, hlength] at hsplit
  exact h (List.eq_nil_of_length_eq_zero (by omega))

theorem skipWhiteSpace_extend (h : skipWhiteSpace s ≠ []) (t : List Char) :
    skipWhiteSpace (s ++ t) = skipWhiteSpace s ++ t :=
  dropWhile_extend h t

theorem ne_nil_of_skipWhiteSpace (h : skipWhiteSpace s ≠ []) : s ≠ [] := by
  rintro rfl
  exact h rfl

theorem name_extend (h : afterName s ≠ []) (t : List Char) :
    leadingName (s ++ t) = leadingName s ∧ afterName (s ++ t) = afterName s ++ t := by
  have hname := ne_nil_of_skipWhiteSpace h
  rw [leadingName, takeWhile_extend hname, afterName, dropWhile_extend hname, skipWhiteSpace_extend h]
  exact ⟨rfl, rfl⟩

theorem tagName_extend (h : skipWhiteSpace (afterTagName s) ≠ []) (t : List Char) :
    tagName (s ++ t) = tagName s ∧
      skipWhiteSpace (afterTagName (s ++ t)) = skipWhiteSpace (afterTagName s) ++ t := by
  have hname := ne_nil_of_skipWhiteSpace h
  rw [tagName, takeWhile_extend hname, afterTagName, dropWhile_extend hname]
  exact ⟨rfl, skipWhiteSpace_extend h t⟩

end Runs

section Brackets

variable {start s r : List Char}

theorem styleText_extend {text? : Option String} (h : styleText start s = .ok (text?, r)) (start' t : List Char) :
    styleText start' (s ++ t) = .ok (text?, r ++ t) := by
  unfold styleText at h
  dsimp only at h
  split at h
  · cases h
  · rename_i hne
    obtain ⟨u, hu, h⟩ := bind_eq_ok.mp h
    cases h
    have hdrop := eq_cons_of_expect hu
    have hrest : s.dropWhile isStyleChar ≠ [] := by
      rw [hdrop]
      exact List.cons_ne_nil _ _
    unfold styleText
    dsimp only
    rw [takeWhile_extend hrest, dropWhile_extend hrest, if_neg hne, hdrop, List.cons_append, expect_cons]
    rfl

theorem style_extend {text? : Option String} (h : style start s = .ok (text?, r)) (start' t : List Char) :
    style start' (s ++ t) = .ok (text?, r ++ t) := by
  by_cases hbrace : s.head? = some '\x7d'
  · obtain ⟨u, rfl⟩ := List.head?_eq_some_iff.mp hbrace
    cases h
    rfl
  · rw [style_of_head?_ne start hbrace] at h
    obtain ⟨u, hu, h⟩ := bind_eq_ok.mp h
    obtain rfl := eq_cons_of_expect hu
    rw [style_of_head?_ne start' (by simp), List.cons_append, expect_cons]
    exact styleText_extend h start' t

theorem ne_nil_of_style {text? : Option String} (h : style start s = .ok (text?, r)) : s ≠ [] := by
  rintro rfl
  cases h

theorem headOfType_whole_extend {name : String} {type : ArgumentType} {e : Element}
    (h : headOfType start name type s = .ok (.whole e, r)) (start' t : List Char) :
    s ≠ [] ∧ headOfType start' name type (s ++ t) = .ok (.whole e, r ++ t) := by
  cases type with
  | number | date | time =>
      obtain ⟨⟨text?, u⟩, hstyle, h⟩ := bind_eq_ok.mp h
      cases h
      exact ⟨ne_nil_of_style hstyle, bind_eq_ok.mpr ⟨_, style_extend hstyle start' t, rfl⟩⟩
  | select =>
      obtain ⟨u, -, h⟩ := bind_eq_ok.mp h
      cases h
  | plural kind =>
      obtain ⟨u, -, h⟩ := bind_eq_ok.mp h
      obtain ⟨n, -, h⟩ := bind_eq_ok.mp h
      cases h

theorem typeHead_whole_extend {name : String} {e : Element} (h : typeHead start name s = .ok (.whole e, r))
    (start' t : List Char) : s ≠ [] ∧ typeHead start' name (s ++ t) = .ok (.whole e, r ++ t) := by
  unfold typeHead at h
  split at h
  · cases h
  · rename_i type htype
    obtain ⟨hafter, htail⟩ := headOfType_whole_extend h start' t
    obtain ⟨hname, hrest⟩ := name_extend hafter t
    refine ⟨fun hs => hafter (by rw [hs]; rfl), ?_⟩
    unfold typeHead
    rw [hname, hrest, htype]
    exact htail

theorem headOfName_whole_extend {name : String} {e : Element} (h : headOfName start name s = .ok (.whole e, r))
    (start' t : List Char) : s ≠ [] ∧ headOfName start' name (s ++ t) = .ok (.whole e, r ++ t) := by
  by_cases hbrace : s.head? = some '\x7d'
  · obtain ⟨u, rfl⟩ := List.head?_eq_some_iff.mp hbrace
    cases h
    exact ⟨List.cons_ne_nil _ _, rfl⟩
  · rw [headOfName_of_head?_ne start name hbrace] at h
    obtain ⟨u, hu, h⟩ := bind_eq_ok.mp h
    obtain rfl := eq_cons_of_expect hu
    obtain ⟨hskip, htail⟩ := typeHead_whole_extend h start' t
    refine ⟨List.cons_ne_nil _ _, ?_⟩
    rw [headOfName_of_head?_ne start' name (by simp), List.cons_append, expect_cons]
    show typeHead start' name (skipWhiteSpace (u ++ t)) = _
    rw [skipWhiteSpace_extend hskip, htail]

theorem argumentAt_whole_extend {e : Element} (h : argumentAt start s = .ok (.whole e, r)) (start' t : List Char) :
    s ≠ [] ∧ argumentAt start' (s ++ t) = .ok (.whole e, r ++ t) := by
  unfold argumentAt at h
  split at h
  · cases h
  · cases h
  · rename_i hnil hbrace
    split at h
    · cases h
    · rename_i hname
      obtain ⟨hafter, htail⟩ := headOfName_whole_extend h start' t
      obtain ⟨hsame, hrest⟩ := name_extend hafter t
      refine ⟨hnil, ?_⟩
      obtain ⟨c, u, rfl⟩ := List.exists_cons_of_ne_nil hnil
      unfold argumentAt
      split
      · rename_i heq
        cases heq
      · rename_i heq
        exact absurd (congrArg (· :: u) (List.cons.inj heq).1) (hbrace u)
      · rw [hsame, hrest, if_neg hname, htail]

/-- An argument without branches is read to its closing brace and no further. -/
theorem argumentHead_whole_extend {e : Element} (h : argumentHead s = .ok (.whole e, r)) (t : List Char) :
    argumentHead (s ++ t) = .ok (.whole e, r ++ t) := by
  rw [argumentHead_eq] at h ⊢
  obtain ⟨hskip, htail⟩ := argumentAt_whole_extend h ('\x7b' :: (s ++ t)) t
  rw [skipWhiteSpace_extend hskip, htail]

theorem tagHead_extend {head : TagHead} (h : tagHead s = .ok (head, r)) (t : List Char) :
    tagHead (s ++ t) = .ok (head, r ++ t) := by
  have hne : skipWhiteSpace (afterTagName s) ≠ [] := by
    intro hnil
    rw [tagHead_eq, hnil] at h
    cases h
  obtain ⟨hname, hrest⟩ := tagName_extend hne t
  rw [tagHead_eq] at h ⊢
  rw [hname, hrest]
  unfold tagEnd at h
  split at h
  · rename_i u hu
    cases h
    rw [hu]
    rfl
  · rename_i u hu
    cases h
    rw [hu]
    rfl
  · cases h

theorem closingTag_extend {name : String} (h : closingTag start name s = .ok r) (start' t : List Char) :
    closingTag start' name (s ++ t) = .ok (r ++ t) := by
  unfold closingTag at h
  split at h
  · rename_i u
    split at h
    · rename_i hname
      have hrest := eq_cons_of_expect h
      have hne : skipWhiteSpace (afterTagName u) ≠ [] := by
        rw [hrest]
        exact List.cons_ne_nil _ _
      obtain ⟨hsame, hextend⟩ := tagName_extend hne t
      show closingName ('<' :: '/' :: (u ++ t)) name (u ++ t) = _
      rw [closingName, hsame, if_pos hname, hextend, hrest, List.cons_append, expect_cons]
    · cases h
  · cases h

theorem two_le_length_of_closingTag {name : String} (h : closingTag start name s = .ok r) : 2 ≤ s.length := by
  unfold closingTag at h
  split at h
  · exact Nat.le_add_left 2 _
  · cases h

/-- Behind the last branch the closing brace of the argument ends the reading. -/
theorem optionHead_done_extend {d : Dialect} {name : String} {plural : Bool} {seen : List String}
    (h : optionHead d ⟨name, plural, start⟩ seen s = .ok (none, r)) (start' t : List Char) :
    optionHead d ⟨name, plural, start'⟩ seen (s ++ t) = .ok (none, r ++ t) := by
  rw [optionHead_eq] at h ⊢
  unfold optionAt at h
  split at h
  · cases h
  · rename_i u hu
    have hne : skipWhiteSpace s ≠ [] := by
      rw [hu]
      exact List.cons_ne_nil _ _
    rw [skipWhiteSpace_extend hne, hu]
    split at h
    · cases h
    · rename_i hseen
      split at h
      · cases h
      · rename_i hother
        cases h
        exact (if_neg hseen).trans (if_neg hother)
  · obtain ⟨key, -, h⟩ := bind_eq_ok.mp h
    unfold branchStart at h
    split at h
    · cases h
    · obtain ⟨u, -, h⟩ := bind_eq_ok.mp h
      cases h

end Brackets

/-! ### Readers with characters left -/

/-- A text of which at least two characters are left, and the same text with more behind it. -/
def forkBefore (r t : List Char) (h : 2 ≤ r.length) : Fork where
  one := r
  other := r ++ t
  alike := (List.take_append_of_le_length h).symm

section Left

variable {s r t : List Char} {h : 2 ≤ r.length}

theorem twin_forkBefore (hs : r <:+ s) : (forkBefore r t h).Twin s (s ++ t) := by
  obtain ⟨read, rfl⟩ := hs
  exact ⟨read, rfl, List.append_assoc _ _ _⟩

theorem eq_append_of_twin {r' : List Char} (htwin : (forkBefore r t h).Twin s r') : r' = s ++ t := by
  obtain ⟨read, rfl, rfl⟩ := htwin
  exact (List.append_assoc _ _ _).symm

/-- A reader that leaves two characters does the same when the text goes on. -/
theorem ok_extend {α : Type} (left : α × List Char → List Char) {a : α} {u : List Char}
    {x x' : Except Failure (α × List Char)}
    (hmirrors : ∀ h, Mirrors (forkBefore (left (a, u)) t h) left (TwinResult (forkBefore (left (a, u)) t h)) x x')
    (hx : x = .ok (a, u)) (hleft : 2 ≤ (left (a, u)).length) : x' = .ok (a, u ++ t) := by
  obtain ⟨p', hx', hp'⟩ := (hmirrors hleft).ok _ hx (List.suffix_refl _)
  obtain ⟨u', rfl, htwin⟩ := hp'.exists_rest
  rw [hx', eq_append_of_twin htwin]

theorem readElements_extend {d : Dialect} {σ : Scope} {es : List Element} (hread : readElements d σ s = .ok (es, r))
    (hr : 2 ≤ r.length) (t : List Char) : readElements d σ (s ++ t) = .ok (es, r ++ t) :=
  have hs := suffix_of_readElements hread
  ok_extend Prod.snd (fun _ => mirrors_readElements d σ fun _ => twin_forkBefore hs) hread hr

theorem optionHead_extend {d : Dialect} {name : String} {plural : Bool} {seen : List String} {key? : Option String}
    {start : List Char} (hhead : optionHead d ⟨name, plural, start⟩ seen s = .ok (key?, r)) (hle : s <:+ start)
    (hr : 2 ≤ r.length) (t : List Char) :
    optionHead d ⟨name, plural, start ++ t⟩ seen (s ++ t) = .ok (key?, r ++ t) := by
  have hs := suffix_of_optionHead hhead
  refine ok_extend Prod.snd (fun _ => ?_) hhead hr
  exact mirrors_optionHead d name plural seen (twin_forkBefore (hs.trans hle)) fun _ => twin_forkBefore hs

theorem argumentHead_extend {head : Head} (hhead : argumentHead s = .ok (head, r))
    (hr : 2 ≤ (Head.settled (head, r)).length) (t : List Char) :
    argumentHead (s ++ t) = .ok (head, r ++ t) := by
  have hs := (Head.settled_suffix (head, r)).trans (suffix_of_argumentHead hhead)
  exact ok_extend Head.settled (fun _ => mirrors_argumentHead fun _ => twin_forkBefore hs) hhead hr

end Left

section Branches

variable {d : Dialect} {name : String} {plural : Bool} {start : List Char}

theorem ReadsOptions.ne_nil {k : Chooser} {seen : List String} {s r : List Char} {os : Options}
    (h : ReadsOptions d k seen s os r) : s ≠ [] := by
  rintro rfl
  cases h with
  | done head | branch head => cases head

/-- The closing brace of a branch is not the last character of a selection. -/
theorem two_le_length_of_body {k : Chooser} {seen : List String} {s r : List Char} {os : Options}
    (h : ReadsOptions d k seen s os r) : 2 ≤ ('\x7d' :: s).length := by
  have hpos := List.length_pos_of_ne_nil h.ne_nil
  rw [List.length_cons]
  omega

theorem ReadsOptions.extend (t : List Char) {seen : List String} {s r : List Char} {os : Options} (hle : s <:+ start) :
    ReadsOptions d ⟨name, plural, start⟩ seen s os r →
      ReadsOptions d ⟨name, plural, start ++ t⟩ seen (s ++ t) os (r ++ t)
  | .done head => .done (optionHead_done_extend head _ t)
  | .branch head body tail => by
      have htwo := two_le_length_of_body tail
      have hbody := suffix_of_readElements body.readElements
      have hs₁ := (suffix_of_optionHead head).trans hle
      have hs₂ := (List.suffix_cons _ _).trans (hbody.trans hs₁)
      refine .branch (optionHead_extend head hle (htwo.trans hbody.length_le) t) ?_ (tail.extend t hs₂)
      exact reads_of_readElements (readElements_extend body.readElements htwo t)

/-- Behind the name in front of its branches a selection has at least two characters. -/
theorem two_le_length_behindName {k : Chooser} {s r : List Char} {os : Options} :
    ReadsOptions d k [] s os r → 2 ≤ (s.dropWhile isNameChar).length
  | .done head => absurd rfl (optionHead_none head).1
  | .branch head body tail => by
      have hbehind : _ <:+ s.dropWhile isNameChar := (endsIn_optionHead d k [] s).ok _ head
      have hbody := suffix_of_readElements body.readElements
      exact (two_le_length_of_body tail).trans ((hbody.trans hbehind).length_le)

end Branches

section Rounds

variable {d : Dialect} {σ : Scope} {c : Char} {s : List Char}

/-- Only a less sign at the end of the text can come to mean something else. -/
theorem lead_extend (h : lead d σ c s.head? ≠ .text ∨ c ≠ '<' ∨ s ≠ []) (t : List Char) :
    lead d σ c (s ++ t).head? = lead d σ c s.head? := by
  cases s with
  | nil =>
      unfold lead at h ⊢
      grind
  | cons x s => rfl

/-- A round that reads no literal text reads the same when the text goes on. -/
theorem elementRound_extend {item : Item} {r : List Char} (hlead : lead d σ c s.head? ≠ .text)
    (h : (reader d).elementRound d σ (c :: s) = .ok (some (item, r))) (t : List Char) :
    (reader d).elementRound d σ (c :: (s ++ t)) = .ok (some (item, r ++ t)) := by
  dsimp only [Readers.elementRound, reader] at h ⊢
  rw [lead_extend (Or.inl hlead) t]
  cases hcase : lead d σ c s.head? with
  | stop =>
      rw [hcase] at h
      cases h
  | strayClosingTag =>
      rw [hcase] at h
      cases h
  | text => exact absurd hcase hlead
  | pound =>
      rw [hcase] at h
      cases h
      rfl
  | argument =>
      rw [hcase] at h
      obtain ⟨⟨head, s₁⟩, hhead, h⟩ := bind_eq_ok.mp h
      cases head with
      | whole e =>
          cases h
          exact bind_eq_ok.mpr ⟨_, argumentHead_whole_extend hhead t, rfl⟩
      | select name | plural name kind n =>
          obtain ⟨⟨os, s₂⟩, hos, h⟩ := bind_eq_ok.mp h
          cases h
          have hbranches := reads_of_readOptions hos
          have hle := (suffix_of_argumentHead hhead).trans (List.suffix_cons c s)
          refine bind_eq_ok.mpr ⟨_, argumentHead_extend hhead (two_le_length_behindName hbranches) t, ?_⟩
          exact bind_eq_ok.mpr ⟨_, (hbranches.extend t hle).readOptions, rfl⟩
  | openingTag =>
      rw [hcase] at h
      obtain ⟨⟨head, s₁⟩, hhead, h⟩ := bind_eq_ok.mp h
      refine bind_eq_ok.mpr ⟨_, tagHead_extend hhead t, ?_⟩
      cases head with
      | selfClosing name =>
          cases h
          rfl
      | opening name =>
          obtain ⟨⟨children, s₂⟩, hinside, h⟩ := bind_eq_ok.mp h
          obtain ⟨s₃, hclose, h⟩ := bind_eq_ok.mp h
          cases h
          have htwo : 2 ≤ s₂.length := two_le_length_of_closingTag hclose
          refine bind_eq_ok.mpr ⟨_, readElements_extend hinside htwo t, ?_⟩
          exact bind_eq_ok.mpr ⟨_, closingTag_extend hclose _ t, rfl⟩

end Rounds

end MessageFormat.Pattern
