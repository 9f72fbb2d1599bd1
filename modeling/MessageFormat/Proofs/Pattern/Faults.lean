import MessageFormat.Proofs.Pattern.Derivation

/-! Where a pattern is refused. A reader that fails names two places of the text: where the fault begins and
where the reader stood when it gave up. The second is never before the first, nor before the place where the
reader set out; and neither lies outside the text. -/

namespace MessageFormat.Pattern

/-- A fault of a reader that was given the text `s`, inside of something that begins where `start` is left:
the fault begins no earlier than that, and ends neither before it begins nor before `s`. -/
structure Failure.Within (f : Failure) (start s : List Char) : Prop where
  start_suffix : f.start <:+ start
  stop_suffix_start : f.stop <:+ f.start
  stop_suffix : f.stop <:+ s

namespace Failure.Within

variable {f : Failure} {start start' s s' : List Char}

theorem mono (h : f.Within start s) (hstart : start <:+ start') (hs : s <:+ s') : f.Within start' s' :=
  ⟨h.start_suffix.trans hstart, h.stop_suffix_start, h.stop_suffix.trans hs⟩

/-- A fault that begins with what the reader is inside of. -/
theorem of_fail {α : Type} {cause : Cause} {stop : List Char} (hs : s <:+ start) (hstop : stop <:+ s)
    (h : (fail cause start stop : Except Failure α) = .error f) : f.Within start s := by
  cases h
  exact ⟨List.suffix_refl _, hstop.trans hs, hstop⟩

/-- A fault that begins where the reader was. -/
theorem of_fail_here {α : Type} {cause : Cause} {stop : List Char} (hs : s <:+ start) (hstop : stop <:+ s)
    (h : (fail cause s stop : Except Failure α) = .error f) : f.Within start s :=
  (of_fail (List.suffix_refl s) hstop h).mono hs (List.suffix_refl s)

end Failure.Within

/-- A computation of two steps fails when one of them does. -/
theorem bind_eq_error {ε α β : Type} {x : Except ε α} {f : α → Except ε β} {e : ε} :
    (x >>= f) = .error e ↔ x = .error e ∨ ∃ a, x = .ok a ∧ f a = .error e := by
  cases x with
  | error e' => simp [bind, Except.bind]
  | ok a => simp [bind, Except.bind]

section Parts

variable {f : Failure} {start s : List Char}

theorem within_of_expect {c : Char} {cause : Cause} (hs : s <:+ start)
    (h : expect c cause start s = .error f) : f.Within start s := by
  unfold expect at h
  split at h
  · exact .of_fail hs (List.suffix_refl _) h
  · split at h
    · cases h
    · exact .of_fail hs (List.suffix_refl _) h

theorem within_of_style (hs : s <:+ start) (h : style start s = .error f) : f.Within start s := by
  unfold style at h
  split at h
  · cases h
  · rcases bind_eq_error.mp h with hcomma | ⟨t, ht, h⟩
    · exact within_of_expect hs hcomma
    · have hrest : t.dropWhile isStyleChar <:+ s := (List.dropWhile_suffix _).trans (suffix_of_expect ht)
      dsimp only at h
      split at h
      · exact .of_fail hs hrest h
      · rcases bind_eq_error.mp h with hbrace | ⟨u, -, h⟩
        · exact (within_of_expect (hrest.trans hs) hbrace).mono (List.suffix_refl _) hrest
        · cases h

theorem within_of_offset (h : offset s = .error f) : f.Within s s := by
  unfold offset at h
  split at h
  · dsimp only at h
    split at h
    · refine .of_fail (List.suffix_refl s) ?_ h
      refine .trans ⟨_, Integer.scan_append _⟩ ?_
      exact (skipWhiteSpace_suffix _).trans (List.drop_suffix _ _)
    · cases h
  · cases h

theorem within_of_headOfType {name : String} {type : ArgumentType} (hs : s <:+ start)
    (h : headOfType start name type s = .error f) : f.Within start s := by
  cases type with
  | number | date | time =>
      rcases bind_eq_error.mp h with hstyle | ⟨v, -, h⟩
      · exact within_of_style hs hstyle
      · cases h
  | select =>
      rcases bind_eq_error.mp h with hcomma | ⟨v, -, h⟩
      · exact within_of_expect hs hcomma
      · cases h
  | plural kind =>
      rcases bind_eq_error.mp h with hcomma | ⟨t, ht, h⟩
      · exact within_of_expect hs hcomma
      · have hrest : skipWhiteSpace t <:+ s := (skipWhiteSpace_suffix t).trans (suffix_of_expect ht)
        rcases bind_eq_error.mp h with hoffset | ⟨v, -, h⟩
        · exact (within_of_offset hoffset).mono (hrest.trans hs) hrest
        · cases h

theorem within_of_headOfName {name : String} (hs : s <:+ start)
    (h : headOfName start name s = .error f) : f.Within start s := by
  unfold headOfName at h
  split at h
  · cases h
  · rcases bind_eq_error.mp h with hcomma | ⟨t, ht, h⟩
    · exact within_of_expect hs hcomma
    · have hrest : skipWhiteSpace t <:+ s := (skipWhiteSpace_suffix t).trans (suffix_of_expect ht)
      have hafter := afterName_suffix (skipWhiteSpace t)
      dsimp only at h
      split at h
      · exact (Failure.Within.of_fail (List.suffix_refl _) hafter h).mono (hrest.trans hs) hrest
      · exact (within_of_headOfType (hafter.trans (hrest.trans hs)) h).mono (List.suffix_refl _)
          (hafter.trans hrest)

theorem within_of_argumentHead (h : argumentHead s = .error f) : f.Within ('\x7b' :: s) s := by
  have hstart : s <:+ '\x7b' :: s := List.suffix_cons _ _
  have hs := skipWhiteSpace_suffix s
  unfold argumentHead at h
  dsimp only at h
  split at h
  · exact .of_fail hstart (List.nil_suffix) h
  · rename_i r hr
    rw [hr] at hs
    exact .of_fail hstart ((List.suffix_cons _ _).trans hs) h
  · split at h
    · exact .of_fail hstart hs h
    · have hafter := (afterName_suffix (skipWhiteSpace s)).trans hs
      exact (within_of_headOfName (hafter.trans hstart) h).mono (List.suffix_refl _) hafter

theorem within_of_tagHead (h : tagHead s = .error f) : f.Within ('<' :: s) s := by
  have hs : skipWhiteSpace (afterTagName s) <:+ s :=
    (skipWhiteSpace_suffix _).trans (List.dropWhile_suffix _)
  unfold tagHead at h
  split at h
  · cases h
  · cases h
  · exact .of_fail (List.suffix_cons _ _) hs h

theorem within_of_closingTag {name : String} (hs : s <:+ start)
    (h : closingTag start name s = .error f) : f.Within start s := by
  unfold closingTag at h
  split at h
  · rename_i r
    have hafter : afterTagName r <:+ '<' :: '/' :: r :=
      (List.dropWhile_suffix _).trans ((List.suffix_cons _ _).trans (List.suffix_cons _ _))
    split at h
    · have hrest := (skipWhiteSpace_suffix (afterTagName r)).trans hafter
      exact (within_of_expect hrest h).mono hs hrest
    · exact .of_fail_here hs hafter h
  · exact .of_fail hs (List.suffix_refl _) h

theorem within_of_selector {k : Chooser} (h : selector k s = .error f) : f.Within s s := by
  unfold selector at h
  split at h
  · dsimp only at h
    split at h
    · exact .of_fail (List.suffix_refl _) (.trans ⟨_, Integer.scan_append _⟩ (List.suffix_cons _ _)) h
    · cases h
  · split at h
    · exact .of_fail (List.suffix_refl _) (List.suffix_refl _) h
    · cases h

theorem within_of_optionHead {d : Dialect} {k : Chooser} {seen : List String} (hs : s <:+ k.start)
    (h : optionHead d k seen s = .error f) : f.Within k.start s := by
  have hskip := skipWhiteSpace_suffix s
  unfold optionHead at h
  split at h
  · exact .of_fail hs (List.nil_suffix) h
  · rename_i r hr
    rw [hr] at hskip
    split at h
    · exact .of_fail hs hskip h
    · split at h
      · exact .of_fail hs hskip h
      · cases h
  · rcases bind_eq_error.mp h with hselector | ⟨⟨key, r⟩, hr, h⟩
    · exact (within_of_selector hselector).mono (hskip.trans hs) hskip
    · have hrest := suffix_of_selector hr
      dsimp only at h
      split at h
      · exact (Failure.Within.of_fail (List.suffix_refl _) hrest h).mono (hskip.trans hs) hskip
      · rcases bind_eq_error.mp h with hbrace | ⟨t, -, h⟩
        · have hbefore := (skipWhiteSpace_suffix r).trans hrest
          exact (within_of_expect hbefore hbrace).mono (hskip.trans hs) (hbefore.trans hskip)
        · cases h

/-- What is left behind a key has the opening brace of its branch before it. -/
theorem brace_suffix_of_optionHead {d : Dialect} {k : Chooser} {seen : List String} {key : String}
    {r : List Char} (h : optionHead d k seen s = .ok (some key, r)) : '\x7b' :: r <:+ s := by
  unfold optionHead at h
  split at h
  · cases h
  · split at h
    · cases h
    · split at h
      · cases h
      · cases h
  · obtain ⟨⟨key, t⟩, hkey, h⟩ := bind_eq_ok.mp h
    dsimp only at h
    split at h
    · cases h
    · obtain ⟨u, hu, h⟩ := bind_eq_ok.mp h
      cases h
      have hbefore := (skipWhiteSpace_suffix t).trans (suffix_of_selector hkey)
      rw [eq_cons_of_expect hu] at hbefore
      exact hbefore.trans (skipWhiteSpace_suffix s)

theorem within_strayClosingTag (s : List Char) : (strayClosingTag s).Within ('<' :: s) ('<' :: s) := by
  have hafter : afterTagName (s.drop 1) <:+ '<' :: s :=
    (List.dropWhile_suffix _).trans ((List.drop_suffix 1 s).trans (List.suffix_cons _ _))
  exact ⟨List.suffix_refl _, hafter, hafter⟩

end Parts

/-! ### Whole patterns -/

section Leads

variable {d : Dialect} {σ : Scope} {c : Char} {next? : Option Char}

theorem eq_brace_of_lead (h : lead d σ c next? = .argument) : c = '\x7b' := by
  unfold lead at h
  grind

theorem eq_less_of_lead_openingTag (h : lead d σ c next? = .openingTag) : c = '<' := by
  unfold lead at h
  grind

theorem eq_less_of_lead_strayClosingTag (h : lead d σ c next? = .strayClosingTag) : c = '<' := by
  unfold lead at h
  grind

theorem exists_slash_of_lead {s : List Char} (h : lead d σ c s.head? = .strayClosingTag) :
    ∃ t, s = '/' :: t := by
  apply List.head?_eq_some_iff.mp
  unfold lead at h
  grind

end Leads

mutual

theorem within_of_readElements {d : Dialect} {σ : Scope} {s : List Char} {f : Failure}
    (h : readElements d σ s = .error f) : f.Within s s := by
  match s with
  | [] =>
      rw [readElements_nil] at h
      cases h
  | c :: s =>
      have hcons : s <:+ c :: s := List.suffix_cons c s
      cases hlead : lead d σ c s.head? with
      | stop =>
          rw [readElements_stop hlead] at h
          cases h
      | strayClosingTag =>
          rw [readElements_strayClosingTag hlead] at h
          cases h
          obtain rfl := eq_less_of_lead_strayClosingTag hlead
          exact within_strayClosingTag s
      | text =>
          rw [readElements_text hlead] at h
          have hs := literalText_cons_suffix hlead
          rcases bind_eq_error.mp h with htail | ⟨tail, -, h⟩
          · exact (within_of_readElements htail).mono (hs.trans hcons) (hs.trans hcons)
          · cases h
      | pound =>
          rw [readElements_pound hlead] at h
          rcases bind_eq_error.mp h with htail | ⟨tail, -, h⟩
          · exact (within_of_readElements htail).mono hcons hcons
          · cases h
      | argument =>
          rw [readElements_argument hlead] at h
          obtain rfl := eq_brace_of_lead hlead
          rcases bind_eq_error.mp h with hhead | ⟨⟨head, s₁⟩, hhead, h⟩
          · exact (within_of_argumentHead hhead).mono (List.suffix_refl _) hcons
          have hs₁ := suffix_of_argumentHead hhead
          have hle₁ := hs₁.trans hcons
          cases head with
          | whole e =>
              rcases bind_eq_error.mp h with htail | ⟨tail, -, h⟩
              · exact (within_of_readElements htail).mono hle₁ hle₁
              · cases h
          | select name | plural name kind n =>
              rcases bind_eq_error.mp h with hos | ⟨⟨os, s₂⟩, hos, h⟩
              · exact (within_of_readOptions hle₁ hos).mono (List.suffix_refl _) hle₁
              have hs₂ := (suffix_of_readOptions hos).trans hs₁
              rcases bind_eq_error.mp h with htail | ⟨tail, -, h⟩
              · exact (within_of_readElements htail).mono (hs₂.trans hcons) (hs₂.trans hcons)
              · cases h
      | openingTag =>
          rw [readElements_openingTag hlead] at h
          obtain rfl := eq_less_of_lead_openingTag hlead
          rcases bind_eq_error.mp h with hhead | ⟨⟨head, s₁⟩, hhead, h⟩
          · exact (within_of_tagHead hhead).mono (List.suffix_refl _) hcons
          have hs₁ := suffix_of_tagHead hhead
          have hle₁ := hs₁.trans hcons
          cases head with
          | selfClosing name =>
              rcases bind_eq_error.mp h with htail | ⟨tail, -, h⟩
              · exact (within_of_readElements htail).mono hle₁ hle₁
              · cases h
          | opening name =>
              rcases bind_eq_error.mp h with hinside | ⟨⟨children, s₂⟩, hinside, h⟩
              · exact (within_of_readElements hinside).mono hle₁ hle₁
              have hs₂ := (suffix_of_readElements hinside).trans hs₁
              have hle₂ := hs₂.trans hcons
              rcases bind_eq_error.mp h with hclose | ⟨s₃, hclose, h⟩
              · exact (within_of_closingTag hle₂ hclose).mono (List.suffix_refl _) hle₂
              have hs₃ := (suffix_of_closingTag hclose).trans hs₂
              rcases bind_eq_error.mp h with htail | ⟨tail, -, h⟩
              · exact (within_of_readElements htail).mono (hs₃.trans hcons) (hs₃.trans hcons)
              · cases h
termination_by s.length
decreasing_by
  all_goals
    simp only [List.length_cons, Nat.lt_succ_iff]
    first
      | exact Nat.le_refl _
      | exact hs.length_le
      | exact hs₃.length_le
      | exact hs₂.length_le
      | exact hs₁.length_le

theorem within_of_readOptions {d : Dialect} {k : Chooser} {seen : List String} {s : List Char} {f : Failure}
    (hs : s <:+ k.start) (h : readOptions d k seen s = .error f) : f.Within k.start s := by
  rw [readOptions_eq] at h
  rcases bind_eq_error.mp h with hhead | ⟨⟨key?, s₁⟩, hhead, h⟩
  · exact within_of_optionHead hs hhead
  have hs₁ := suffix_of_optionHead hhead
  cases key? with
  | none => cases h
  | some key =>
      have hlt := length_lt_of_optionHead hhead
      rcases bind_eq_error.mp h with hbody | ⟨⟨es, s₂⟩, hbody, h⟩
      · exact (within_of_readElements hbody).mono (hs₁.trans hs) hs₁
      have hs₂ := suffix_of_readElements hbody
      rcases bind_eq_error.mp h with hclose | ⟨s₃, hclose, h⟩
      · have hbrace : '\x7b' :: s₁ <:+ s := brace_suffix_of_optionHead hhead
        have hle := hs₂.trans (List.suffix_cons '\x7b' s₁)
        exact (within_of_expect hle hclose).mono (hbrace.trans hs) (hle.trans hbrace)
      have hs₃ := (suffix_of_expect hclose).trans hs₂
      rcases bind_eq_error.mp h with htail | ⟨tail, -, h⟩
      · exact (within_of_readOptions ((hs₃.trans hs₁).trans hs) htail).mono (List.suffix_refl _)
          (hs₃.trans hs₁)
      · cases h
termination_by s.length
decreasing_by
  · exact hlt
  · exact Nat.lt_of_le_of_lt hs₃.length_le hlt

end

end MessageFormat.Pattern
