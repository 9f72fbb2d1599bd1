import MessageFormat.Pattern.Reading

/-! How a pattern was read, as a derivation. A derivation has one rule for each thing that can begin at a
place of a pattern, and the reader accepts a text exactly when there is one, with the elements and the
rest that the derivation gives. What every accepted pattern has in common is proved by induction on
derivations, and a pattern is shown to be accepted by building one. -/

namespace MessageFormat.Pattern

theorem expect_cons (c : Char) (cause : Cause) (start s : List Char) :
    expect c cause start (c :: s) = .ok s := by
  simp [expect]

mutual

/-- The elements are read off the front of the first text, and the second text is left. -/
inductive Reads (d : Dialect) : Scope → List Char → List Element → List Char → Prop
  | nil {σ : Scope} : Reads d σ [] [] []
  | stop {σ : Scope} {c : Char} {s : List Char} (lead : lead d σ c s.head? = .stop) :
      Reads d σ (c :: s) [] (c :: s)
  | text {σ : Scope} {c : Char} {s r : List Char} {es : List Element}
      (lead : lead d σ c s.head? = .text) (tail : Reads d σ (literalText d σ false (c :: s)).2 es r) :
      Reads d σ (c :: s) (consLiteral (.ofList (literalText d σ false (c :: s)).1) es) r
  | pound {σ : Scope} {c : Char} {s r : List Char} {es : List Element}
      (lead : lead d σ c s.head? = .pound) (tail : Reads d σ s es r) :
      Reads d σ (c :: s) (.pound :: es) r
  | whole {σ : Scope} {c : Char} {s s₁ r : List Char} {e : Element} {es : List Element}
      (lead : lead d σ c s.head? = .argument) (head : argumentHead s = .ok (.whole e, s₁))
      (tail : Reads d σ s₁ es r) : Reads d σ (c :: s) (e :: es) r
  | select {σ : Scope} {c : Char} {s s₁ s₂ r : List Char} {name : String} {os : Options}
      {es : List Element} (lead : lead d σ c s.head? = .argument)
      (head : argumentHead s = .ok (.select name, s₁))
      (branches : ReadsOptions d ⟨name, false, c :: s⟩ [] s₁ os s₂) (tail : Reads d σ s₂ es r) :
      Reads d σ (c :: s) (.select name os :: es) r
  | plural {σ : Scope} {c : Char} {s s₁ s₂ r : List Char} {name : String} {kind : PluralKind}
      {n : Int64} {os : Options} {es : List Element} (lead : lead d σ c s.head? = .argument)
      (head : argumentHead s = .ok (.plural name kind n, s₁))
      (branches : ReadsOptions d ⟨name, true, c :: s⟩ [] s₁ os s₂) (tail : Reads d σ s₂ es r) :
      Reads d σ (c :: s) (.plural name kind n os :: es) r
  | selfClosing {σ : Scope} {c : Char} {s s₁ r : List Char} {name : String} {es : List Element}
      (lead : lead d σ c s.head? = .openingTag) (head : tagHead s = .ok (.selfClosing name, s₁))
      (tail : Reads d σ s₁ es r) : Reads d σ (c :: s) (consLiteral ("<" ++ name ++ "/>") es) r
  | tag {σ : Scope} {c : Char} {s s₁ s₂ s₃ r : List Char} {name : String}
      {children es : List Element} (lead : lead d σ c s.head? = .openingTag)
      (head : tagHead s = .ok (.opening name, s₁)) (inside : Reads d σ.tag s₁ children s₂)
      (close : closingTag (c :: s) name s₂ = .ok s₃) (tail : Reads d σ s₃ es r) :
      Reads d σ (c :: s) (.tag name children :: es) r

/-- The branches are read off the front of the first text, and the second text is left. -/
inductive ReadsOptions (d : Dialect) :
    Chooser → List String → List Char → Options → List Char → Prop
  | done {k : Chooser} {seen : List String} {s r : List Char}
      (head : optionHead d k seen s = .ok (none, r)) : ReadsOptions d k seen s [] r
  | branch {k : Chooser} {seen : List String} {s s₁ s₂ r : List Char} {key : String}
      {es : List Element} {os : Options} (head : optionHead d k seen s = .ok (some key, s₁))
      (body : Reads d (.branch k.plural) s₁ es ('\x7d' :: s₂))
      (tail : ReadsOptions d k (key :: seen) s₂ os r) : ReadsOptions d k seen s ((key, es) :: os) r

end

/-- The rule for literal text, with the text and what follows it by name. -/
theorem Reads.literal {d : Dialect} {σ : Scope} {c : Char} {s s₁ r text : List Char}
    {es es' : List Element} (hlead : lead d σ c s.head? = .text)
    (htext : literalText d σ false (c :: s) = (text, s₁)) (tail : Reads d σ s₁ es r)
    (hes : consLiteral (.ofList text) es = es') : Reads d σ (c :: s) es' r := by
  obtain rfl : (literalText d σ false (c :: s)).1 = text := by rw [htext]
  obtain rfl : (literalText d σ false (c :: s)).2 = s₁ := by rw [htext]
  exact hes ▸ .text hlead tail

mutual

theorem Reads.readElements {d : Dialect} {σ : Scope} {s r : List Char} {es : List Element} :
    Reads d σ s es r → readElements d σ s = .ok (es, r)
  | .nil => readElements_nil
  | .stop hlead => readElements_stop hlead
  | .text hlead tail => by
      rw [readElements_text hlead, tail.readElements]
      rfl
  | .pound hlead tail => by
      rw [readElements_pound hlead, tail.readElements]
      rfl
  | .whole hlead head tail => by
      rw [readElements_argument hlead, head]
      simp only [bind, Except.bind, tail.readElements]
  | .select hlead head branches tail => by
      rw [readElements_argument hlead, head]
      simp only [bind, Except.bind, branches.readOptions, tail.readElements]
  | .plural hlead head branches tail => by
      rw [readElements_argument hlead, head]
      simp only [bind, Except.bind, branches.readOptions, tail.readElements]
  | .selfClosing hlead head tail => by
      rw [readElements_openingTag hlead, head]
      simp only [bind, Except.bind, tail.readElements]
  | .tag hlead head inside close tail => by
      rw [readElements_openingTag hlead, head]
      simp only [bind, Except.bind, inside.readElements, close, tail.readElements]

theorem ReadsOptions.readOptions {d : Dialect} {k : Chooser} {seen : List String} {s r : List Char}
    {os : Options} : ReadsOptions d k seen s os r → readOptions d k seen s = .ok (os, r)
  | .done head => by
      rw [readOptions_eq, head]
      rfl
  | .branch head body tail => by
      rw [readOptions_eq, head]
      simp only [bind, Except.bind, body.readElements, expect_cons, tail.readOptions]

end

/-! ### Every accepted text has a derivation -/

theorem suffix_of_readElements {d : Dialect} {σ : Scope} {s r : List Char} {es : List Element}
    (h : readElements d σ s = .ok (es, r)) : r <:+ s :=
  suffix_of_map_pair h

theorem suffix_of_readOptions {d : Dialect} {k : Chooser} {seen : List String} {s r : List Char}
    {os : Options} (h : readOptions d k seen s = .ok (os, r)) : r <:+ s :=
  suffix_of_map_pair h

mutual

theorem reads_of_readElements {d : Dialect} {σ : Scope} {s r : List Char} {es : List Element}
    (h : readElements d σ s = .ok (es, r)) : Reads d σ s es r := by
  match s with
  | [] =>
      rw [readElements_nil] at h
      cases h
      exact .nil
  | c :: s =>
      cases hlead : lead d σ c s.head? with
      | stop =>
          rw [readElements_stop hlead] at h
          cases h
          exact .stop hlead
      | strayClosingTag =>
          rw [readElements_strayClosingTag hlead] at h
          cases h
      | text =>
          rw [readElements_text hlead] at h
          obtain ⟨⟨es, r⟩, htail, h⟩ := bind_eq_ok.mp h
          cases h
          have hs := literalText_cons_suffix hlead
          exact .text hlead (reads_of_readElements htail)
      | pound =>
          rw [readElements_pound hlead] at h
          obtain ⟨⟨es, r⟩, htail, h⟩ := bind_eq_ok.mp h
          cases h
          exact .pound hlead (reads_of_readElements htail)
      | argument =>
          rw [readElements_argument hlead] at h
          obtain ⟨⟨head, s₁⟩, hhead, h⟩ := bind_eq_ok.mp h
          have hs₁ := suffix_of_argumentHead hhead
          cases head with
          | whole e =>
              obtain ⟨⟨es, r⟩, htail, h⟩ := bind_eq_ok.mp h
              cases h
              exact .whole hlead hhead (reads_of_readElements htail)
          | select name =>
              obtain ⟨⟨os, s₂⟩, hos, h⟩ := bind_eq_ok.mp h
              obtain ⟨⟨es, r⟩, htail, h⟩ := bind_eq_ok.mp h
              cases h
              have hs₂ := (suffix_of_readOptions hos).trans hs₁
              exact .select hlead hhead (reads_of_readOptions hos) (reads_of_readElements htail)
          | plural name kind n =>
              obtain ⟨⟨os, s₂⟩, hos, h⟩ := bind_eq_ok.mp h
              obtain ⟨⟨es, r⟩, htail, h⟩ := bind_eq_ok.mp h
              cases h
              have hs₂ := (suffix_of_readOptions hos).trans hs₁
              exact .plural hlead hhead (reads_of_readOptions hos) (reads_of_readElements htail)
      | openingTag =>
          rw [readElements_openingTag hlead] at h
          obtain ⟨⟨head, s₁⟩, hhead, h⟩ := bind_eq_ok.mp h
          have hs₁ := suffix_of_tagHead hhead
          cases head with
          | selfClosing name =>
              obtain ⟨⟨es, r⟩, htail, h⟩ := bind_eq_ok.mp h
              cases h
              exact .selfClosing hlead hhead (reads_of_readElements htail)
          | opening name =>
              obtain ⟨⟨children, s₂⟩, hinside, h⟩ := bind_eq_ok.mp h
              obtain ⟨s₃, hclose, h⟩ := bind_eq_ok.mp h
              obtain ⟨⟨es, r⟩, htail, h⟩ := bind_eq_ok.mp h
              cases h
              have hs₂ := (suffix_of_readElements hinside).trans hs₁
              have hs₃ := (suffix_of_closingTag hclose).trans hs₂
              exact .tag hlead hhead (reads_of_readElements hinside) hclose
                (reads_of_readElements htail)
termination_by s.length
decreasing_by
  all_goals
    simp only [List.length_cons, Nat.lt_succ_iff]
    first
      | exact Nat.le_refl _
      | exact hs.length_le
      | exact hs₃.length_le
      | exact hs₂.length_le
      | exact hs₁.length_le

theorem reads_of_readOptions {d : Dialect} {k : Chooser} {seen : List String} {s r : List Char}
    {os : Options} (h : readOptions d k seen s = .ok (os, r)) : ReadsOptions d k seen s os r := by
  rw [readOptions_eq] at h
  obtain ⟨⟨key?, s₁⟩, hhead, h⟩ := bind_eq_ok.mp h
  cases key? with
  | none =>
      cases h
      exact .done hhead
  | some key =>
      obtain ⟨⟨es, s₂⟩, hbody, h⟩ := bind_eq_ok.mp h
      obtain ⟨s₃, hclose, h⟩ := bind_eq_ok.mp h
      obtain ⟨⟨os, r⟩, htail, h⟩ := bind_eq_ok.mp h
      cases h
      have hlt := length_lt_of_optionHead hhead
      obtain rfl := eq_cons_of_expect hclose
      have hle := (suffix_of_readElements hbody).length_le
      exact .branch hhead (reads_of_readElements hbody) (reads_of_readOptions htail)
termination_by s.length
decreasing_by
  · exact hlt
  · exact Nat.lt_of_lt_of_le (Nat.lt_succ_self _) (Nat.le_trans hle (Nat.le_of_lt hlt))

end

/-- The reader accepts a text exactly when there is a derivation, and gives what the derivation gives. -/
theorem readElements_eq_ok_iff {d : Dialect} {σ : Scope} {s r : List Char} {es : List Element} :
    readElements d σ s = .ok (es, r) ↔ Reads d σ s es r :=
  ⟨reads_of_readElements, Reads.readElements⟩

/-- A pattern is read as the elements that a derivation from its beginning gives. -/
theorem parse_eq_ok_of_reads {d : Dialect} {pattern : String} {es : List Element}
    {r : List Char} (h : Reads d .top pattern.toList es r) : parse d pattern = .ok es := by
  rw [parse_eq, h.readElements]

/-- A pattern that was read has a derivation from its beginning. -/
theorem reads_of_parse {d : Dialect} {pattern : String} {es : List Element}
    (h : parse d pattern = .ok es) : ∃ r, Reads d .top pattern.toList es r := by
  rw [parse_eq] at h
  split at h
  · cases h
  · rename_i p hp
    cases h
    exact ⟨p.2, reads_of_readElements hp⟩

end MessageFormat.Pattern
