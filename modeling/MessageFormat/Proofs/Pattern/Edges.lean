import MessageFormat.Proofs.Pattern.Progress

/-! What stands around a fault. Every fault of the reader arises in a part that is read in one go: the head of
an argument or of a tag, a closing tag, a key, or the brace that ends a branch. White space is skipped before
such a part is looked at, and no such part ends in the middle of white space. A fault therefore never begins
with white space, and where it ends there is no white space on one of the two sides. -/

namespace MessageFormat.Pattern

/-- The loop over elements may be left here: nothing follows, or what is open around the place ends. -/
def Ended (d : Dialect) (σ : Scope) (r : List Char) : Prop :=
  ∀ c t, r = c :: t → lead d σ c t.head? = .stop

/-- The parts in which a fault can arise. The text is what was left where the part begins. -/
inductive Arises (d : Dialect) (f : Failure) : List Char → Prop
  | argument {s : List Char} (head : argumentHead s = .error f) : Arises d f ('\x7b' :: s)
  | openingTag {s : List Char} (head : tagHead s = .error f) : Arises d f ('<' :: s)
  | strayClosingTag {s : List Char} (fault : strayClosingTag ('/' :: s) = f) : Arises d f ('<' :: '/' :: s)
  | closingTag {σ : Scope} {name : String} {s r : List Char} (ended : Ended d σ r)
      (tag : closingTag ('<' :: s) name r = .error f) : Arises d f r
  | option {k : Chooser} {seen : List String} {s t : List Char} (start : k.start = '\x7b' :: t)
      (head : optionHead d k seen s = .error f) : Arises d f s
  | branchEnd {σ : Scope} {s r : List Char} (ended : Ended d σ r)
      (brace : expect '\x7d' .branchEndExpected ('\x7b' :: s) r = .error f) : Arises d f r

/-- A fault that arises somewhere in a text. -/
def ArisesIn (d : Dialect) (f : Failure) (s : List Char) : Prop :=
  ∃ t, t <:+ s ∧ Arises d f t

theorem Arises.arisesIn {d : Dialect} {f : Failure} {s t : List Char} (h : Arises d f t) (ht : t <:+ s) :
    ArisesIn d f s :=
  ⟨t, ht, h⟩

theorem ArisesIn.mono {d : Dialect} {f : Failure} {s s' : List Char} (h : ArisesIn d f s) (hs : s <:+ s') :
    ArisesIn d f s' := by
  obtain ⟨t, ht, harises⟩ := h
  exact harises.arisesIn (ht.trans hs)

theorem ended_of_readElements {d : Dialect} {σ : Scope} {s r : List Char} {es : List Element}
    (h : readElements d σ s = .ok (es, r)) : Ended d σ r :=
  (reads_of_readElements h).ends

mutual

theorem arisesIn_of_readElements {d : Dialect} {σ : Scope} {s : List Char} {f : Failure}
    (h : readElements d σ s = .error f) : ArisesIn d f s := by
  match s with
  | [] =>
      rw [readElements_nil] at h
      cases h
  | c :: s =>
      have hcons : s <:+ c :: s := List.suffix_cons c s
      cases hlead : lead d σ c s.head? with
      | stop =>
          rw [readElements_stop hlead] at h
          cases h
      | strayClosingTag =>
          rw [readElements_strayClosingTag hlead] at h
          obtain rfl := eq_less_of_lead_strayClosingTag hlead
          obtain ⟨t, rfl⟩ := exists_slash_of_lead hlead
          exact (Arises.strayClosingTag (Except.error.inj h)).arisesIn (List.suffix_refl _)
      | text =>
          rw [readElements_text hlead] at h
          have hs := literalText_cons_suffix hlead
          rcases bind_eq_error.mp h with htail | ⟨tail, -, h⟩
          · exact (arisesIn_of_readElements htail).mono (hs.trans hcons)
          · cases h
      | pound =>
          rw [readElements_pound hlead] at h
          rcases bind_eq_error.mp h with htail | ⟨tail, -, h⟩
          · exact (arisesIn_of_readElements htail).mono hcons
          · cases h
      | argument =>
          rw [readElements_argument hlead] at h
          obtain rfl := eq_brace_of_lead hlead
          rcases bind_eq_error.mp h with hhead | ⟨⟨head, s₁⟩, hhead, h⟩
          · exact (Arises.argument hhead).arisesIn (List.suffix_refl _)
          have hs₁ := suffix_of_argumentHead hhead
          have hle₁ := hs₁.trans hcons
          cases head with
          | whole e =>
              rcases bind_eq_error.mp h with htail | ⟨tail, -, h⟩
              · exact (arisesIn_of_readElements htail).mono hle₁
              · cases h
          | select name | plural name kind n =>
              rcases bind_eq_error.mp h with hos | ⟨⟨os, s₂⟩, hos, h⟩
              · exact (arisesIn_of_readOptions rfl hos).mono hle₁
              have hs₂ := (suffix_of_readOptions hos).trans hs₁
              rcases bind_eq_error.mp h with htail | ⟨tail, -, h⟩
              · exact (arisesIn_of_readElements htail).mono (hs₂.trans hcons)
              · cases h
      | openingTag =>
          rw [readElements_openingTag hlead] at h
          obtain rfl := eq_less_of_lead_openingTag hlead
          rcases bind_eq_error.mp h with hhead | ⟨⟨head, s₁⟩, hhead, h⟩
          · exact (Arises.openingTag hhead).arisesIn (List.suffix_refl _)
          have hs₁ := suffix_of_tagHead hhead
          have hle₁ := hs₁.trans hcons
          cases head with
          | selfClosing name =>
              rcases bind_eq_error.mp h with htail | ⟨tail, -, h⟩
              · exact (arisesIn_of_readElements htail).mono hle₁
              · cases h
          | opening name =>
              rcases bind_eq_error.mp h with hinside | ⟨⟨children, s₂⟩, hinside, h⟩
              · exact (arisesIn_of_readElements hinside).mono hle₁
              have hs₂ := (suffix_of_readElements hinside).trans hs₁
              rcases bind_eq_error.mp h with hclose | ⟨s₃, hclose, h⟩
              · exact (Arises.closingTag (ended_of_readElements hinside) hclose).arisesIn (hs₂.trans hcons)
              have hs₃ := (suffix_of_closingTag hclose).trans hs₂
              rcases bind_eq_error.mp h with htail | ⟨tail, -, h⟩
              · exact (arisesIn_of_readElements htail).mono (hs₃.trans hcons)
              · cases h
termination_by s.length
decreasing_by
  all_goals
    simp only [List.length_cons, Nat.lt_succ_iff]
    first
      | exact Nat.le_refl _
      | exact hs.length_le
      | exact hs₃.length_le
      | exact hs₂.length_le
      | exact hs₁.length_le

theorem arisesIn_of_readOptions {d : Dialect} {k : Chooser} {seen : List String} {s t : List Char}
    {f : Failure} (hstart : k.start = '\x7b' :: t) (h : readOptions d k seen s = .error f) :
    ArisesIn d f s := by
  rw [readOptions_eq] at h
  rcases bind_eq_error.mp h with hhead | ⟨⟨key?, s₁⟩, hhead, h⟩
  · exact (Arises.option hstart hhead).arisesIn (List.suffix_refl _)
  have hs₁ := suffix_of_optionHead hhead
  cases key? with
  | none => cases h
  | some key =>
      have hlt := length_lt_of_optionHead hhead
      rcases bind_eq_error.mp h with hbody | ⟨⟨es, s₂⟩, hbody, h⟩
      · exact (arisesIn_of_readElements hbody).mono hs₁
      have hs₂ := suffix_of_readElements hbody
      rcases bind_eq_error.mp h with hclose | ⟨s₃, hclose, h⟩
      · exact (Arises.branchEnd (ended_of_readElements hbody) hclose).arisesIn (hs₂.trans hs₁)
      have hs₃ := (suffix_of_expect hclose).trans hs₂
      rcases bind_eq_error.mp h with htail | ⟨tail, -, h⟩
      · exact (arisesIn_of_readOptions hstart htail).mono (hs₃.trans hs₁)
      · cases h
termination_by s.length
decreasing_by
  · exact hlt
  · exact Nat.lt_of_le_of_lt hs₃.length_le hlt

end

/-! ### Edges of white space -/

/-- A place of the text `s`, where `r` is left, that does not lie in the middle of white space. -/
def AtEdge (s r : List Char) : Prop :=
  Stops isWhiteSpace r ∨ ∃ c, isWhiteSpace c = false ∧ c :: r <:+ s

namespace AtEdge

variable {s s' r : List Char} {p : Char → Bool}

theorem mono (h : AtEdge s r) (hs : s <:+ s') : AtEdge s' r := by
  rcases h with hstops | ⟨c, hc, hsuffix⟩
  · exact Or.inl hstops
  · exact Or.inr ⟨c, hc, hsuffix.trans hs⟩

theorem behind {c : Char} (hc : isWhiteSpace c = false) (h : c :: r <:+ s) : AtEdge s r :=
  Or.inr ⟨c, hc, h⟩

/-- A run of a class without white space does not lead away from the edges of white space. -/
theorem dropWhile (hp : ∀ c, p c → isWhiteSpace c = false) (h : AtEdge s r) (hr : r <:+ s) :
    AtEdge s (r.dropWhile p) := by
  induction r with
  | nil => exact h
  | cons c r ih =>
      by_cases hc : p c
      · rw [List.dropWhile_cons_of_pos hc]
        exact ih (behind (hp c hc) hr) ((List.suffix_cons c r).trans hr)
      · rw [List.dropWhile_cons_of_neg hc]
        exact h

theorem scan (h : AtEdge s r) (hr : r <:+ s) : AtEdge s (Integer.scan r).2 := by
  have hdigit : ∀ c : Char, c.isDigit → isWhiteSpace c = false := by
    intro c hc
    by_contra hspace
    rw [isDigit_of_isWhiteSpace (Bool.not_eq_false _ ▸ hspace)] at hc
    cases hc
  unfold Integer.scan
  split
  · exact dropWhile hdigit (behind rfl hr) ((List.suffix_cons _ _).trans hr)
  · exact dropWhile hdigit (behind rfl hr) ((List.suffix_cons _ _).trans hr)
  · exact dropWhile hdigit h hr

end AtEdge

/-- A fault of a reader that was given the text `s`, which does not begin with white space and does not end
in the middle of white space. -/
structure Failure.Tight (f : Failure) (s : List Char) : Prop where
  start_stops : Stops isWhiteSpace f.start
  stop_atEdge : AtEdge s f.stop

namespace Failure.Tight

variable {f : Failure} {s s' start stop : List Char}

theorem mono (h : f.Tight s) (hs : s <:+ s') : f.Tight s' :=
  ⟨h.start_stops, h.stop_atEdge.mono hs⟩

theorem of_fail {α : Type} {cause : Cause} (hstart : Stops isWhiteSpace start) (hstop : AtEdge s stop)
    (h : (fail cause start stop : Except Failure α) = .error f) : f.Tight s := by
  cases h
  exact ⟨hstart, hstop⟩

end Failure.Tight

section Parts

variable {f : Failure} {start s r : List Char}

theorem stops_skipWhiteSpace (s : List Char) : Stops isWhiteSpace (skipWhiteSpace s) :=
  stops_dropWhile s

/-- A style ends at a brace or with the text. -/
theorem stops_of_stops_isStyleChar (h : Stops isStyleChar s) : Stops isWhiteSpace s := by
  intro c hc
  have hbrace := h c hc
  simp only [isStyleChar, Bool.and_eq_false_iff, bne_eq_false_iff_eq] at hbrace
  rcases hbrace with rfl | rfl <;> rfl

/-- What is open around a place ends with a brace or with a tag. -/
theorem Ended.stops {d : Dialect} {σ : Scope} (h : Ended d σ s) : Stops isWhiteSpace s := by
  cases s with
  | nil => exact stops_nil
  | cons c s =>
      have hlead := h c s rfl
      rw [stops_cons]
      by_contra hspace
      have hne : ∀ x, isWhiteSpace x = false → c ≠ x :=
        fun x hx => ne_of_isWhiteSpace (Bool.not_eq_false _ ▸ hspace) hx
      simp [lead, hne '\x7b' rfl, hne '\x7d' rfl, hne '#' rfl, hne '<' rfl] at hlead

theorem tight_of_expect {c : Char} {cause : Cause} (hstart : Stops isWhiteSpace start)
    (hs : Stops isWhiteSpace s) (h : expect c cause start s = .error f) : f.Tight s := by
  unfold expect at h
  split at h
  · exact .of_fail hstart (Or.inl hs) h
  · split at h
    · cases h
    · exact .of_fail hstart (Or.inl hs) h

theorem tight_of_style (hstart : Stops isWhiteSpace start) (hs : Stops isWhiteSpace s)
    (h : style start s = .error f) : f.Tight s := by
  unfold style at h
  split at h
  · cases h
  · rcases bind_eq_error.mp h with hcomma | ⟨t, ht, h⟩
    · exact tight_of_expect hstart hs hcomma
    · have hrest : t.dropWhile isStyleChar <:+ s := (List.dropWhile_suffix _).trans (suffix_of_expect ht)
      have hstops := stops_of_stops_isStyleChar (stops_dropWhile t)
      dsimp only at h
      split at h
      · exact .of_fail hstart (Or.inl hstops) h
      · rcases bind_eq_error.mp h with hbrace | ⟨u, -, h⟩
        · exact (tight_of_expect hstart hstops hbrace).mono hrest
        · cases h

theorem tight_of_offset (hs : Stops isWhiteSpace s) (h : offset s = .error f) : f.Tight s := by
  unfold offset at h
  split at h
  · dsimp only at h
    split at h
    · have hnumber : skipWhiteSpace (s.drop offsetKeyword.length) <:+ s :=
        (skipWhiteSpace_suffix _).trans (List.drop_suffix _ _)
      exact .of_fail hs (AtEdge.scan (Or.inl (stops_skipWhiteSpace _)) hnumber) h
    · cases h
  · cases h

theorem tight_of_headOfType {name : String} {type : ArgumentType} (hstart : Stops isWhiteSpace start)
    (hs : Stops isWhiteSpace s) (h : headOfType start name type s = .error f) : f.Tight s := by
  cases type with
  | number | date | time =>
      rcases bind_eq_error.mp h with hstyle | ⟨v, -, h⟩
      · exact tight_of_style hstart hs hstyle
      · cases h
  | select =>
      rcases bind_eq_error.mp h with hcomma | ⟨v, -, h⟩
      · exact tight_of_expect hstart hs hcomma
      · cases h
  | plural kind =>
      rcases bind_eq_error.mp h with hcomma | ⟨t, ht, h⟩
      · exact tight_of_expect hstart hs hcomma
      · rcases bind_eq_error.mp h with hoffset | ⟨v, -, h⟩
        · exact (tight_of_offset (stops_skipWhiteSpace t) hoffset).mono
            ((skipWhiteSpace_suffix t).trans (suffix_of_expect ht))
        · cases h

theorem tight_of_headOfName {name : String} (hstart : Stops isWhiteSpace start)
    (hs : Stops isWhiteSpace s) (h : headOfName start name s = .error f) : f.Tight s := by
  unfold headOfName at h
  split at h
  · cases h
  · rcases bind_eq_error.mp h with hcomma | ⟨t, ht, h⟩
    · exact tight_of_expect hstart hs hcomma
    · have hstops := stops_skipWhiteSpace t
      have hafter : Stops isWhiteSpace (afterName (skipWhiteSpace t)) := stops_skipWhiteSpace _
      have hrest := (afterName_suffix (skipWhiteSpace t)).trans
        ((skipWhiteSpace_suffix t).trans (suffix_of_expect ht))
      dsimp only at h
      split at h
      · exact .of_fail hstops (Or.inl hafter) h
      · exact (tight_of_headOfType hstart hafter h).mono hrest

theorem tight_of_argumentHead (h : argumentHead s = .error f) : f.Tight s := by
  have hstart : Stops isWhiteSpace ('\x7b' :: s) := stops_cons.mpr rfl
  have hstops := stops_skipWhiteSpace s
  have hs := skipWhiteSpace_suffix s
  unfold argumentHead at h
  dsimp only at h
  split at h
  · exact .of_fail hstart (Or.inl stops_nil) h
  · rename_i r hr
    rw [hr] at hs
    exact .of_fail hstart (.behind rfl hs) h
  · split at h
    · exact .of_fail hstart (Or.inl hstops) h
    · exact (tight_of_headOfName hstart (stops_skipWhiteSpace _) h).mono ((afterName_suffix _).trans hs)

theorem tight_of_tagHead (h : tagHead s = .error f) : f.Tight s := by
  unfold tagHead at h
  split at h
  · cases h
  · cases h
  · exact .of_fail (stops_cons.mpr rfl) (Or.inl (stops_skipWhiteSpace _)) h

theorem tight_of_closingTag {name : String} (hstart : Stops isWhiteSpace start) (hs : Stops isWhiteSpace s)
    (h : closingTag start name s = .error f) : f.Tight s := by
  unfold closingTag at h
  split at h
  · rename_i r
    have hr : '/' :: r <:+ '<' :: '/' :: r := List.suffix_cons _ _
    have hrest : r <:+ '<' :: '/' :: r := (List.suffix_cons _ _).trans hr
    split at h
    · exact (tight_of_expect hs (stops_skipWhiteSpace _) h).mono
        ((skipWhiteSpace_suffix _).trans ((List.dropWhile_suffix _).trans hrest))
    · exact .of_fail hs
        (AtEdge.dropWhile (fun _ => isWhiteSpace_of_isTagNameChar) (.behind rfl hr) hrest) h
  · exact .of_fail hstart (Or.inl hs) h

theorem tight_strayClosingTag (s : List Char) : (strayClosingTag ('/' :: s)).Tight ('<' :: '/' :: s) := by
  have hs : '/' :: s <:+ '<' :: '/' :: s := List.suffix_cons _ _
  exact ⟨stops_cons.mpr rfl, AtEdge.dropWhile (fun _ => isWhiteSpace_of_isTagNameChar) (.behind rfl hs)
    ((List.suffix_cons _ _).trans hs)⟩

theorem tight_of_selector {k : Chooser} (hs : Stops isWhiteSpace s) (h : selector k s = .error f) :
    f.Tight s := by
  unfold selector at h
  split at h
  · dsimp only at h
    split at h
    · exact .of_fail hs (AtEdge.scan (.behind rfl (List.suffix_refl _)) (List.suffix_cons _ _)) h
    · cases h
  · split at h
    · exact .of_fail hs (Or.inl hs) h
    · cases h

theorem atEdge_of_selector {k : Chooser} {key : String} (hs : Stops isWhiteSpace s)
    (h : selector k s = .ok (key, r)) : AtEdge s r := by
  unfold selector at h
  split at h
  · dsimp only at h
    split at h
    · cases h
    · cases h
      exact AtEdge.scan (.behind rfl (List.suffix_refl _)) (List.suffix_cons _ _)
  · split at h
    · cases h
    · cases h
      exact AtEdge.dropWhile (fun _ => isWhiteSpace_of_isNameChar) (Or.inl hs) (List.suffix_refl _)

theorem tight_of_optionHead {d : Dialect} {k : Chooser} {seen : List String}
    (hstart : Stops isWhiteSpace k.start) (h : optionHead d k seen s = .error f) : f.Tight s := by
  have hstops := stops_skipWhiteSpace s
  have hskip := skipWhiteSpace_suffix s
  unfold optionHead at h
  split at h
  · exact .of_fail hstart (Or.inl stops_nil) h
  · have hbrace : ∀ r, Stops isWhiteSpace ('\x7d' :: r) := fun r => stops_cons.mpr rfl
    split at h
    · exact .of_fail hstart (Or.inl (hbrace _)) h
    · split at h
      · exact .of_fail hstart (Or.inl (hbrace _)) h
      · cases h
  · rcases bind_eq_error.mp h with hselector | ⟨⟨key, r⟩, hr, h⟩
    · exact (tight_of_selector hstops hselector).mono hskip
    · dsimp only at h
      split at h
      · exact .of_fail hstops ((atEdge_of_selector hstops hr).mono hskip) h
      · rcases bind_eq_error.mp h with hbrace | ⟨t, -, h⟩
        · exact (tight_of_expect hstops (stops_skipWhiteSpace r) hbrace).mono
            ((skipWhiteSpace_suffix r).trans ((suffix_of_selector hr).trans hskip))
        · cases h

end Parts

theorem Arises.tight {d : Dialect} {f : Failure} {s : List Char} (h : Arises d f s) : f.Tight s := by
  cases h with
  | argument head => exact (tight_of_argumentHead head).mono (List.suffix_cons _ _)
  | openingTag head => exact (tight_of_tagHead head).mono (List.suffix_cons _ _)
  | strayClosingTag fault => exact fault ▸ tight_strayClosingTag _
  | closingTag ended tag => exact tight_of_closingTag (stops_cons.mpr rfl) ended.stops tag
  | option start head => exact tight_of_optionHead (start ▸ stops_cons.mpr rfl) head
  | branchEnd ended brace => exact tight_of_expect (stops_cons.mpr rfl) ended.stops brace

/-- Where the reader of a text gives up there is no white space on one of the two sides, and the fault does
not begin with white space. -/
theorem tight_of_readElements {d : Dialect} {σ : Scope} {s : List Char} {f : Failure}
    (h : readElements d σ s = .error f) : f.Tight s := by
  obtain ⟨t, ht, harises⟩ := arisesIn_of_readElements h
  exact harises.tight.mono ht

end MessageFormat.Pattern
