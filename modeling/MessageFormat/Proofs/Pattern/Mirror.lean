import MessageFormat.Proofs.Pattern.Faults
import MessageFormat.Proofs.Text.Fork

/-! Readers on two texts that are the same up to a fork and in the two characters behind it. Where a reader
stands it looks at the next character and at the one after that, with one exception: it looks for the whole
word before the offset of a plural. If that word is not there, the reader goes on with a key, which ends where
the word would have to go on, so that this does not tell it more than two characters either. What a reader of a
part does before the fork it therefore does on both texts. -/

namespace MessageFormat.Pattern

section Relations

variable {α β : Type} {φ : Fork} {left : α → List Char} {left₂ : β → List Char}

/-- A reader that was given the text `s` ends in it. `left` is what a result leaves. -/
structure EndsIn (s : List Char) (left : α → List Char) (x : Except Failure α) : Prop where
  ok : ∀ a, x = .ok a → left a <:+ s
  error : ∀ f, x = .error f → f.stop <:+ s

namespace EndsIn

variable {s r : List Char} {x : Except Failure α} {g : α → Except Failure β}

theorem mono (h : EndsIn r left x) (hr : r <:+ s) : EndsIn s left x :=
  ⟨fun a ha => (h.ok a ha).trans hr, fun f hf => (h.error f hf).trans hr⟩

theorem of_ok {a : α} (h : left a <:+ s) : EndsIn s left (.ok a) := by
  constructor
  · rintro _ ⟨⟩
    exact h
  · rintro _ ⟨⟩

theorem of_fail {cause : Cause} {start stop : List Char} (h : stop <:+ s) :
    EndsIn s left (fail cause start stop) := by
  constructor
  · rintro _ ⟨⟩
  · rintro _ ⟨⟩
    exact h

theorem bind (h : EndsIn s left x) (hnext : ∀ a, x = .ok a → EndsIn (left a) left₂ (g a)) :
    EndsIn s left₂ (x >>= g) := by
  refine ⟨fun b hb => ?_, fun f hf => ?_⟩
  · obtain ⟨a, ha, hb⟩ := bind_eq_ok.mp hb
    exact ((hnext a ha).ok b hb).trans (h.ok a ha)
  · rcases bind_eq_error.mp hf with hf | ⟨a, ha, hf⟩
    · exact h.error f hf
    · exact ((hnext a ha).error f hf).trans (h.ok a ha)

theorem wrap {f : α → β} {x : Except Failure (α × List Char)} (h : EndsIn s Prod.snd x) :
    EndsIn s Prod.snd (x >>= fun p => .ok (f p.1, p.2)) :=
  h.bind fun _ _ => .of_ok (List.suffix_refl _)

end EndsIn

/-- The same fault in the two texts. -/
def TwinFailure (φ : Fork) (f f' : Failure) : Prop :=
  f'.cause = f.cause ∧ φ.Twin f.start f'.start ∧ φ.Twin f.stop f'.stop

/-- The same value, and the same place in the two texts. -/
def TwinResult (φ : Fork) (p p' : α × List Char) : Prop :=
  p'.1 = p.1 ∧ φ.Twin p.2 p'.2

theorem TwinResult.exists_rest {a : α} {r : List Char} {p' : α × List Char} (h : TwinResult φ (a, r) p') :
    ∃ r', p' = (a, r') ∧ φ.Twin r r' :=
  ⟨p'.2, Prod.ext h.1 rfl, h.2⟩

/-- What happens on the first text, if it happens before the fork, happens on the second text as well. -/
structure Mirrors (φ : Fork) (left : α → List Char) (R : α → α → Prop) (x x' : Except Failure α) : Prop where
  ok : ∀ a, x = .ok a → φ.Ahead (left a) → ∃ a', x' = .ok a' ∧ R a a'
  error : ∀ f, x = .error f → φ.Ahead f.stop → ∃ f', x' = .error f' ∧ TwinFailure φ f f'

namespace Mirrors

variable {R : α → α → Prop} {R₂ : β → β → Prop} {x x' : Except Failure α} {g g' : α → Except Failure β}

/-- What a reader does is only compared if the reader sets out before the fork. -/
theorem of_endsIn {s : List Char} (hends : EndsIn s left x) (h : φ.Ahead s → Mirrors φ left R x x') :
    Mirrors φ left R x x' :=
  ⟨fun a ha hahead => (h (hahead.mono (hends.ok a ha))).ok a ha hahead,
    fun f hf hahead => (h (hahead.mono (hends.error f hf))).error f hf hahead⟩

/-- Less is compared where a result counts as further on. -/
theorem of_left {left' : α → List Char} (h : Mirrors φ left R x x') (hleft : ∀ a, left' a <:+ left a) :
    Mirrors φ left' R x x' :=
  ⟨fun a ha hahead => h.ok a ha (hahead.mono (hleft a)), h.error⟩

theorem of_ok {a a' : α} (h : φ.Ahead (left a) → R a a') : Mirrors φ left R (.ok a) (.ok a') := by
  constructor
  · rintro _ ⟨⟩ hahead
    exact ⟨a', rfl, h hahead⟩
  · rintro _ ⟨⟩

theorem of_fail {cause cause' : Cause} {start start' stop stop' : List Char}
    (h : φ.Ahead stop → cause' = cause ∧ φ.Twin start start' ∧ φ.Twin stop stop') :
    Mirrors φ left R (fail cause start stop) (fail cause' start' stop') := by
  constructor
  · rintro _ ⟨⟩
  · rintro _ ⟨⟩ hahead
    exact ⟨_, rfl, h hahead⟩

theorem bind (h : Mirrors φ left R x x') (hends : ∀ a, x = .ok a → EndsIn (left a) left₂ (g a))
    (hnext : ∀ a a', x = .ok a → R a a' → Mirrors φ left₂ R₂ (g a) (g' a')) :
    Mirrors φ left₂ R₂ (x >>= g) (x' >>= g') := by
  refine ⟨fun b hb hahead => ?_, fun f hf hahead => ?_⟩
  · obtain ⟨a, ha, hb⟩ := bind_eq_ok.mp hb
    obtain ⟨a', ha', hR⟩ := h.ok a ha (hahead.mono ((hends a ha).ok b hb))
    obtain ⟨b', hb', hR₂⟩ := (hnext a a' ha hR).ok b hb hahead
    exact ⟨b', bind_eq_ok.mpr ⟨a', ha', hb'⟩, hR₂⟩
  · rcases bind_eq_error.mp hf with hf | ⟨a, ha, hf⟩
    · obtain ⟨f', hf', htwin⟩ := h.error f hf hahead
      exact ⟨f', bind_eq_error.mpr (Or.inl hf'), htwin⟩
    · obtain ⟨a', ha', hR⟩ := h.ok a ha (hahead.mono ((hends a ha).error f hf))
      obtain ⟨f', hf', htwin⟩ := (hnext a a' ha hR).error f hf hahead
      exact ⟨f', bind_eq_error.mpr (Or.inr ⟨a', ha', hf'⟩), htwin⟩

/-- What a reader gives may be built into something larger. -/
theorem wrap {f : α → β} {x x' : Except Failure (α × List Char)} (h : Mirrors φ Prod.snd (TwinResult φ) x x') :
    Mirrors φ Prod.snd (TwinResult φ) (x >>= fun p => .ok (f p.1, p.2)) (x' >>= fun p => .ok (f p.1, p.2)) := by
  apply h.bind
  · exact fun _ _ => .of_ok (List.suffix_refl _)
  · rintro ⟨a, r⟩ ⟨_, r'⟩ - ⟨rfl, hr⟩
    exact .of_ok fun _ => ⟨rfl, hr⟩

end Mirrors

end Relations

/-! ### Parts -/

section Parts

variable {φ : Fork} {start start' s s' : List Char}

theorem endsIn_expect (c : Char) (cause : Cause) (start s : List Char) :
    EndsIn s id (expect c cause start s) := by
  refine ⟨fun r hr => suffix_of_expect hr, fun f hf => ?_⟩
  unfold expect at hf
  split at hf
  · cases hf
    exact List.suffix_refl _
  · split at hf
    · cases hf
    · cases hf
      exact List.suffix_refl _

theorem mirrors_expect (c : Char) (cause : Cause) (hstart : φ.Twin start start')
    (hs : φ.Ahead s → φ.Twin s s') :
    Mirrors φ id φ.Twin (expect c cause start s) (expect c cause start' s') := by
  refine .of_endsIn (endsIn_expect c cause start s) fun hahead => ?_
  have htwin := hs hahead
  cases s with
  | nil =>
      obtain rfl := htwin.eq_nil
      exact .of_fail fun _ => ⟨rfl, hstart, htwin⟩
  | cons x s =>
      obtain ⟨r', rfl, -, hr'⟩ := htwin.exists_cons
      dsimp only [expect]
      split
      · exact .of_ok hr'
      · exact .of_fail fun _ => ⟨rfl, hstart, htwin⟩

theorem endsIn_style (hs : s <:+ start) : EndsIn s Prod.snd (style start s) :=
  ⟨fun _ h => suffix_of_style h, fun _ h => (within_of_style hs h).stop_suffix⟩

/-- The style behind its comma. -/
def styleText (start r : List Char) : Except Failure (Option String × List Char) :=
  let text := trim (r.takeWhile isStyleChar)
  if text.isEmpty then fail .styleExpected start (r.dropWhile isStyleChar)
  else expect '\x7d' .closingBraceExpected start (r.dropWhile isStyleChar) >>= fun rest =>
    .ok (some (.ofList text), rest)

theorem style_of_head?_ne (start : List Char) (h : s.head? ≠ some '\x7d') :
    style start s = expect ',' .separatorExpected start s >>= styleText start := by
  unfold style
  split
  · exact absurd rfl h
  · rfl

theorem endsIn_styleText (start s : List Char) :
    EndsIn (s.dropWhile isStyleChar) Prod.snd (styleText start s) := by
  unfold styleText
  dsimp only
  split
  · exact .of_fail (List.suffix_refl _)
  · exact (endsIn_expect _ _ _ _).bind fun _ _ => .of_ok (List.suffix_refl _)

theorem mirrors_styleText (hstart : φ.Twin start start') (hs : φ.Twin s s') :
    Mirrors φ Prod.snd (TwinResult φ) (styleText start s) (styleText start' s') := by
  refine .of_endsIn (endsIn_styleText start s) fun hrest => ?_
  obtain ⟨htake, hdrop⟩ := hs.dropWhile hrest
  unfold styleText
  rw [htake]
  dsimp only
  split
  · exact .of_fail fun _ => ⟨rfl, hstart, hdrop⟩
  · apply (mirrors_expect _ _ hstart fun _ => hdrop).bind
    · exact fun _ _ => .of_ok (List.suffix_refl _)
    · exact fun _ _ _ hrest => .of_ok fun _ => ⟨rfl, hrest⟩

theorem mirrors_style (hstart : φ.Twin start start') (hle : s <:+ start) (hs : φ.Ahead s → φ.Twin s s') :
    Mirrors φ Prod.snd (TwinResult φ) (style start s) (style start' s') := by
  refine .of_endsIn (endsIn_style hle) fun hahead => ?_
  have htwin := hs hahead
  by_cases hbrace : s.head? = some '\x7d'
  · obtain ⟨r, rfl⟩ := List.head?_eq_some_iff.mp hbrace
    obtain ⟨r', rfl, -, hr'⟩ := htwin.exists_cons
    exact .of_ok fun hrest => ⟨rfl, hr' hrest⟩
  · rw [style_of_head?_ne start hbrace, style_of_head?_ne start' (htwin.head?_eq ▸ hbrace)]
    apply (mirrors_expect _ _ hstart hs).bind
    · exact fun r _ => (endsIn_styleText start r).mono (List.dropWhile_suffix _)
    · exact fun r r' _ hr => mirrors_styleText hstart hr

theorem leadingName_eq_empty_iff : leadingName s = "" ↔ Stops isNameChar s := by
  rw [leadingName, String.ofList_eq_empty_iff, List.takeWhile_eq_nil_iff]
  cases s with
  | nil => simp
  | cons c s => simp

/-- The word before an offset is a name and a colon. -/
theorem offsetKeyword_prefix_iff :
    offsetKeyword.isPrefixOf s ↔
      s.takeWhile isNameChar = "offset".toList ∧ (s.dropWhile isNameChar).head? = some ':' := by
  rw [List.isPrefixOf_iff_prefix]
  constructor
  · rintro ⟨r, rfl⟩
    exact ⟨rfl, rfl⟩
  · rintro ⟨htake, hdrop⟩
    obtain ⟨r, hr⟩ := List.head?_eq_some_iff.mp hdrop
    refine ⟨r, ?_⟩
    rw [← List.takeWhile_append_dropWhile (p := isNameChar) (l := s), htake, hr]
    rfl

/-- The text behind the name at the front of what a result leaves. -/
def behindName {α : Type} (p : α × List Char) : List Char :=
  p.2.dropWhile isNameChar

theorem behindName_suffix {α : Type} (p : α × List Char) : behindName p <:+ p.2 :=
  List.dropWhile_suffix _

/-- The number behind the word before an offset. -/
def offsetNumber (start s : List Char) : Except Failure (Int64 × List Char) :=
  let number := Integer.scan (skipWhiteSpace s)
  match Integer.read? number.1 with
  | none => fail (.invalidOffset (.ofList number.1)) start number.2
  | some n => .ok (n, skipWhiteSpace number.2)

theorem offset_keyword_append (r : List Char) :
    offset (offsetKeyword ++ r) = offsetNumber (offsetKeyword ++ r) r := by
  have hprefix : offsetKeyword.isPrefixOf (offsetKeyword ++ r) :=
    List.isPrefixOf_iff_prefix.mpr (List.prefix_append _ _)
  have hoffset : offset (offsetKeyword ++ r) =
      offsetNumber (offsetKeyword ++ r) ((offsetKeyword ++ r).drop offsetKeyword.length) := if_pos hprefix
  rw [hoffset, List.drop_left]

theorem endsIn_offsetNumber (start s : List Char) :
    EndsIn (Integer.scan (skipWhiteSpace s)).2 Prod.snd (offsetNumber start s) := by
  unfold offsetNumber
  dsimp only
  split
  · exact .of_fail (List.suffix_refl _)
  · exact .of_ok (skipWhiteSpace_suffix _)

theorem scan_suffix (s : List Char) : (Integer.scan s).2 <:+ s :=
  ⟨_, Integer.scan_append s⟩

theorem mirrors_offsetNumber (hstart : φ.Twin start start') (hs : φ.Ahead s → φ.Twin s s') :
    Mirrors φ Prod.snd (TwinResult φ) (offsetNumber start s) (offsetNumber start' s') := by
  refine .of_endsIn (endsIn_offsetNumber start s) fun hnumber => ?_
  have hskip := hnumber.mono (scan_suffix _)
  have htwin := (hs (hskip.mono (skipWhiteSpace_suffix s))).skipWhiteSpace hskip
  obtain ⟨hdigits, hrest⟩ := htwin.scan hnumber
  unfold offsetNumber
  dsimp only
  rw [hdigits]
  split
  · exact .of_fail fun _ => ⟨rfl, hstart, hrest⟩
  · exact .of_ok fun hahead => ⟨rfl, hrest.skipWhiteSpace hahead⟩

theorem endsIn_offset (s : List Char) : EndsIn s Prod.snd (offset s) :=
  ⟨fun _ h => suffix_of_offset h, fun _ h => (within_of_offset h).stop_suffix⟩

/-- Whether there is an offset is decided where the name in front of the text ends. -/
theorem mirrors_offset (hs : φ.Ahead s → φ.Twin s s') :
    Mirrors φ behindName (TwinResult φ) (offset s) (offset s') := by
  refine .of_endsIn ⟨fun p h => (behindName_suffix p).trans ((endsIn_offset s).ok p h), (endsIn_offset s).error⟩
    fun hahead => ?_
  have htwin := hs hahead
  by_cases hprefix : offsetKeyword.isPrefixOf s
  · obtain ⟨r, rfl⟩ := List.isPrefixOf_iff_prefix.mp hprefix
    rw [offset_keyword_append]
    have hends := (endsIn_offsetNumber (offsetKeyword ++ r) r).mono
      ((scan_suffix _).trans (skipWhiteSpace_suffix r))
    refine Mirrors.of_left (.of_endsIn hends fun hr => ?_) behindName_suffix
    obtain ⟨r', rfl, hr'⟩ := htwin.exists_append hr
    rw [offset_keyword_append]
    exact mirrors_offsetNumber htwin fun _ => hr'
  · rw [offset, if_neg hprefix]
    constructor
    · rintro _ ⟨⟩ hname
      obtain ⟨htake, hdrop⟩ := htwin.dropWhile hname
      have hprefix' : ¬ offsetKeyword.isPrefixOf s' := by
        rwa [offsetKeyword_prefix_iff, htake, hdrop.head?_eq, ← offsetKeyword_prefix_iff]
      exact ⟨(0, s'), by rw [offset, if_neg hprefix'], rfl, htwin⟩
    · rintro _ ⟨⟩

/-- What the head of an argument has decided. Behind the head of a selection comes a key. -/
def Head.settled : Head × List Char → List Char
  | (.whole _, r) => r
  | (.select _, r) => r.dropWhile isNameChar
  | (.plural _ _ _, r) => r.dropWhile isNameChar

theorem Head.settled_suffix (p : Head × List Char) : Head.settled p <:+ p.2 := by
  obtain ⟨head, r⟩ := p
  cases head with
  | whole e => exact List.suffix_refl r
  | select name | plural name kind n => exact List.dropWhile_suffix isNameChar

theorem endsIn_headOfType (name : String) (type : ArgumentType) (hle : s <:+ start) :
    EndsIn s Head.settled (headOfType start name type s) :=
  ⟨fun p h => (Head.settled_suffix p).trans (suffix_of_headOfType h),
    fun _ h => (within_of_headOfType hle h).stop_suffix⟩

theorem mirrors_headOfType (name : String) (type : ArgumentType) (hstart : φ.Twin start start')
    (hle : s <:+ start) (hs : φ.Ahead s → φ.Twin s s') :
    Mirrors φ Head.settled (TwinResult φ) (headOfType start name type s) (headOfType start' name type s') := by
  cases type with
  | number | date | time =>
      apply (mirrors_style hstart hle hs).bind
      · exact fun _ _ => .of_ok (List.suffix_refl _)
      · rintro ⟨text?, r⟩ ⟨_, r'⟩ - ⟨rfl, hr⟩
        exact .of_ok fun _ => ⟨rfl, hr⟩
  | select =>
      apply (mirrors_expect _ _ hstart hs).bind
      · exact fun r _ => .of_ok ((List.dropWhile_suffix _).trans (skipWhiteSpace_suffix r))
      · exact fun r r' _ hr => .of_ok fun hname => ⟨rfl, hr.skipWhiteSpace (hname.mono (List.dropWhile_suffix _))⟩
  | plural kind =>
      apply (mirrors_expect _ _ hstart hs).bind
      · intro r _
        refine EndsIn.mono ?_ (skipWhiteSpace_suffix r)
        exact (endsIn_offset _).bind fun _ _ => .of_ok (List.dropWhile_suffix _)
      · intro r r' _ hr
        apply (mirrors_offset fun hahead => hr.skipWhiteSpace hahead).bind
        · exact fun _ _ => .of_ok (List.suffix_refl _)
        · rintro ⟨n, u⟩ ⟨_, u'⟩ - ⟨rfl, hu⟩
          exact .of_ok fun _ => ⟨rfl, hu⟩

/-- The type of an argument behind its comma, and what follows the type. -/
def typeHead (start : List Char) (name : String) (s : List Char) : Except Failure (Head × List Char) :=
  match ArgumentType.ofKeyword? (leadingName s) with
  | none => fail (.unknownType (leadingName s)) s (afterName s)
  | some type => headOfType start name type (afterName s)

theorem headOfName_of_head?_ne (start : List Char) (name : String) (h : s.head? ≠ some '\x7d') :
    headOfName start name s =
      expect ',' .separatorExpected start s >>= fun r => typeHead start name (skipWhiteSpace r) := by
  unfold headOfName
  split
  · exact absurd rfl h
  · rfl

theorem endsIn_typeHead (name : String) (hle : s <:+ start) :
    EndsIn (afterName s) Head.settled (typeHead start name s) := by
  unfold typeHead
  split
  · exact .of_fail (List.suffix_refl _)
  · exact endsIn_headOfType name _ ((afterName_suffix s).trans hle)

theorem leadingName_and_afterName (hs : φ.Twin s s') (hafter : φ.Ahead (afterName s)) :
    leadingName s' = leadingName s ∧ φ.Twin (afterName s) (afterName s') := by
  obtain ⟨htake, hdrop⟩ := hs.dropWhile (hafter.mono (skipWhiteSpace_suffix _))
  exact ⟨congrArg String.ofList htake, hdrop.skipWhiteSpace hafter⟩

theorem mirrors_typeHead (name : String) (hstart : φ.Twin start start') (hle : s <:+ start)
    (hs : φ.Ahead s → φ.Twin s s') :
    Mirrors φ Head.settled (TwinResult φ) (typeHead start name s) (typeHead start' name s') := by
  refine .of_endsIn (endsIn_typeHead name hle) fun hafter => ?_
  have htwin := hs (hafter.mono (afterName_suffix s))
  obtain ⟨hname, hrest⟩ := leadingName_and_afterName htwin hafter
  unfold typeHead
  rw [hname]
  split
  · exact .of_fail fun _ => ⟨rfl, htwin, hrest⟩
  · exact mirrors_headOfType name _ hstart ((afterName_suffix s).trans hle) fun _ => hrest

theorem endsIn_headOfName (name : String) (hle : s <:+ start) :
    EndsIn s Head.settled (headOfName start name s) :=
  ⟨fun p h => (Head.settled_suffix p).trans (suffix_of_headOfName h),
    fun _ h => (within_of_headOfName hle h).stop_suffix⟩

theorem mirrors_headOfName (name : String) (hstart : φ.Twin start start') (hle : s <:+ start)
    (hs : φ.Ahead s → φ.Twin s s') :
    Mirrors φ Head.settled (TwinResult φ) (headOfName start name s) (headOfName start' name s') := by
  refine .of_endsIn (endsIn_headOfName name hle) fun hahead => ?_
  have htwin := hs hahead
  by_cases hbrace : s.head? = some '\x7d'
  · obtain ⟨r, rfl⟩ := List.head?_eq_some_iff.mp hbrace
    obtain ⟨r', rfl, -, hr'⟩ := htwin.exists_cons
    exact .of_ok fun hrest => ⟨rfl, hr' hrest⟩
  · rw [headOfName_of_head?_ne start name hbrace, headOfName_of_head?_ne start' name (htwin.head?_eq ▸ hbrace)]
    have hskip : ∀ r, expect ',' .separatorExpected start s = .ok r → skipWhiteSpace r <:+ start :=
      fun r h => (skipWhiteSpace_suffix r).trans ((suffix_of_expect h).trans hle)
    apply (mirrors_expect _ _ hstart hs).bind
    · intro r h
      exact (endsIn_typeHead name (hskip r h)).mono ((afterName_suffix _).trans (skipWhiteSpace_suffix r))
    · intro r r' h hr
      exact mirrors_typeHead name hstart (hskip r h) fun hahead => hr.skipWhiteSpace hahead

/-- An argument from its first character behind the brace and the white space on. -/
def argumentAt (start s : List Char) : Except Failure (Head × List Char) :=
  match s with
  | [] => fail .unterminatedArgument start []
  | '\x7d' :: r => fail .emptyArgument start r
  | r =>
    if leadingName r = "" then fail .nameExpected start r
    else headOfName start (leadingName r) (afterName r)

theorem argumentHead_eq (s : List Char) : argumentHead s = argumentAt ('\x7b' :: s) (skipWhiteSpace s) := rfl

theorem endsIn_argumentAt (hle : s <:+ start) : EndsIn s Head.settled (argumentAt start s) := by
  unfold argumentAt
  split
  · exact .of_fail (List.suffix_refl _)
  · exact .of_fail (List.suffix_cons _ _)
  · split
    · exact .of_fail (List.suffix_refl _)
    · exact (endsIn_headOfName _ ((afterName_suffix s).trans hle)).mono (afterName_suffix s)

theorem mirrors_argumentAt (hstart : φ.Twin start start') (hle : s <:+ start) (hs : φ.Twin s s') :
    Mirrors φ Head.settled (TwinResult φ) (argumentAt start s) (argumentAt start' s') := by
  cases s with
  | nil =>
      obtain rfl := hs.eq_nil
      exact .of_fail fun _ => ⟨rfl, hstart, hs⟩
  | cons c s =>
      obtain ⟨r', rfl, -, hr'⟩ := hs.exists_cons
      by_cases hc : c = '\x7d'
      · subst hc
        exact .of_fail fun hrest => ⟨rfl, hstart, hr' hrest⟩
      · have hempty : leadingName (c :: r') = "" ↔ leadingName (c :: s) = "" := by
          rw [leadingName_eq_empty_iff, leadingName_eq_empty_iff, hs.stops_iff]
        have hargument : ∀ start t, argumentAt start (c :: t) =
            if leadingName (c :: t) = "" then fail .nameExpected start (c :: t)
            else headOfName start (leadingName (c :: t)) (afterName (c :: t)) := by
          intro start t
          unfold argumentAt
          split
          · rename_i heq
            cases heq
          · rename_i heq
            exact absurd (List.cons.inj heq).1 hc
          · rfl
        rw [hargument, hargument]
        by_cases hname : leadingName (c :: s) = ""
        · rw [if_pos hname, if_pos (hempty.mpr hname)]
          exact .of_fail fun _ => ⟨rfl, hstart, hs⟩
        · rw [if_neg hname, if_neg (hname ∘ hempty.mp)]
          have hafter := (afterName_suffix (c :: s)).trans hle
          refine .of_endsIn (endsIn_headOfName _ hafter) fun hahead => ?_
          obtain ⟨hsame, hrest⟩ := leadingName_and_afterName hs hahead
          rw [hsame]
          exact mirrors_headOfName _ hstart hafter fun _ => hrest

theorem mirrors_argumentHead (hs : φ.Ahead s → φ.Twin s s') :
    Mirrors φ Head.settled (TwinResult φ) (argumentHead s) (argumentHead s') := by
  have hle := (skipWhiteSpace_suffix s).trans (List.suffix_cons '\x7b' s)
  rw [argumentHead_eq, argumentHead_eq]
  refine .of_endsIn (endsIn_argumentAt hle) fun hahead => ?_
  have htwin := hs (hahead.mono (skipWhiteSpace_suffix s))
  exact mirrors_argumentAt (htwin.cons _) hle (htwin.skipWhiteSpace hahead)

theorem tagName_and_afterTagName (hs : φ.Twin s s') (hafter : φ.Ahead (afterTagName s)) :
    tagName s' = tagName s ∧ φ.Twin (afterTagName s) (afterTagName s') := by
  obtain ⟨htake, hdrop⟩ := hs.dropWhile hafter
  exact ⟨congrArg String.ofList htake, hdrop⟩

/-- The end of an opening tag, or of one that closes itself, behind its name and the white space. -/
def tagEnd (start : List Char) (name : String) (s : List Char) : Except Failure (TagHead × List Char) :=
  match s with
  | '/' :: '>' :: r => .ok (.selfClosing name, r)
  | '>' :: r => .ok (.opening name, r)
  | r => fail (.openingTagUnfinished name) start r

theorem tagHead_eq (s : List Char) :
    tagHead s = tagEnd ('<' :: s) (tagName s) (skipWhiteSpace (afterTagName s)) := rfl

theorem endsIn_tagEnd (start : List Char) (name : String) (s : List Char) :
    EndsIn s Prod.snd (tagEnd start name s) := by
  unfold tagEnd
  split
  · exact .of_ok ((List.suffix_cons _ _).trans (List.suffix_cons _ _))
  · exact .of_ok (List.suffix_cons _ _)
  · exact .of_fail (List.suffix_refl _)

theorem mirrors_tagEnd (name : String) (hstart : φ.Twin start start') (hs : φ.Twin s s') :
    Mirrors φ Prod.snd (TwinResult φ) (tagEnd start name s) (tagEnd start' name s') := by
  unfold tagEnd
  split
  · obtain ⟨r', rfl, hr'⟩ := hs.exists_pair
    exact .of_ok fun hrest => ⟨rfl, hr' hrest⟩
  · obtain ⟨r', rfl, -, hr'⟩ := hs.exists_cons
    exact .of_ok fun hrest => ⟨rfl, hr' hrest⟩
  · rename_i hself hopening
    split
    · obtain ⟨r, rfl⟩ := hs.exists_pair_of_right
      exact absurd rfl (hself r)
    · obtain ⟨r, rfl⟩ := hs.exists_cons_of_right
      exact absurd rfl (hopening r)
    · exact .of_fail fun _ => ⟨rfl, hstart, hs⟩

theorem mirrors_tagHead (hs : φ.Ahead s → φ.Twin s s') :
    Mirrors φ Prod.snd (TwinResult φ) (tagHead s) (tagHead s') := by
  rw [tagHead_eq, tagHead_eq]
  refine .of_endsIn (endsIn_tagEnd _ _ _) fun hahead => ?_
  have hafter := hahead.mono (skipWhiteSpace_suffix (afterTagName s))
  have htwin := hs (hafter.mono (List.dropWhile_suffix _))
  obtain ⟨hname, hrest⟩ := tagName_and_afterTagName htwin hafter
  rw [hname]
  exact mirrors_tagEnd _ (htwin.cons _) (hrest.skipWhiteSpace hahead)

/-- A closing tag from its name on. -/
def closingName (start : List Char) (name : String) (s : List Char) : Except Failure (List Char) :=
  if tagName s = name then
    expect '>' (.closingTagUnfinished name) start (skipWhiteSpace (afterTagName s))
  else fail (.mismatchedClosingTag name (tagName s)) start (afterTagName s)

theorem endsIn_closingName (start : List Char) (name : String) (s : List Char) :
    EndsIn (afterTagName s) id (closingName start name s) := by
  unfold closingName
  split
  · exact (endsIn_expect _ _ _ _).mono (skipWhiteSpace_suffix _)
  · exact .of_fail (List.suffix_refl _)

theorem mirrors_closingName (name : String) (hstart : φ.Twin start start') (hs : φ.Ahead s → φ.Twin s s') :
    Mirrors φ id φ.Twin (closingName start name s) (closingName start' name s') := by
  refine .of_endsIn (endsIn_closingName start name s) fun hafter => ?_
  obtain ⟨hname, hrest⟩ := tagName_and_afterTagName (hs (hafter.mono (List.dropWhile_suffix _))) hafter
  unfold closingName
  rw [hname]
  split
  · exact mirrors_expect _ _ hstart fun hahead => hrest.skipWhiteSpace hahead
  · exact .of_fail fun _ => ⟨rfl, hstart, hrest⟩

theorem endsIn_closingTag (name : String) (hle : s <:+ start) : EndsIn s id (closingTag start name s) :=
  ⟨fun _ h => suffix_of_closingTag h, fun _ h => (within_of_closingTag hle h).stop_suffix⟩

theorem mirrors_closingTag (name : String) (hstart : φ.Twin start start') (hle : s <:+ start)
    (hs : φ.Ahead s → φ.Twin s s') :
    Mirrors φ id φ.Twin (closingTag start name s) (closingTag start' name s') := by
  refine .of_endsIn (endsIn_closingTag name hle) fun hahead => ?_
  have htwin := hs hahead
  unfold closingTag
  split
  · obtain ⟨r', rfl, hr'⟩ := htwin.exists_pair
    exact mirrors_closingName name htwin hr'
  · rename_i hopen
    split
    · obtain ⟨r, rfl⟩ := htwin.exists_pair_of_right
      exact absurd rfl (hopen r)
    · exact .of_fail fun _ => ⟨rfl, hstart, htwin⟩

/-- The number of an exact key, behind its equality sign. -/
def exactSelector (start s : List Char) : Except Failure (String × List Char) :=
  let number := Integer.scan s
  match Integer.read? number.1 with
  | none => fail (.invalidExactSelector (.ofList number.1)) start number.2
  | some _ => .ok (.ofList ('=' :: number.1), number.2)

/-- A key that is a name. -/
def nameSelector (name : String) (s : List Char) : Except Failure (String × List Char) :=
  if leadingName s = "" then fail (.selectorExpected name) s s
  else .ok (leadingName s, s.dropWhile isNameChar)

theorem selector_exact {k : Chooser} (hk : k.plural = true) (r : List Char) :
    selector k ('=' :: r) = exactSelector ('=' :: r) r := by
  unfold selector
  rw [hk]
  rfl

theorem selector_of_ne {k : Chooser} (h : ¬(k.plural = true ∧ s.head? = some '=')) :
    selector k s = nameSelector k.name s := by
  unfold selector
  split
  · rename_i hplural
    exact absurd ⟨hplural, rfl⟩ h
  · rfl

theorem endsIn_exactSelector (start s : List Char) :
    EndsIn (Integer.scan s).2 Prod.snd (exactSelector start s) := by
  unfold exactSelector
  dsimp only
  split
  · exact .of_fail (List.suffix_refl _)
  · exact .of_ok (List.suffix_refl _)

theorem mirrors_exactSelector (hstart : φ.Twin start start') (hs : φ.Ahead s → φ.Twin s s') :
    Mirrors φ Prod.snd (TwinResult φ) (exactSelector start s) (exactSelector start' s') := by
  refine .of_endsIn (endsIn_exactSelector start s) fun hnumber => ?_
  obtain ⟨hdigits, hrest⟩ := (hs (hnumber.mono (scan_suffix s))).scan hnumber
  unfold exactSelector
  dsimp only
  rw [hdigits]
  split
  · exact .of_fail fun _ => ⟨rfl, hstart, hrest⟩
  · exact .of_ok fun _ => ⟨rfl, hrest⟩

theorem endsIn_nameSelector (name : String) (s : List Char) :
    EndsIn (s.dropWhile isNameChar) Prod.snd (nameSelector name s) := by
  unfold nameSelector
  split
  · rename_i hempty
    rw [dropWhile_eq_self (leadingName_eq_empty_iff.mp hempty)]
    exact .of_fail (List.suffix_refl _)
  · exact .of_ok (List.suffix_refl _)

theorem mirrors_nameSelector (name : String) (hs : φ.Twin s s') :
    Mirrors φ Prod.snd (TwinResult φ) (nameSelector name s) (nameSelector name s') := by
  unfold nameSelector
  by_cases hempty : leadingName s = ""
  · have hempty' : leadingName s' = "" :=
      leadingName_eq_empty_iff.mpr (hs.stops_iff.mpr (leadingName_eq_empty_iff.mp hempty))
    rw [if_pos hempty, if_pos hempty']
    exact .of_fail fun _ => ⟨rfl, hs, hs⟩
  · rw [if_neg hempty]
    refine .of_endsIn (.of_ok (List.suffix_refl _)) fun hahead => ?_
    obtain ⟨htake, hdrop⟩ := hs.dropWhile hahead
    have hname : leadingName s' = leadingName s := congrArg String.ofList htake
    rw [hname, if_neg hempty]
    exact .of_ok fun _ => ⟨rfl, hdrop⟩

theorem endsIn_selector (k : Chooser) (s : List Char) :
    EndsIn (s.dropWhile isNameChar) Prod.snd (selector k s) := by
  by_cases hexact : k.plural = true ∧ s.head? = some '='
  · obtain ⟨r, rfl⟩ := List.head?_eq_some_iff.mp hexact.2
    rw [selector_exact hexact.1]
    exact (endsIn_exactSelector _ r).mono ((scan_suffix r).trans (List.suffix_cons _ r))
  · rw [selector_of_ne hexact]
    exact endsIn_nameSelector _ s

theorem mirrors_selector (name : String) (plural : Bool) (hs : φ.Twin s s') :
    Mirrors φ Prod.snd (TwinResult φ) (selector ⟨name, plural, start⟩ s) (selector ⟨name, plural, start'⟩ s') := by
  by_cases hexact : plural = true ∧ s.head? = some '='
  · obtain ⟨rfl, hequals⟩ := hexact
    obtain ⟨r, rfl⟩ := List.head?_eq_some_iff.mp hequals
    obtain ⟨r', rfl, -, hr'⟩ := hs.exists_cons
    rw [selector_exact rfl, selector_exact rfl]
    exact mirrors_exactSelector hs hr'
  · rw [selector_of_ne hexact, selector_of_ne (hs.head?_eq ▸ hexact)]
    exact mirrors_nameSelector name hs

/-- The opening brace of a branch behind its key. -/
def branchStart (name : String) (seen : List String) (start : List Char) (key : String × List Char) :
    Except Failure (Option String × List Char) :=
  if seen.contains key.1 then fail (.duplicateOption key.1 name) start key.2
  else expect '\x7b' .branchExpected start (skipWhiteSpace key.2) >>= fun r => .ok (some key.1, r)

/-- The next key of a selection, or its closing brace, behind white space. -/
def optionAt (d : Dialect) (k : Chooser) (seen : List String) (s : List Char) :
    Except Failure (Option String × List Char) :=
  match s with
  | [] => fail (.unterminatedOptions k.name) k.start []
  | '\x7d' :: r =>
    if seen.isEmpty then fail (.optionsExpected k.name) k.start ('\x7d' :: r)
    else if d.requiresOther && !seen.contains otherKey then
      fail (.otherExpected k.name) k.start ('\x7d' :: r)
    else .ok (none, r)
  | t => selector k t >>= branchStart k.name seen t

theorem optionHead_eq (d : Dialect) (k : Chooser) (seen : List String) (s : List Char) :
    optionHead d k seen s = optionAt d k seen (skipWhiteSpace s) := rfl

theorem endsIn_branchStart (name : String) (seen : List String) (start : List Char)
    (key : String × List Char) : EndsIn key.2 Prod.snd (branchStart name seen start key) := by
  unfold branchStart
  split
  · exact .of_fail (List.suffix_refl _)
  · refine EndsIn.mono ?_ (skipWhiteSpace_suffix key.2)
    exact (endsIn_expect _ _ _ _).bind fun _ _ => .of_ok (List.suffix_refl _)

theorem mirrors_branchStart (name : String) (seen : List String) {key key' : String × List Char}
    (hstart : φ.Twin start start') (hkey : TwinResult φ key key') :
    Mirrors φ Prod.snd (TwinResult φ) (branchStart name seen start key) (branchStart name seen start' key') := by
  obtain ⟨key, r⟩ := key
  obtain ⟨_, r'⟩ := key'
  obtain ⟨rfl, hr⟩ := hkey
  unfold branchStart
  dsimp only at hr ⊢
  split
  · exact .of_fail fun _ => ⟨rfl, hstart, hr⟩
  · apply (mirrors_expect _ _ hstart fun hahead => hr.skipWhiteSpace hahead).bind
    · exact fun _ _ => .of_ok (List.suffix_refl _)
    · exact fun _ _ _ hrest => .of_ok fun _ => ⟨rfl, hrest⟩

theorem endsIn_optionAt (d : Dialect) (k : Chooser) (seen : List String) (s : List Char) :
    EndsIn (s.dropWhile isNameChar) Prod.snd (optionAt d k seen s) := by
  unfold optionAt
  split
  · exact .of_fail List.nil_suffix
  · split
    · exact .of_fail (List.suffix_refl _)
    · split
      · exact .of_fail (List.suffix_refl _)
      · exact .of_ok (List.suffix_cons _ _)
  · exact (endsIn_selector k s).bind fun key _ => endsIn_branchStart k.name seen s key

/-- All that is read of the branches of a selection is read behind the name in front of them. -/
theorem endsIn_optionHead (d : Dialect) (k : Chooser) (seen : List String) (s : List Char) :
    EndsIn (s.dropWhile isNameChar) Prod.snd (optionHead d k seen s) := by
  rw [optionHead_eq]
  refine (endsIn_optionAt d k seen (skipWhiteSpace s)).mono ?_
  cases s with
  | nil => exact List.suffix_refl _
  | cons c s =>
      by_cases hc : isWhiteSpace c
      · rw [dropWhile_eq_self (s := c :: s) (stops_cons.mpr (isNameChar_of_isWhiteSpace hc))]
        exact (List.dropWhile_suffix _).trans (skipWhiteSpace_suffix _)
      · have hskip : skipWhiteSpace (c :: s) = c :: s := List.dropWhile_cons_of_neg hc
        simp only [hskip, List.suffix_refl]

theorem mirrors_optionAt (d : Dialect) (name : String) (plural : Bool) (seen : List String)
    (hstart : φ.Twin start start') (hs : φ.Twin s s') :
    Mirrors φ Prod.snd (TwinResult φ) (optionAt d ⟨name, plural, start⟩ seen s)
      (optionAt d ⟨name, plural, start'⟩ seen s') := by
  unfold optionAt
  split
  · obtain rfl := hs.eq_nil
    exact .of_fail fun _ => ⟨rfl, hstart, hs⟩
  · obtain ⟨r', rfl, -, hr'⟩ := hs.exists_cons
    dsimp only
    split
    · exact .of_fail fun _ => ⟨rfl, hstart, hs⟩
    · split
      · exact .of_fail fun _ => ⟨rfl, hstart, hs⟩
      · exact .of_ok fun hrest => ⟨rfl, hr' hrest⟩
  · rename_i hnil hbrace
    split
    · exact absurd (List.head?_eq_none_iff.mp hs.head?_eq.symm) hnil
    · obtain ⟨r, rfl⟩ := hs.exists_cons_of_right
      exact absurd rfl (hbrace r)
    · apply (mirrors_selector name plural hs).bind
      · exact fun key _ => endsIn_branchStart name seen s key
      · exact fun key key' _ hkey => mirrors_branchStart name seen hs hkey

theorem mirrors_optionHead (d : Dialect) (name : String) (plural : Bool) (seen : List String)
    (hstart : φ.Twin start start') (hs : φ.Ahead s → φ.Twin s s') :
    Mirrors φ Prod.snd (TwinResult φ) (optionHead d ⟨name, plural, start⟩ seen s)
      (optionHead d ⟨name, plural, start'⟩ seen s') := by
  rw [optionHead_eq, optionHead_eq]
  refine .of_endsIn ((endsIn_optionAt d _ seen _).mono (List.dropWhile_suffix _)) fun hahead => ?_
  have htwin := hs (hahead.mono (skipWhiteSpace_suffix s))
  exact mirrors_optionAt d name plural seen hstart (htwin.skipWhiteSpace hahead)

theorem not_cons_of_head?_eq {c : Char} {s r : List Char} (hhead : r.head? = s.head?)
    (h : ∀ t, s = c :: t → False) : ∀ t, r = c :: t → False := by
  rintro t rfl
  obtain ⟨u, hu⟩ := List.head?_eq_some_iff.mp hhead.symm
  exact h u hu

/-- Literal text that ends before the fork is the same in both texts. -/
theorem literalText_twin {d : Dialect} {σ : Scope} {quoted : Bool} (hs : φ.Twin s s')
    (hrest : φ.Ahead (literalText d σ quoted s).2) :
    (literalText d σ quoted s').1 = (literalText d σ quoted s).1 ∧
      φ.Twin (literalText d σ quoted s).2 (literalText d σ quoted s').2 := by
  -- Every case of the reader looks at two characters at most, so the second text is in the same case.
  fun_induction literalText d σ quoted s generalizing s' with
  | case1 =>
      obtain rfl := hs.eq_nil
      exact ⟨rfl, hs⟩
  | case2 quoted s ih =>
      obtain ⟨r', rfl, hr'⟩ := hs.exists_pair
      obtain ⟨htext, hafter⟩ := ih (hr' (hrest.mono (literalText_suffix d σ quoted s))) hrest
      rw [literalText]
      exact ⟨congrArg ('\x27' :: ·) htext, hafter⟩
  | case3 s hpair ih =>
      obtain ⟨r', rfl, hhead, hr'⟩ := hs.exists_cons
      rw [literalText, if_pos rfl]
      · exact ih (hr' (hrest.mono (literalText_suffix d σ false s))) hrest
      · exact not_cons_of_head?_eq hhead hpair
  | case4 quoted s hpair hquoted hopens ih =>
      obtain ⟨r', rfl, hhead, hr'⟩ := hs.exists_cons
      rw [literalText, if_neg hquoted, hhead, if_pos hopens]
      · exact ih (hr' (hrest.mono (literalText_suffix d σ true s))) hrest
      · exact not_cons_of_head?_eq hhead hpair
  | case5 quoted s hpair hquoted hopens ih =>
      obtain ⟨r', rfl, hhead, hr'⟩ := hs.exists_cons
      obtain ⟨htext, hafter⟩ := ih (hr' (hrest.mono (literalText_suffix d σ false s))) hrest
      rw [literalText, if_neg hquoted, hhead, if_neg hopens]
      · exact ⟨congrArg ('\x27' :: ·) htext, hafter⟩
      · exact not_cons_of_head?_eq hhead hpair
  | case6 quoted c s hpair hsingle hon ih =>
      obtain ⟨r', rfl, hhead, hr'⟩ := hs.exists_cons
      obtain ⟨htext, hafter⟩ := ih (hr' (hrest.mono (literalText_suffix d σ quoted s))) hrest
      rw [literalText, hhead, if_pos hon]
      · exact ⟨congrArg (c :: ·) htext, hafter⟩
      · exact fun t hc _ => hsingle hc
      · exact hsingle
  | case7 quoted c s hpair hsingle hends =>
      obtain ⟨r', rfl, hhead, -⟩ := hs.exists_cons
      rw [literalText, hhead, if_neg hends]
      · exact ⟨rfl, hs⟩
      · exact fun t hc _ => hsingle hc
      · exact hsingle

end Parts

end MessageFormat.Pattern
