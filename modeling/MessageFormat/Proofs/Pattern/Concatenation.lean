import MessageFormat.Proofs.Pattern.Extension
import MessageFormat.Proofs.Pattern.RoundTrip

/-! Patterns one behind the other. The reader keeps nothing in mind between two elements at the top of a pattern, so
that a pattern behind another one is read as it is read alone. The first pattern must not leave anything open that
the reader would not see as open: without apostrophes it leaves no quotation, and if it does not end with a less
sign it leaves no tag. Only literals that meet become one. -/

namespace MessageFormat.Pattern

/-- A message behind another one. If the first one ends with a literal and the second one begins with a literal,
they become one. -/
def joined : List Element → List Element → List Element
  | [.literal text], .literal next :: es => .literal (text ++ next) :: es
  | [], es => es
  | e :: es, es' => e :: joined es es'

theorem joined_nil (es : List Element) : joined [] es = es := by
  rw [joined]

theorem joined_cons_of_isLiteral {e : Element} (he : e.isLiteral = false) (es es' : List Element) :
    joined (e :: es) es' = e :: joined es es' := by
  rw [joined]
  rintro text next rest - rfl
  cases he

theorem joined_cons_cons (e next : Element) (es es' : List Element) :
    joined (e :: next :: es) es' = e :: joined (next :: es) es' := by
  rw [joined]
  simp

theorem joined_singleton (e : Element) {es : List Element} (h : ∀ next ∈ es.head?, ¬ next.isLiteral) :
    joined [e] es = e :: es := by
  rw [joined, joined_nil]
  rintro text next rest rfl
  exact absurd rfl (h _ rfl)

theorem joined_literals (text next : String) (es : List Element) :
    joined [.literal text] (.literal next :: es) = .literal (text ++ next) :: es := by
  rw [joined]

theorem exists_literal_of_head? {es : List Element} (h : ¬ ∀ next ∈ es.head?, ¬ next.isLiteral) :
    ∃ text rest, es = .literal text :: rest := by
  cases es with
  | nil => exact absurd (by simp) h
  | cons e rest =>
      cases e with
      | literal text => exact ⟨text, rest, rfl⟩
      | _ => exact absurd (by simp [Element.isLiteral]) h

theorem consLiteral_empty (es : List Element) : consLiteral "" es = es := by
  unfold consLiteral
  split
  · rw [String.empty_append]
  · rfl

theorem consLiteral_literal (text next : String) (es : List Element) :
    consLiteral text (.literal next :: es) = .literal (text ++ next) :: es := rfl

/-- A text can be put in front of a message in parts. -/
theorem consLiteral_append (text more : String) (es : List Element) :
    consLiteral (text ++ more) es = consLiteral text (consLiteral more es) := by
  by_cases hmore : more = ""
  · rw [hmore, String.append_empty, consLiteral_empty]
  · have hboth : text ++ more ≠ "" := by simp [hmore]
    by_cases hhead : ∀ next ∈ es.head?, ¬ next.isLiteral
    · rw [consLiteral_eq_cons hmore hhead, consLiteral_eq_cons hboth hhead, consLiteral_literal]
    · obtain ⟨next, rest, rfl⟩ := exists_literal_of_head? hhead
      rw [consLiteral_literal, consLiteral_literal, consLiteral_literal, String.append_assoc]

theorem joined_consLiteral (text : String) (es es' : List Element) :
    joined (consLiteral text es) es' = consLiteral text (joined es es') := by
  by_cases htext : text = ""
  · rw [htext, consLiteral_empty, consLiteral_empty]
  by_cases hhead : ∀ next ∈ es.head?, ¬ next.isLiteral
  · rw [consLiteral_eq_cons htext hhead]
    cases es with
    | nil =>
        rw [joined_nil]
        by_cases hhead' : ∀ next ∈ es'.head?, ¬ next.isLiteral
        · rw [joined_singleton _ hhead', consLiteral_eq_cons htext hhead']
        · obtain ⟨next, rest, rfl⟩ := exists_literal_of_head? hhead'
          rw [joined_literals, consLiteral_literal]
    | cons e es =>
        have he := hhead e rfl
        rw [joined_cons_cons, joined_cons_of_isLiteral (Bool.eq_false_iff.mpr he),
          consLiteral_eq_cons htext (by simpa using he)]
  · obtain ⟨next, rest, rfl⟩ := exists_literal_of_head? hhead
    rw [consLiteral_literal]
    cases rest with
    | nil =>
        by_cases hhead' : ∀ next ∈ es'.head?, ¬ next.isLiteral
        · rw [joined_singleton _ hhead', joined_singleton _ hhead', consLiteral_literal]
        · obtain ⟨more, rest, rfl⟩ := exists_literal_of_head? hhead'
          rw [joined_literals, joined_literals, consLiteral_literal, String.append_assoc]
    | cons e rest => rw [joined_cons_cons, joined_cons_cons, consLiteral_literal]

/-! ### The reader on two texts -/

section Seam

variable {d : Dialect} {σ : Scope}

/-- Literal text in front of any text, perhaps none. -/
theorem readElements_literalText (s : List Char) :
    readElements d σ s = readElements d σ (literalText d σ false s).2 >>= fun tail =>
      .ok (consLiteral (.ofList (literalText d σ false s).1) tail.1, tail.2) := by
  by_cases hends : EndsLiteral d σ s
  · rw [literalText_end hends]
    dsimp only [String.ofList_nil]
    simp only [consLiteral_empty]
    cases readElements d σ s <;> rfl
  · obtain ⟨c, r, rfl, hlead⟩ : ∃ c r, s = c :: r ∧ lead d σ c r.head? = .text := by
      simpa [EndsLiteral] using hends
    exact readElements_text hlead

/-- Outside of quotations text is read character by character. -/
theorem readElements_plain {c : Char} {s : List Char} (hc : c ≠ '\x27') (hlead : lead d σ c s.head? = .text) :
    readElements d σ (c :: s) = readElements d σ s >>= fun tail =>
      .ok (consLiteral (String.singleton c) tail.1, tail.2) := by
  rw [readElements_text hlead, literalText_plain hc (Or.inr hlead), readElements_literalText s]
  dsimp only [consRead]
  rw [String.ofList_cons]
  cases readElements d σ (literalText d σ false s).2 with
  | error f => rfl
  | ok tail =>
      dsimp only [bind, Except.bind]
      rw [consLiteral_append]

/-- A text that leaves nothing open at its end. -/
structure Seamless (s : List Char) : Prop where
  apostrophe : '\x27' ∉ s
  less : s.getLast? ≠ some '<'

theorem Seamless.of_suffix {s r : List Char} (h : Seamless s) (hr : r <:+ s) : Seamless r := by
  refine ⟨fun hmem => h.apostrophe (hr.subset hmem), fun hlast => h.less ?_⟩
  obtain ⟨read, rfl⟩ := hr
  rw [List.getLast?_append, hlast]
  rfl

theorem Seamless.lead_extend {c : Char} {s : List Char} (h : Seamless (c :: s)) (t : List Char) :
    lead d σ c (s ++ t).head? = lead d σ c s.head? := by
  refine Pattern.lead_extend (Or.inr ?_) t
  by_cases hs : s = []
  · subst hs
    left
    rintro rfl
    exact h.less rfl
  · exact Or.inr hs

/-- Only literal text gives a literal. -/
theorem isLiteral_of_elementRound {s r : List Char} {e : Element}
    (h : (reader d).elementRound d σ s = .ok (some (.element e, r))) : e.isLiteral = false := by
  cases s with
  | nil => cases h
  | cons c s =>
      dsimp only [Readers.elementRound] at h
      split at h
      · cases h
      · cases h
      · cases h
      · cases h
        rfl
      · obtain ⟨⟨head, s₁⟩, hhead, h⟩ := bind_eq_ok.mp h
        cases head with
        | whole e =>
            cases h
            exact (argumentHead_wellFormed hhead).2
        | select name | plural name kind n =>
            obtain ⟨branches, -, h⟩ := bind_eq_ok.mp h
            cases h
            rfl
      · obtain ⟨⟨head, s₁⟩, hhead, h⟩ := bind_eq_ok.mp h
        cases head with
        | selfClosing name => cases h
        | opening name =>
            obtain ⟨children, -, h⟩ := bind_eq_ok.mp h
            obtain ⟨s₃, -, h⟩ := bind_eq_ok.mp h
            cases h
            rfl

theorem joined_itemCons {s r : List Char} {item : Item}
    (h : (reader d).elementRound d σ s = .ok (some (item, r))) (es es' : List Element) :
    joined (item.cons es) es' = item.cons (joined es es') := by
  cases item with
  | text text => exact joined_consLiteral text es es'
  | element e => exact joined_cons_of_isLiteral (isLiteral_of_elementRound h) es es'

/-- A text that leaves nothing open and is read to its end is read in the same way in front of another text, and
that is read as if it stood alone. -/
theorem readElements_append {s : List Char} {es : List Element} (hs : Seamless s)
    (h : readElements d σ s = .ok (es, [])) (t : List Char) :
    readElements d σ (s ++ t) =
      readElements d σ t >>= fun tail => .ok (joined es tail.1, tail.2) := by
  match s with
  | [] =>
      rw [readElements_nil] at h
      cases h
      simp only [joined_nil, List.nil_append]
      cases readElements d σ t <;> rfl
  | c :: s =>
      by_cases hlead : lead d σ c s.head? = .text
      · -- Literal text can go on beyond the end of the first text, so it is read by single characters here.
        have hc : c ≠ '\x27' := by
          rintro rfl
          exact hs.apostrophe (.head s)
        rw [readElements_plain hc hlead] at h
        obtain ⟨⟨rest, r⟩, htail, h⟩ := bind_eq_ok.mp h
        cases h
        have ih := readElements_append (hs.of_suffix (List.suffix_cons c s)) htail t
        rw [List.cons_append, readElements_plain hc ((hs.lead_extend t).trans hlead), ih]
        simp only [joined_consLiteral]
        cases readElements d σ t <;> rfl
      · have hloop : readElements d σ (c :: s) = _ := (reader_loops d).elements σ (c :: s)
        have hloop' : readElements d σ (c :: (s ++ t)) = _ := (reader_loops d).elements σ (c :: (s ++ t))
        rw [hloop] at h
        obtain ⟨round, hround, h⟩ := bind_eq_ok.mp h
        cases round with
        | none => cases h
        | some next =>
            obtain ⟨item, r⟩ := next
            obtain ⟨⟨rest, r'⟩, htail, h⟩ := bind_eq_ok.mp h
            cases h
            have hr := consumes_of_elementRound hround
            have ih := readElements_append (hs.of_suffix hr.suffix) htail t
            rw [List.cons_append, hloop', elementRound_extend hlead hround t]
            show (readElements d σ (r ++ t) >>= fun tail => .ok (item.cons tail.1, tail.2)) = _
            rw [ih]
            simp only [joined_itemCons hround]
            cases readElements d σ t <;> rfl
termination_by s.length
decreasing_by
  · exact Nat.lt_succ_self _
  · exact hr.length_lt

end Seam

/-- The error when the text `before` is put in front of the pattern. -/
def Error.translate (before : String) (e : Error) : Error :=
  ⟨e.cause, e.start.translate before, e.stop.translate before⟩

theorem locate_append (before : String) {s : List Char} {f : Failure} (h : f.Within s s) :
    f.locate (before.toList ++ s) = (f.locate s).translate before := by
  rw [Failure.locate, Position.ofRest_append_left before h.start_suffix,
    Position.ofRest_append_left before h.stop_suffix]
  rfl

/-- If a pattern without apostrophes that does not end with a less sign is read, it can be put in front of any other
pattern. The elements of the other pattern then follow its elements, with one literal where two literals meet, and
an error of the other pattern stays the same error at the places that have moved. -/
theorem parse_append_of_parse {d : Dialect} {first : String} {es : List Element}
    (hapostrophe : '\x27' ∉ first.toList) (hless : first.toList.getLast? ≠ some '<') (h : parse d first = .ok es)
    (second : String) :
    (∀ es', parse d second = .ok es' → parse d (first ++ second) = .ok (joined es es')) ∧
    ∀ e, parse d second = .error e → parse d (first ++ second) = .error (e.translate first) := by
  have happend := readElements_append ⟨hapostrophe, hless⟩ (readElements_top_of_parse h) second.toList
  rw [parse_eq d second, parse_eq d (first ++ second), String.toList_append, happend]
  cases hread : readElements d .top second.toList with
  | ok tail =>
      refine ⟨?_, ?_⟩
      · rintro _ ⟨⟩
        rfl
      · rintro _ ⟨⟩
  | error f =>
      refine ⟨?_, ?_⟩
      · rintro _ ⟨⟩
      · rintro _ ⟨⟩
        exact congrArg Except.error (locate_append first (within_of_readElements hread))

/-- A pattern of two lines in front of one that begins with a literal, and in front of one with an unknown type. -/
theorem parse_append_of_parse_twoLines :
    parse .strict "é\n\x7bn, plural, other \x7b#\x7d\x7d b" =
      .ok [.literal "é\n", .plural "n" .cardinal 0 [("other", [.pound])], .literal " b"] ∧
    parse .strict ("é\n\x7bn, plural, other \x7b#\x7d\x7d b" ++ "c \x7by\x7d") =
      .ok [.literal "é\n", .plural "n" .cardinal 0 [("other", [.pound])], .literal " bc ", .argument "y"] ∧
    parse .strict "\x7bné, foo \x7d" = .error ⟨.unknownType "foo", ⟨0, 5, 6⟩, ⟨0, 9, 10⟩⟩ ∧
    parse .strict ("é\n\x7bn, plural, other \x7b#\x7d\x7d b" ++ "\x7bné, foo \x7d") =
      .error ⟨.unknownType "foo", ⟨1, 29, 33⟩, ⟨1, 33, 37⟩⟩ := by
  have hfirst : parse .strict "é\n\x7bn, plural, other \x7b#\x7d\x7d b" =
      .ok [.literal "é\n", .plural "n" .cardinal 0 [("other", [.pound])], .literal " b"] := by
    apply parse_eq_ok_of_reads (r := [])
    simp only [String.reduceToList]
    have hrest : Reads .strict .top
        ['\x7b', 'n', ',', ' ', 'p', 'l', 'u', 'r', 'a', 'l', ',', ' ', 'o', 't', 'h', 'e', 'r', ' ', '\x7b', '#',
          '\x7d', '\x7d', ' ', 'b']
        [.plural "n" .cardinal 0 [("other", [.pound])], .literal " b"] [] :=
      .plural rfl rfl (.branch rfl (.pound rfl (.stop rfl)) (.done rfl)) (.literal rfl rfl .nil rfl)
    exact .literal rfl rfl hrest rfl
  have hsecond : parse .strict "c \x7by\x7d" = .ok [.literal "c ", .argument "y"] := by
    apply parse_eq_ok_of_reads (r := [])
    simp only [String.reduceToList]
    exact .literal rfl rfl (.whole rfl rfl .nil) rfl
  have herror : parse .strict "\x7bné, foo \x7d" = .error ⟨.unknownType "foo", ⟨0, 5, 6⟩, ⟨0, 9, 10⟩⟩ := by
    have hread : readElements .strict .top ['\x7b', 'n', 'é', ',', ' ', 'f', 'o', 'o', ' ', '\x7d'] =
        .error ⟨.unknownType "foo", ['f', 'o', 'o', ' ', '\x7d'], ['\x7d']⟩ :=
      readElements_argument rfl
    rw [parse_eq]
    simp only [String.reduceToList, hread]
    rfl
  have happend := parse_append_of_parse (by decide) (by decide) hfirst
  exact ⟨hfirst, (happend _).1 _ hsecond, herror, (happend _).2 _ herror⟩

end MessageFormat.Pattern
