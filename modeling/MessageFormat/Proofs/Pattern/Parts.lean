import MessageFormat.Proofs.Pattern.Printer
import MessageFormat.Proofs.Pattern.WellFormed

/-! The parts of an argument and of a tag are read back one by one: names, types, styles, offsets, keys and
the names of tags, each with the white space around it and before what may follow it. -/

namespace MessageFormat.Pattern

theorem isWhiteSpace_of_isDelimiter {c : Char} (h : isDelimiter c) : isWhiteSpace c = false := by
  simp only [isDelimiter, Bool.or_eq_true, decide_eq_true_eq] at h
  rcases h with (((((((((rfl | rfl) | rfl) | rfl) | rfl) | rfl) | rfl) | rfl) | rfl) | rfl) | rfl <;> rfl

theorem isNameChar_of_isDelimiter {c : Char} (h : isDelimiter c) : isNameChar c = false := by
  simp [isNameChar, h]

theorem IsName.isNameChar {name : String} (h : IsName name) {c : Char} (hc : c ∈ name.toList) :
    isNameChar c :=
  isNameChar_iff.mpr (h.2 c hc)

theorem IsName.toList_eq_cons {name : String} (h : IsName name) :
    ∃ c s, name.toList = c :: s ∧ isWhiteSpace c = false ∧ isDelimiter c = false := by
  obtain ⟨c, s, hs⟩ := List.exists_cons_of_ne_nil (mt String.toList_eq_nil_iff.mp h.1)
  exact ⟨c, s, hs, h.2 c (hs ▸ .head _)⟩

theorem IsName.stops_isWhiteSpace {name : String} (h : IsName name) (s : List Char) :
    Stops isWhiteSpace (name.toList ++ s) := by
  obtain ⟨c, t, ht, hc, -⟩ := h.toList_eq_cons
  rw [ht]
  exact stops_cons.mpr hc

theorem leadingName_append {name : String} (h : IsName name) {s : List Char} (hs : Stops isNameChar s) :
    leadingName (name.toList ++ s) = name := by
  rw [leadingName, takeWhile_run_append (fun _ => h.isNameChar) hs, String.ofList_toList]

section Arguments

variable {name : String} {w w' r : List Char} {c : Char}

theorem stops_isNameChar (hw : IsBlank w) (hc : isDelimiter c) : Stops isNameChar (w ++ c :: r) :=
  hw.stops isNameChar_of_isWhiteSpace (stops_cons.mpr (isNameChar_of_isDelimiter hc))

theorem afterName_append (h : IsName name) (hw : IsBlank w) (hc : isDelimiter c) :
    afterName (name.toList ++ (w ++ c :: r)) = c :: r := by
  rw [afterName, dropWhile_run_append (fun _ => h.isNameChar) (stops_isNameChar hw hc)]
  exact skipWhiteSpace_append hw (stops_cons.mpr (isWhiteSpace_of_isDelimiter hc))

theorem argumentHead_name (h : IsName name) (hw : IsBlank w) (hw' : IsBlank w') (hc : isDelimiter c) :
    argumentHead (w ++ (name.toList ++ (w' ++ c :: r))) =
      headOfName ('\x7b' :: (w ++ (name.toList ++ (w' ++ c :: r)))) name (c :: r) := by
  have hskip : skipWhiteSpace (w ++ (name.toList ++ (w' ++ c :: r))) = name.toList ++ (w' ++ c :: r) :=
    skipWhiteSpace_append hw (h.stops_isWhiteSpace _)
  obtain ⟨x, t, ht, -, hx⟩ := h.toList_eq_cons
  unfold argumentHead
  dsimp only
  split
  · rename_i hnil
    rw [hskip, ht] at hnil
    cases hnil
  · rename_i hbrace
    rw [hskip, ht] at hbrace
    cases hbrace
    cases hx
  · rw [hskip, leadingName_append h (stops_isNameChar hw' hc), if_neg h.1, afterName_append h hw' hc]

theorem headOfName_type (start : List Char) {keyword : String} {type : ArgumentType} (h : IsName keyword)
    (htype : ArgumentType.ofKeyword? keyword = some type) (hw : IsBlank w) (hw' : IsBlank w')
    (hc : isDelimiter c) :
    headOfName start name (',' :: (w ++ (keyword.toList ++ (w' ++ c :: r)))) =
      headOfType start name type (c :: r) := by
  have hskip : skipWhiteSpace (w ++ (keyword.toList ++ (w' ++ c :: r))) =
      keyword.toList ++ (w' ++ c :: r) := skipWhiteSpace_append hw (h.stops_isWhiteSpace _)
  unfold headOfName
  simp only [expect_cons, bind, Except.bind, hskip, leadingName_append h (stops_isNameChar hw' hc), htype,
    afterName_append h hw' hc]
  rfl

theorem trim_append {style : List Char} (hne : style ≠ []) (hw : IsBlank w) (hw' : IsBlank w')
    (hleft : Stops isWhiteSpace style) (hright : Stops isWhiteSpace style.reverse) :
    trim (w ++ style ++ w') = style := by
  obtain ⟨x, t, rfl⟩ := List.exists_cons_of_ne_nil hne
  have hfront : skipWhiteSpace (w ++ (x :: t ++ w')) = x :: t ++ w' :=
    skipWhiteSpace_append hw (stops_cons.mpr (stops_cons.mp hleft))
  have hback : skipWhiteSpace (w'.reverse ++ (x :: t).reverse) = (x :: t).reverse :=
    skipWhiteSpace_append (fun c hc => hw' c (List.mem_reverse.mp hc)) hright
  rw [trim, List.append_assoc, hfront, List.reverse_append, hback, List.reverse_reverse]

theorem style_append (start : List Char) {style : String} (h : IsStyle style) (hw : IsBlank w) (hw' : IsBlank w') :
    Pattern.style start (',' :: (w ++ style.toList ++ w' ++ '\x7d' :: r)) = .ok (some style, r) := by
  obtain ⟨hne, hchars, hleft, hright⟩ := h
  have hblank : ∀ {w : List Char}, IsBlank w → ∀ c ∈ w, isStyleChar c := by
    intro w hw c hc
    simp [isStyleChar, ne_of_isWhiteSpace (hw c hc) (d := '\x7b') rfl,
      ne_of_isWhiteSpace (hw c hc) (d := '\x7d') rfl]
  have hrun : ∀ c ∈ w ++ style.toList ++ w', isStyleChar c := by
    intro c hc
    rcases List.mem_append.mp hc with hc | hc
    · rcases List.mem_append.mp hc with hc | hc
      · exact hblank hw c hc
      · simpa [isStyleChar] using hchars c hc
    · exact hblank hw' c hc
  have hstop : Stops isStyleChar ('\x7d' :: r) := stops_cons.mpr rfl
  have hne : style.toList ≠ [] := mt String.toList_eq_nil_iff.mp hne
  have htrim := trim_append hne hw hw' hleft hright
  unfold Pattern.style
  simp only [expect_cons, bind, Except.bind, takeWhile_run_append hrun hstop, dropWhile_run_append hrun hstop,
    htrim, List.isEmpty_eq_false_iff.mpr hne, String.ofList_toList]
  rfl

theorem isName_of_ofKeyword? {keyword : String} {type : ArgumentType}
    (h : ArgumentType.ofKeyword? keyword = some type) : IsName keyword := by
  unfold ArgumentType.ofKeyword? at h
  split at h
  iterate 6
    · simp [IsName, isWhiteSpace, isDelimiter]
  · cases h

theorem argumentHead_printType (layout : Layout) {keyword : String} {type : ArgumentType}
    (h : IsName name) (htype : ArgumentType.ofKeyword? keyword = some type) (hc : isDelimiter c) :
    ∃ start, argumentHead (layout.blank 0 ++ (name.toList ++ (layout.blank 1 ++
      ',' :: (layout.blank 2 ++ (keyword.toList ++ (layout.blank 3 ++ c :: r)))))) =
        headOfType start name type (c :: r) := by
  rw [argumentHead_name h (layout.isBlank_blank 0) (layout.isBlank_blank 1) rfl]
  exact ⟨_, headOfName_type _ (isName_of_ofKeyword? htype) htype (layout.isBlank_blank 2) (layout.isBlank_blank 3) hc⟩

theorem style_printStyle (layout : Layout) (start : List Char) {style? : Option String} (h : ∀ s ∈ style?, IsStyle s) :
    Pattern.style start (printStyle layout style? ++ r) = .ok (style?, r) := by
  cases style? with
  | none => rfl
  | some style =>
      have := style_append start (r := r) (h style rfl) (layout.isBlank_blank 4)
        (layout.isBlank_blank 5)
      simpa [printStyle] using this

end Arguments

theorem skipWhiteSpace_idem (s : List Char) : skipWhiteSpace (skipWhiteSpace s) = skipWhiteSpace s :=
  dropWhile_eq_self (stops_dropWhile s)

theorem stops_isWhiteSpace_of_denotes {digits : List Char} {n : Int} (h : Integer.Denotes digits n)
    (s : List Char) : Stops isWhiteSpace (digits ++ s) := by
  obtain ⟨c, t, rfl⟩ := List.exists_cons_of_ne_nil h.ne_nil
  exact stops_cons.mpr (Integer.isWhiteSpace_of_denotes h c (.head _))

theorem offset_append {w s digits : List Char} {n : Int64} (h : Integer.Denotes digits n.toInt)
    (hw : IsBlank w) (hs : Stops Char.isDigit s) :
    offset (offsetKeyword ++ (w ++ (digits ++ s))) = .ok (n, skipWhiteSpace s) := by
  unfold offset
  rw [if_pos (by simp), List.drop_left, skipWhiteSpace_append hw (stops_isWhiteSpace_of_denotes h s)]
  simp only [Integer.scan_append_of_denotes h hs, Integer.read?_eq_some_iff.mpr h]

theorem offset_of_not_prefix {s : List Char} (h : ¬ offsetKeyword <+: s) : offset s = .ok (0, s) := by
  unfold offset
  rw [if_neg (by simpa using h)]

theorem stops_keepApart_append {s : List Char} (hne : s ≠ []) (r : List Char) :
    Stops Char.isDigit (keepApart s ++ r) := by
  obtain ⟨c, t, rfl⟩ := List.exists_cons_of_ne_nil hne
  unfold keepApart
  split
  · exact stops_cons.mpr rfl
  · rename_i hc
    exact stops_cons.mpr (by simpa using hc)

theorem skipWhiteSpace_keepApart_append (s r : List Char) :
    skipWhiteSpace (keepApart s ++ r) = skipWhiteSpace (s ++ r) := by
  unfold keepApart
  split
  · rfl
  · rfl

/-- A printed offset is read as the offset, and what is left are the branches behind it. -/
theorem offset_printOffset {layout : Layout} {n : Int64} {branches r : List Char} (hne : branches ≠ [])
    (h : ¬ offsetKeyword <+: skipWhiteSpace (branches ++ r)) :
    ∃ s, offset (skipWhiteSpace (printOffset layout n branches ++ r)) = .ok (n, s) ∧
      skipWhiteSpace s = skipWhiteSpace (branches ++ r) := by
  by_cases hn : n = 0
  · subst hn
    exact ⟨_, offset_of_not_prefix h, skipWhiteSpace_idem _⟩
  · have hskip : skipWhiteSpace (printOffset layout n branches ++ r) =
        offsetKeyword ++ (layout.blank 5 ++ (n.toInt.repr.toList ++ (keepApart branches ++ r))) := by
      rw [printOffset, if_neg hn]
      simp only [List.append_assoc]
      exact skipWhiteSpace_append (layout.isBlank_blank 4) (stops_cons.mpr rfl)
    have hoffset := offset_append (Integer.denotes_repr n.toInt) (layout.isBlank_blank 5)
      (stops_keepApart_append hne r)
    refine ⟨_, (congrArg offset hskip).trans hoffset, ?_⟩
    rw [skipWhiteSpace_idem, skipWhiteSpace_keepApart_append]

theorem selector_exactKey {k : Chooser} {key : String} (hk : k.plural = true) (h : IsExactKey key)
    {s : List Char} (hs : Stops Char.isDigit s) :
    selector k (key.toList ++ s) = .ok (key, s) := by
  obtain ⟨digits, n, hkey, hdenotes, hrange⟩ := h
  have hread := Integer.read?_of_denotes hdenotes hrange
  have hofList : String.ofList ('=' :: digits) = key := by rw [← hkey, String.ofList_toList]
  unfold selector
  rw [hk, hkey]
  simp only [List.cons_append, Integer.scan_append_of_denotes hdenotes hs, hread, hofList]

theorem selector_name {key : String} (k : Chooser) (h : IsName key) {s : List Char}
    (hs : Stops isNameChar s) : selector k (key.toList ++ s) = .ok (key, s) := by
  obtain ⟨c, t, ht, -, hc⟩ := h.toList_eq_cons
  unfold selector
  split
  · rename_i heq
    rw [ht] at heq
    cases heq
    cases hc
  · rw [leadingName_append h hs, if_neg h.1, dropWhile_run_append (fun _ => h.isNameChar) hs]

section Keys

variable {d : Dialect} {k : Chooser} {seen : List String} {key : String} {w w' r : List Char}

theorem selector_append (h : IsKey k.plural key) (hw : IsBlank w) :
    selector k (key.toList ++ (w ++ '\x7b' :: r)) = .ok (key, w ++ '\x7b' :: r) := by
  rcases h with h | ⟨hk, h⟩
  · exact selector_name k h (stops_isNameChar hw (c := '\x7b') rfl)
  · exact selector_exactKey hk h (hw.stops isDigit_of_isWhiteSpace (stops_cons.mpr rfl))

/-- The first character of a key is no white space and no closing brace. -/
theorem IsKey.toList_eq_cons {plural : Bool} (h : IsKey plural key) :
    ∃ c s, key.toList = c :: s ∧ isWhiteSpace c = false ∧ c ≠ '\x7d' := by
  rcases h with h | ⟨-, digits, n, hkey, -⟩
  · obtain ⟨c, s, hs, hblank, hc⟩ := h.toList_eq_cons
    refine ⟨c, s, hs, hblank, ?_⟩
    rintro rfl
    cases hc
  · exact ⟨'=', digits, hkey, rfl, by decide⟩

theorem skipWhiteSpace_key {plural : Bool} (h : IsKey plural key) (hw : IsBlank w) :
    skipWhiteSpace (w ++ (key.toList ++ r)) = key.toList ++ r := by
  obtain ⟨c, s, hs, hblank, -⟩ := h.toList_eq_cons
  rw [hs]
  exact skipWhiteSpace_append hw (stops_cons.mpr hblank)

theorem optionHead_key (h : IsKey k.plural key) (hseen : key ∉ seen) (hw : IsBlank w)
    (hw' : IsBlank w') :
    optionHead d k seen (w ++ (key.toList ++ (w' ++ '\x7b' :: r))) = .ok (some key, r) := by
  obtain ⟨c, s, hs, -, hc⟩ := h.toList_eq_cons
  have hskip : skipWhiteSpace (w ++ (key.toList ++ (w' ++ '\x7b' :: r))) =
      key.toList ++ (w' ++ '\x7b' :: r) := skipWhiteSpace_key h hw
  have hcontains : seen.contains key = false := by simpa using hseen
  unfold optionHead
  split
  · rename_i hnil
    rw [hskip, hs] at hnil
    cases hnil
  · rename_i hbrace
    rw [hskip, hs] at hbrace
    exact absurd (List.cons.inj hbrace).1 hc
  · rw [hskip, selector_append h hw']
    simp only [bind, Except.bind, hcontains,
      skipWhiteSpace_append hw' (stops_cons.mpr (show isWhiteSpace '\x7b' = false from rfl)), expect_cons]
    rfl

theorem optionHead_close (hne : seen ≠ []) (hother : d.requiresOther = true → otherKey ∈ seen)
    (hw : IsBlank w) : optionHead d k seen (w ++ '\x7d' :: r) = .ok (none, r) := by
  unfold optionHead
  rw [skipWhiteSpace_append hw (stops_cons.mpr rfl)]
  show (if seen.isEmpty then _ else if d.requiresOther && !seen.contains otherKey then _ else _) = _
  rw [if_neg (by simpa using hne), if_neg (by simpa using hother)]

/-- The word before an offset begins no key. -/
theorem not_prefix_key (h : IsKey true key) (hw : IsBlank w) :
    ¬ offsetKeyword <+: key.toList ++ (w ++ '\x7b' :: r) := by
  rintro ⟨t, ht⟩
  have hsplit : offsetKeyword ++ t = "offset".toList ++ ':' :: t := rfl
  rw [hsplit] at ht
  rcases h with h | ⟨-, digits, n, hkey, -⟩
  · have hstops := stops_isNameChar (r := r) hw (c := '\x7b') rfl
    have hname : "offset".toList = key.toList := by
      calc
        "offset".toList = ("offset".toList ++ ':' :: t).takeWhile isNameChar :=
          (takeWhile_run_append (by simp; decide) (stops_cons.mpr rfl)).symm
        _ = (key.toList ++ (w ++ '\x7b' :: r)).takeWhile isNameChar := by rw [ht]
        _ = key.toList := takeWhile_run_append (fun _ => h.isNameChar) hstops
    have hrest : ':' :: t = w ++ '\x7b' :: r := by
      rw [← hname] at ht
      exact List.append_cancel_left ht
    cases w with
    | nil => cases hrest
    | cons x w =>
        cases hrest
        exact Bool.false_ne_true (hw ':' (.head _))
  · rw [hkey] at ht
    cases ht

end Keys

section Tags

variable {d : Dialect} {σ : Scope} {name : String} {w r : List Char}

theorem tagName_append (h : IsTagName name) {s : List Char} (hs : Stops isTagNameChar s) :
    tagName (name.toList ++ s) = name := by
  rw [tagName, takeWhile_run_append h.2 hs, String.ofList_toList]

theorem stops_isTagNameChar (hw : IsBlank w) : Stops isTagNameChar (w ++ '>' :: r) :=
  hw.stops isTagNameChar_of_isWhiteSpace (stops_cons.mpr (by decide +kernel))

theorem skipWhiteSpace_afterTagName (h : IsTagName name) (hw : IsBlank w) :
    skipWhiteSpace (afterTagName (name.toList ++ (w ++ '>' :: r))) = '>' :: r := by
  rw [afterTagName, dropWhile_run_append h.2 (stops_isTagNameChar hw)]
  exact skipWhiteSpace_append hw (stops_cons.mpr rfl)

theorem tagHead_append (h : IsTagName name) (hw : IsBlank w) :
    tagHead (name.toList ++ (w ++ '>' :: r)) = .ok (.opening name, r) := by
  unfold tagHead
  rw [skipWhiteSpace_afterTagName h hw, tagName_append h (stops_isTagNameChar hw)]
  rfl

theorem closingTag_append (start : List Char) (h : IsTagName name) (hw : IsBlank w) :
    closingTag start name ('<' :: '/' :: (name.toList ++ (w ++ '>' :: r))) = .ok r := by
  show (if tagName (name.toList ++ (w ++ '>' :: r)) = name then _ else _) = _
  rw [tagName_append h (stops_isTagNameChar hw), if_pos rfl, skipWhiteSpace_afterTagName h hw, expect_cons]

/-- A tag whose name is one letter opens. -/
theorem tagHead_letter {c : Char} (h : isTagLetter c) (hname : name.toList = [c]) :
    tagHead (c :: '>' :: r) = .ok (.opening name, r) := by
  have hblank : IsBlank [] := by simp [IsBlank]
  have hhead := tagHead_append (isTagName_of_isTagLetter h hname) hblank (r := r)
  rw [hname] at hhead
  exact hhead

/-- A tag whose name is one letter closes. -/
theorem closingTag_letter (start : List Char) {c : Char} (h : isTagLetter c) (hname : name.toList = [c]) :
    closingTag start name ('<' :: '/' :: c :: '>' :: r) = .ok r := by
  have hblank : IsBlank [] := by simp [IsBlank]
  have hclosing := closingTag_append start (isTagName_of_isTagLetter h hname) hblank (r := r)
  rw [hname] at hclosing
  exact hclosing

theorem lead_tag (hd : d.tags = true) (h : IsTagName name) (s : List Char) :
    lead d σ '<' (name.toList ++ s).head? = .openingTag := by
  obtain ⟨⟨c, hc, hletter⟩, -⟩ := h
  have hhead : (name.toList ++ s).head? = some c := by
    rw [List.head?_append, Option.mem_def.mp hc]
    rfl
  have hslash : c ≠ '/' := by
    rintro rfl
    cases hletter
  unfold lead
  simp [hhead, hd, hslash, hletter]

end Tags

end MessageFormat.Pattern
