import MessageFormat.Proofs.Numeral.Integer
import MessageFormat.Proofs.Script.Translation
import Mathlib.Data.List.Basic

/-! Names, literals, calls and tests are read back from their source text, whatever follows it. Each of
them ends before the next token, and none is taken for one of another kind. -/

namespace MessageFormat.Program

theorem skipSpaces_cons {c : Char} (hc : c ≠ ' ') (s : List Char) : skipSpaces (c :: s) = c :: s :=
  dropWhile_eq_self (stops_cons.mpr (by simpa using hc))

@[simp]
theorem token_space (t s : List Char) : token t (' ' :: s) = token t s := rfl

@[simp]
theorem token_singleton {c : Char} (hc : c ≠ ' ') (s : List Char) : token [c] (c :: s) = some s := by
  rw [token, skipSpaces_cons hc]
  exact if_pos rfl

/-- A name begins with a letter or the like and goes on with letters, digits and the like. -/
theorem exists_cons_of_isName {x : String} (hx : isName x) :
    ∃ c s, x.toList = c :: s ∧ TypeExpr.isIdentifierStart c ∧ ∀ d ∈ s, TypeExpr.isIdentifierPart d :=
  TypeExpr.exists_cons_of_isIdentifier (Bool.and_eq_true_iff.mp hx).1

theorem isIdentifierPart_of_mem {x : String} (hx : isName x) {c : Char} (hc : c ∈ x.toList) :
    TypeExpr.isIdentifierPart c :=
  TypeExpr.isIdentifierPart_of_mem (Bool.and_eq_true_iff.mp hx).1 hc

theorem skipSpaces_name {x : String} (hx : isName x) (s : List Char) :
    skipSpaces (x.toList ++ s) = x.toList ++ s := by
  obtain ⟨c, t, ht, hc, -⟩ := exists_cons_of_isName hx
  have hspace : c ≠ ' ' := by
    rintro rfl
    cases hc
  rw [ht]
  exact skipSpaces_cons hspace _

theorem readName_append {x : String} (hx : isName x) {s : List Char}
    (hs : Stops TypeExpr.isIdentifierPart s) : readName (x.toList ++ s) = some (x, s) := by
  unfold readName
  rw [skipSpaces_name hx]
  dsimp only
  rw [takeWhile_run_append (fun _ => isIdentifierPart_of_mem hx) hs,
    dropWhile_run_append (fun _ => isIdentifierPart_of_mem hx) hs, String.ofList_toList]
  exact if_pos hx

theorem readNatural_append (n : Nat) {s : List Char} (hs : Stops Char.isDigit s) :
    readNatural (Nat.toDigits 10 n ++ s) = some (n, s) := by
  have hdigits := Integer.isDigits_toDigits n
  have hzero := Integer.toDigits_no_leading_zero n
  unfold readNatural
  rw [takeWhile_run_append hdigits.isDigit hs, dropWhile_run_append hdigits.isDigit hs]
  dsimp only
  rw [if_neg (by simpa [hdigits.ne_nil] using hzero), Nat.ofDigitChars_ten_toDigits]

theorem readInteger_append (n : Int) {s : List Char} (hs : Stops Char.isDigit s) :
    readInteger (n.repr.toList ++ s) = some (n, s) := by
  cases n with
  | ofNat n =>
      rw [Int.ofNat_eq_natCast, Integer.toList_repr_natCast]
      have hread := readNatural_append n hs
      obtain ⟨c, t, ht⟩ := List.exists_cons_of_ne_nil (Integer.isDigits_toDigits n).ne_nil
      have hdigit := (Integer.isDigits_toDigits n).isDigit c (ht ▸ .head _)
      have hspace : c ≠ ' ' := by
        rintro rfl
        cases hdigit
      rw [ht, List.cons_append] at hread ⊢
      unfold readInteger
      rw [skipSpaces_cons hspace]
      split
      · rename_i hminus
        cases hminus
        cases hdigit
      · rw [hread]
        rfl
  | negSucc n =>
      rw [Integer.toList_repr_negSucc, List.cons_append]
      show (readNatural (Nat.toDigits 10 (n + 1) ++ s)).map _ = _
      rw [readNatural_append (n + 1) hs]
      rfl

theorem readQuoted_cons {c : Char} (hquote : c ≠ '"') (hslash : c ≠ '\\') (hline : isLineTerminator c = false)
    (s : List Char) : readQuoted (c :: s) = (readQuoted s).map fun body => (c :: body.1, body.2) := by
  rw [readQuoted]
  · rw [if_neg (by simp [hline])]
  · rintro rfl
    simp at hquote
  · rintro d t rfl
    simp at hslash

theorem readQuoted_escape {s : List Char} (hs : ∀ c ∈ s, isLineTerminator c = false) (r : List Char) :
    readQuoted (s.flatMap Script.escapeQuotedChar ++ '"' :: r) = some (s, r) := by
  induction s with
  | nil => rfl
  | cons c s ih =>
      have ih := ih fun d hd => hs d (.tail _ hd)
      rw [List.flatMap_cons, List.append_assoc, Script.escapeQuotedChar]
      split
      · show (readQuoted (s.flatMap Script.escapeQuotedChar ++ '"' :: r)).map _ = _
        rw [ih]
        rfl
      · rename_i hc
        simp only [Bool.or_eq_true, decide_eq_true_eq, not_or] at hc
        rw [List.singleton_append, readQuoted_cons hc.2 hc.1 (hs c (.head _)), ih]
        rfl

theorem readText_quote {key : String} (h : Script.Quotable key) (r : List Char) :
    readText ((Script.quote key).toList ++ r) = some (key, r) := by
  have htext : (Script.quote key).toList ++ r =
      '"' :: (key.toList.flatMap Script.escapeQuotedChar ++ '"' :: r) := by
    simp [Script.quote]
  rw [htext, readText, token_singleton (by decide)]
  simp only [bind, Option.bind, readQuoted_escape h, String.ofList_toList]

/-- A text without quotation marks and backslashes stands for itself between quotation marks. -/
theorem readText_plain {s : String} (h : Script.IsPlain s) (r : List Char) :
    readText ('"' :: (s.toList ++ '"' :: r)) = some (s, r) := by
  obtain ⟨hlines, hquote, hslash⟩ := h
  have hplain : s.toList.flatMap Script.escapeQuotedChar = s.toList := by
    have hone : ∀ c ∈ s.toList, Script.escapeQuotedChar c = [c] := by
      intro c hc
      refine if_neg ?_
      simp only [Bool.or_eq_true, decide_eq_true_eq, not_or]
      exact ⟨fun h => hslash (h ▸ hc), fun h => hquote (h ▸ hc)⟩
    rw [List.flatMap_congr hone, List.flatMap_singleton']
  rw [readText, token_singleton (by decide), ← hplain]
  simp only [bind, Option.bind, readQuoted_escape hlines, String.ofList_toList]

/-! ### Atoms -/

@[simp]
theorem readName_space (s : List Char) : readName (' ' :: s) = readName s := rfl

@[simp]
theorem readInteger_space (s : List Char) : readInteger (' ' :: s) = readInteger s := rfl

@[simp]
theorem readAtom_space (s : List Char) : readAtom (' ' :: s) = readAtom s := rfl

theorem token_parenthesis_name {x : String} (hx : isName x) (s : List Char) :
    token ['('] (x.toList ++ s) = none := by
  obtain ⟨c, t, ht, hc, -⟩ := exists_cons_of_isName hx
  have hparenthesis : c ≠ '(' := by
    rintro rfl
    cases hc
  rw [token, skipSpaces_name hx, ht]
  exact if_neg hparenthesis

theorem readReference_source {subject : Script.Subject} (h : isName subject.name) {r : List Char}
    (hr : Stops TypeExpr.isIdentifierPart r) :
    readReference (subject.source.toList ++ r) = some (subject.reference, r) := by
  unfold Script.Subject.source Script.Subject.reference
  by_cases hoffset : subject.offset = 0
  · rw [if_pos hoffset, if_pos hoffset, readReference, token_parenthesis_name h, readName_append h hr]
    rfl
  · rw [if_neg hoffset, if_neg hoffset]
    have htext : ("(" ++ subject.name ++ " - " ++ subject.offset.toInt.repr ++ ")").toList ++ r =
        '(' :: (subject.name.toList ++ ' ' :: '-' :: ' ' :: (subject.offset.toInt.repr.toList ++ ')' :: r)) := by
      simp
    have hname : ∀ s, readName (subject.name.toList ++ ' ' :: s) = some (subject.name, ' ' :: s) :=
      fun s => readName_append h (stops_cons.mpr rfl)
    have hinteger := readInteger_append subject.offset.toInt (s := ')' :: r) (stops_cons.mpr rfl)
    rw [htext]
    simp [readReference, hname, hinteger]

@[simp]
theorem readText_space (s : List Char) : readText (' ' :: s) = readText s := rfl

theorem readConstant_plain {s : String} (h : Script.IsPlain s) (r : List Char) :
    readConstant (' ' :: '"' :: (s.toList ++ '"' :: r)) = some (.text s, r) := by
  rw [readConstant, readText_space, readText_plain h]

theorem isPlain_name (style : DateStyle) : Script.IsPlain style.name := by
  cases style <;> simp [Script.IsPlain, Script.Quotable, DateStyle.name, isLineTerminator]

theorem isPlain_pluralName (kind : PluralKind) : Script.IsPlain kind.name := by
  cases kind <;> simp [Script.IsPlain, Script.Quotable, PluralKind.name, isLineTerminator]

theorem readSetting_append {key : String} (hkey : isName key) {t r : List Char} {c : Constant}
    (hc : readConstant (' ' :: t) = some (c, '\x7d' :: r)) :
    readSetting (',' :: '\x7b' :: (key.toList ++ ':' :: ' ' :: t)) = some (some (key, c), r) := by
  have hname : ∀ s, readName (key.toList ++ ':' :: s) = some (key, ':' :: s) :=
    fun s => readName_append hkey (stops_cons.mpr rfl)
  simp [readSetting, hname, hc]

theorem readSetting_text (key : String) (hkey : isName key) {value : String}
    (hvalue : Script.IsPlain value) (r : List Char) :
    readSetting (',' :: '\x7b' :: (key.toList ++ ':' :: ' ' :: '"' :: (value.toList ++ '"' :: '\x7d' :: r))) =
      some (some (key, .text value), r) :=
  readSetting_append hkey (readConstant_plain hvalue _)

@[simp]
theorem readSetting_space (s : List Char) : readSetting (',' :: ' ' :: s) = readSetting (',' :: s) := rfl

theorem readSetting_settings (f : Script.Formatter) (r : List Char) :
    readSetting (f.settings.toList ++ ')' :: r) = some (f.setting, ')' :: r) := by
  cases f with
  | number style =>
      cases style with
      | plain => rfl
      | percent =>
          have hsettings : (Script.Formatter.number .percent).settings = ", \x7bstyle: \"percent\"\x7d" := rfl
          have hpercent : Script.IsPlain "percent" := by
            simp [Script.IsPlain, Script.Quotable, isLineTerminator]
          have h := readSetting_text "style" rfl hpercent (')' :: r)
          rw [hsettings]
          simpa [Script.Formatter.setting] using h
      | integer =>
          have hsettings : (Script.Formatter.number .integer).settings = ", \x7bmaximumFractionDigits: 0\x7d" := rfl
          have hzero : readConstant (' ' :: '0' :: '\x7d' :: ')' :: r) = some (.integer 0, '\x7d' :: ')' :: r) :=
            rfl
          have hkey : isName "maximumFractionDigits" := rfl
          rw [hsettings]
          simpa [Script.Formatter.setting] using readSetting_append hkey hzero
  | date style =>
      cases style with
      | none => rfl
      | some style =>
          have hsettings : (Script.Formatter.date (some style)).settings =
              ",\x7bdateStyle: \"" ++ style.name ++ "\"\x7d" := rfl
          have h := readSetting_text "dateStyle" rfl (isPlain_name style) (')' :: r)
          rw [hsettings]
          simpa [Script.Formatter.setting] using h
  | time style =>
      cases style with
      | none => rfl
      | some style =>
          have hsettings : (Script.Formatter.time (some style)).settings =
              ",\x7btimeStyle: \"" ++ style.name ++ "\"\x7d" := rfl
          have h := readSetting_text "timeStyle" rfl (isPlain_name style) (')' :: r)
          rw [hsettings]
          simpa [Script.Formatter.setting] using h

/-- A call is read when its settings are. -/
theorem readCall_append {locale constructor method : String} {subject : Script.Subject}
    {setting : Option (String × Constant)} {t r : List Char} (hlocale : Script.IsPlain locale)
    (hconstructor : isName constructor) (hmethod : isName method) (hsubject : isName subject.name)
    (hsetting : ∀ s, readSetting (t ++ ')' :: s) = some (setting, ')' :: s)) :
    readCall (facility.toList ++ '.' :: (constructor.toList ++ '(' :: '"' :: (locale.toList ++ '"' ::
      (t ++ ')' :: '.' :: (method.toList ++ '(' :: (subject.source.toList ++ ')' :: r)))))) =
        some (⟨constructor, locale, setting, method, subject.reference⟩, r) := by
  have hfacility : ∀ s, token facility.toList (facility.toList ++ '.' :: s) = some ('.' :: s) := fun _ => rfl
  have hname : ∀ {x : String}, isName x → ∀ s, readName (x.toList ++ '(' :: s) = some (x, '(' :: s) :=
    fun hx s => readName_append hx (stops_cons.mpr rfl)
  have hargument := readReference_source hsubject (r := ')' :: r) (stops_cons.mpr rfl)
  unfold readCall
  simp [hfacility, hname hconstructor, hname hmethod, readText_plain hlocale, hsetting, hargument]

theorem readAtom_call {s r : List Char} {c : Call} (h : readCall s = some (c, r)) :
    readAtom ('n' :: 'e' :: 'w' :: ' ' :: s) = some (.call c, r) := by
  show (readCall s).map _ = _
  rw [h]
  rfl

theorem readAtom_formatter {locale : String} (hlocale : Script.IsPlain locale) (f : Script.Formatter)
    {subject : Script.Subject} (hsubject : isName subject.name) (r : List Char) :
    readAtom ((f.source locale subject).toList ++ r) = some (.call (f.call locale subject), r) := by
  have hconstructor : isName f.facility := by
    have hnumber : isName "NumberFormat" := by decide
    have hdate : isName "DateTimeFormat" := by decide
    cases f with
    | number => exact hnumber
    | date | time => exact hdate
  have hname : f.constructor = facility ++ "." ++ f.facility := by
    cases f <;> rfl
  have hcall := readCall_append (r := r) hlocale hconstructor (show isName "format" from rfl) hsubject
    (readSetting_settings f)
  have htext : (f.source locale subject).toList ++ r =
      'n' :: 'e' :: 'w' :: ' ' :: (facility.toList ++ '.' :: (f.facility.toList ++ '(' :: '"' ::
        (locale.toList ++ '"' :: (f.settings.toList ++ ')' :: '.' :: ("format".toList ++ '(' ::
          (subject.source.toList ++ ')' :: r)))))) := by
    simp [Script.Formatter.source, hname]
  rw [htext]
  exact readAtom_call hcall

theorem readAtom_category {locale : String} (hlocale : Script.IsPlain locale) (kind : PluralKind)
    {subject : Script.Subject} (hsubject : isName subject.name) (r : List Char) :
    readAtom (("new Intl.PluralRules(\"" ++ locale ++ "\", \x7btype: \"" ++ kind.name ++ "\"\x7d).select(" ++
      subject.source ++ ")").toList ++ r) = some (.call (Script.categoryCall locale kind subject), r) := by
  have hsetting := readSetting_text "type" rfl (isPlain_pluralName kind)
  have hcall := readCall_append (r := r) hlocale (show isName "PluralRules" by decide)
    (show isName "select" from rfl) hsubject
    (t := ", \x7btype: \"".toList ++ kind.name.toList ++ ['"', '\x7d']) (fun s => by
      simpa using hsetting (')' :: s))
  have htext : ("new Intl.PluralRules(\"" ++ locale ++ "\", \x7btype: \"" ++ kind.name ++
      "\"\x7d).select(" ++ subject.source ++ ")").toList ++ r =
        'n' :: 'e' :: 'w' :: ' ' :: (facility.toList ++ '.' :: ("PluralRules".toList ++ '(' :: '"' ::
          (locale.toList ++ '"' :: (", \x7btype: \"".toList ++ kind.name.toList ++ ['"', '\x7d'] ++ ')' ::
            '.' :: ("select".toList ++ '(' :: (subject.source.toList ++ ')' :: r)))))) := by
    simp [facility]
  rw [htext]
  exact readAtom_call hcall

theorem eq_append_of_expect {t s r : List Char} (h : expect t s = some r) : s = t ++ r := by
  fun_induction expect t s with
  | case1 s =>
      cases h
      rfl
  | case2 => cases h
  | case3 t c s ih => rw [ih h, List.cons_append]
  | case4 => cases h

/-- A name is not taken for the word before a call. -/
theorem token_new_name {x : String} (hx : isName x) {s : List Char}
    (hs : Stops TypeExpr.isIdentifierPart s) : token ['n', 'e', 'w', ' '] (x.toList ++ s) = none := by
  rw [token, skipSpaces_name hx]
  by_contra hsome
  obtain ⟨r, hr⟩ := Option.ne_none_iff_exists'.mp hsome
  have hname : x.toList = "new".toList := by
    calc
      x.toList = (x.toList ++ s).takeWhile TypeExpr.isIdentifierPart :=
        (takeWhile_run_append (fun _ => isIdentifierPart_of_mem hx) hs).symm
      _ = ("new".toList ++ ' ' :: r).takeWhile TypeExpr.isIdentifierPart := by
        rw [eq_append_of_expect hr]
        rfl
      _ = "new".toList := takeWhile_run_append (by simp; decide) (stops_cons.mpr rfl)
  rw [String.toList_injective hname] at hx
  cases hx

theorem isAlpha_of_isDigit {c : Char} (h : c.isDigit) : c.isAlpha = false := by
  have hhigh : c.toNat ≤ 57 := of_decide_eq_true (Bool.and_eq_true_iff.mp h).2
  by_contra halpha
  rw [Bool.not_eq_false] at halpha
  rcases Bool.or_eq_true_iff.mp halpha with hupper | hlower
  · have hlow : 65 ≤ c.toNat := (of_decide_eq_true hupper).1
    omega
  · have hlow : 97 ≤ c.toNat := of_decide_eq_true (Bool.and_eq_true_iff.mp hlower).1
    omega

theorem isIdentifierStart_of_isDigit {c : Char} (h : c.isDigit) :
    TypeExpr.isIdentifierStart c = false := by
  have hunderscore : c ≠ '_' := by
    rintro rfl
    cases h
  have hdollar : c ≠ '$' := by
    rintro rfl
    cases h
  simp [TypeExpr.isIdentifierStart, isAlpha_of_isDigit h, hunderscore, hdollar]

theorem readConstant_name {x : String} (hx : isName x) (s : List Char) :
    readConstant (x.toList ++ s) = none := by
  obtain ⟨c, t, ht, hc, -⟩ := exists_cons_of_isName hx
  have hne : ∀ d : Char, TypeExpr.isIdentifierStart d = false → c ≠ d := by
    rintro d hd rfl
    exact Bool.false_ne_true (hd.symm.trans hc)
  have htext : readText (x.toList ++ s) = none := by
    rw [readText, token, skipSpaces_name hx, ht]
    simp [expect, hne '"' rfl]
  have hdigit : c.isDigit = false := by
    by_contra hdigit
    exact hne c (isIdentifierStart_of_isDigit (by simpa using hdigit)) rfl
  have hinteger : readInteger (x.toList ++ s) = none := by
    unfold readInteger
    rw [skipSpaces_name hx, ht]
    split
    · rename_i hminus
      exact absurd (List.cons.inj hminus).1 (hne '-' rfl)
    · simp [readNatural, hdigit]
  rw [readConstant, htext]
  simp [hinteger]

theorem readAtom_name {x : String} (hx : isName x) {s : List Char}
    (hs : Stops TypeExpr.isIdentifierPart s) :
    readAtom (x.toList ++ s) = some (.reference (.name x), s) := by
  rw [readAtom, token_new_name hx hs]
  simp [readConstant_name hx, readReference, token_parenthesis_name hx, readName_append hx hs]

theorem readAtom_quote {key : String} (h : Script.Quotable key) (r : List Char) :
    readAtom ((Script.quote key).toList ++ r) = some (.constant (.text key), r) := by
  have hnew : token ['n', 'e', 'w', ' '] ((Script.quote key).toList ++ r) = none := by
    simp [Script.quote, token, expect, skipSpaces]
  rw [readAtom, hnew]
  simp [readConstant, readText_quote h]

theorem readAtom_integer (n : Int) {r : List Char} (hr : Stops Char.isDigit r) :
    readAtom (n.repr.toList ++ r) = some (.constant (.integer n), r) := by
  obtain ⟨c, t, ht, hc⟩ := Integer.repr_eq_cons n
  have hne : ∀ d : Char, d ≠ '-' → d.isDigit = false → c ≠ d := by
    rintro d hminus hdigit rfl
    exact hc.elim hminus (fun h => Bool.false_ne_true (hdigit.symm.trans h))
  have hspace := hne ' ' (by decide) rfl
  have hnew : token ['n', 'e', 'w', ' '] (n.repr.toList ++ r) = none := by
    rw [ht, List.cons_append, token, skipSpaces_cons hspace]
    exact if_neg (hne 'n' (by decide) rfl)
  have htext : readText (n.repr.toList ++ r) = none := by
    rw [ht, List.cons_append, readText, token, skipSpaces_cons hspace]
    simp [expect, hne '"' (by decide) rfl]
  rw [readAtom, hnew]
  simp [readConstant, htext, readInteger_append n hr]

/-- A text that is neither a space nor a template at its front. -/
def StartsAtom (s : List Char) : Prop :=
  ∃ c t, s = c :: t ∧ c ≠ ' ' ∧ c ≠ '\x60'

theorem startsAtom_name {x : String} (hx : isName x) (s : List Char) : StartsAtom (x.toList ++ s) := by
  obtain ⟨c, t, ht, hc, -⟩ := exists_cons_of_isName hx
  refine ⟨c, t ++ s, by rw [ht, List.cons_append], ?_, ?_⟩
  · rintro rfl
    cases hc
  · rintro rfl
    cases hc

/-- A call begins with a word. -/
theorem startsAtom_formatter (locale : String) (f : Script.Formatter) (subject : Script.Subject)
    (s : List Char) : StartsAtom ((f.source locale subject).toList ++ s) := by
  simp only [Script.Formatter.source, String.toList_append, List.append_assoc]
  exact ⟨'n', _, rfl, by decide, by decide⟩

theorem readComparison_identical (s : List Char) :
    readComparison (' ' :: '=' :: '=' :: '=' :: s) = some (true, s) := rfl

theorem readComparison_equal (s : List Char) :
    readComparison (' ' :: '=' :: '=' :: ' ' :: s) = some (false, ' ' :: s) := rfl

/-- A test is read as what it compares, how, and with what. -/
theorem readTest {locale : String} (hlocale : Script.IsPlain locale) {test : Script.Test}
    (h : test.Readable) (r : List Char) :
    StartsAtom ((test.source locale).toList ++ ' ' :: r) ∧
      ∃ r₁ r₂, readAtom ((test.source locale).toList ++ ' ' :: r) = some (test.left locale, r₁) ∧
        readComparison r₁ = some (test.strict, r₂) ∧ readAtom r₂ = some (test.right, ' ' :: r) := by
  cases test with
  | identical name key =>
      obtain ⟨hname, hkey⟩ := h
      have htext : ((Script.Test.identical name key).source locale).toList ++ ' ' :: r =
          name.toList ++ ' ' :: '=' :: '=' :: '=' :: ' ' :: ((Script.quote key).toList ++ ' ' :: r) := by
        simp [Script.Test.source_identical]
      rw [htext]
      refine ⟨startsAtom_name hname _, _, _, readAtom_name hname (stops_cons.mpr rfl),
        readComparison_identical _, ?_⟩
      rw [readAtom_space]
      exact readAtom_quote hkey _
  | equal name value =>
      obtain ⟨hname, n, rfl⟩ := h
      have htext : ((Script.Test.equal name (.integer n)).source locale).toList ++ ' ' :: r =
          name.toList ++ ' ' :: '=' :: '=' :: ' ' :: (n.toInt.repr.toList ++ ' ' :: r) := by
        simp [Script.Test.source_equal, Quantity.literal]
      rw [htext]
      refine ⟨startsAtom_name hname _, _, _, readAtom_name hname (stops_cons.mpr rfl),
        readComparison_equal _, ?_⟩
      rw [readAtom_space]
      exact readAtom_integer n.toInt (stops_cons.mpr rfl)
  | category kind subject key =>
      obtain ⟨hname, hkey⟩ := h
      have htext : ((Script.Test.category kind subject key).source locale).toList ++ ' ' :: r =
          ("new Intl.PluralRules(\"" ++ locale ++ "\", \x7btype: \"" ++ kind.name ++ "\"\x7d).select(" ++
            subject.source ++ ")").toList ++ ' ' :: '=' :: '=' :: '=' :: ' ' ::
              ((Script.quote key).toList ++ ' ' :: r) := by
        simp [Script.Test.source_category]
      rw [htext]
      refine ⟨?_, _, _, readAtom_category hlocale kind hname _, readComparison_identical _, ?_⟩
      · simp only [String.toList_append, List.append_assoc]
        exact ⟨'n', _, rfl, by decide, by decide⟩
      · rw [readAtom_space]
        exact readAtom_quote hkey _

end MessageFormat.Program
