import MessageFormat.Json.Writer
import MessageFormat.Proofs.Json.Reading
import MessageFormat.Proofs.Numeral.Integer

/-! Strings and integers that were written are read back. Every character of a string comes back from its
escape, and an integer of a machine word comes back as an integer, with its sign and with nothing of what
follows it. -/

namespace MessageFormat.Json

theorem hexValue?_digitChar : ∀ n < 16, hexValue? (Nat.digitChar n) = some n := by
  decide

theorem hexValue?_hexDigit (n : Nat) : hexValue? (hexDigit n) = some (n % 16) :=
  hexValue?_digitChar _ (Nat.mod_lt _ (by decide))

theorem readEscape_control {c : Char} (hc : c.toNat < 0x20) (s : List Char) :
    readEscape ('u' :: '0' :: '0' :: hexDigit (c.toNat / 16) :: hexDigit c.toNat :: s) = .ok (c, s) := by
  have hzero : hexValue? '0' = some 0 := by decide
  have hvalue : ((0 * 16 + 0) * 16 + c.toNat / 16 % 16) * 16 + c.toNat % 16 = c.toNat := by omega
  show readUnicodeEscape ('0' :: '0' :: hexDigit (c.toNat / 16) :: hexDigit c.toNat :: s) = .ok (c, s)
  unfold readUnicodeEscape readHexUnit
  simp only [hzero, hexValue?_hexDigit, bind, Except.bind, hvalue]
  rw [if_neg (by omega), if_neg (by omega), Char.ofNat_toNat]

theorem scanString_escape {c : Char} {x s : List Char} (h : readEscape (x ++ s) = .ok (c, s)) :
    scanString ('\\' :: x ++ s) = scanString s >>= fun tail => .ok (c :: tail.1, tail.2) := by
  rw [List.cons_append, scanString_backslash, h]
  rfl

/-- A character is read back from the way it is written inside a string. -/
theorem scanString_escapeChar (c : Char) (s : List Char) :
    scanString (escapeChar c ++ s) =
      scanString s >>= fun tail => .ok (c :: tail.1, tail.2) := by
  unfold escapeChar
  iterate 7
    split
    · rename_i h
      subst h
      exact scanString_escape rfl
  split
  · rename_i h
    exact scanString_escape (readEscape_control h s)
  · rename_i hquote hslash _ _ _ _ _ h
    exact scanString_plain hquote hslash (Nat.not_lt.mp h)

theorem scanString_write (s r : List Char) :
    scanString (s.flatMap escapeChar ++ '"' :: r) = .ok (s, r) := by
  induction s with
  | nil => exact scanString_quotationMark
  | cons c s ih =>
      rw [List.flatMap_cons, List.append_assoc, scanString_escapeChar, ih]
      rfl

theorem readScalar_writeString (s : String) (r : List Char) :
    readScalar (writeString s ++ r) = .ok (.string s, r) := by
  have h := scanString_write s.toList r
  rw [writeString, List.cons_append, List.append_assoc, List.singleton_append, readScalar_string, h]
  simp [bind, Except.bind]

theorem readKey_writeString (s : String) (r : List Char) :
    readKey (writeString s ++ ':' :: r) = .ok (s, r) := by
  have h := scanString_write s.toList (':' :: r)
  rw [writeString, List.cons_append, List.append_assoc, List.singleton_append, readKey_string, h]
  simp [bind, Except.bind, skipBlanks, isBlank]

/-- A text with which the digits of a number do not go on. -/
def EndsNumber (s : List Char) : Prop :=
  Stops (fun c => c.isDigit || c = '.' || c = 'e' || c = 'E') s

theorem EndsNumber.stops_isDigit {s : List Char} (h : EndsNumber s) : Stops Char.isDigit s := by
  intro c hc
  have := h c hc
  simp only [Bool.or_eq_false_iff] at this
  exact this.1.1.1

theorem EndsNumber.readFraction {s : List Char} (h : EndsNumber s) :
    Json.readFraction s = .ok (none, s) := by
  unfold Json.readFraction
  split
  · exact absurd (stops_cons.mp h) (by decide)
  · rfl

theorem EndsNumber.readExponent {s : List Char} (h : EndsNumber s) :
    Json.readExponent s = .ok (none, s) := by
  unfold Json.readExponent
  split
  · have := stops_cons.mp h
    simp only [Bool.or_eq_false_iff, decide_eq_false_iff_not] at this
    rw [if_neg]
    simpa using ⟨this.1.2, this.2⟩
  · rfl

theorem le_ofDigitChars (s : List Char) (n : Nat) : n ≤ Nat.ofDigitChars 10 s n := by
  rw [Nat.ofDigitChars_eq_ofDigitChars_zero]
  have := Nat.le_mul_of_pos_left n (Nat.pow_pos (n := s.length) (show 0 < 10 by decide))
  omega

/-- Digits of a number that fits a machine word are all taken to it. -/
theorem accumulate_eq (s : List Char) (n : Nat) (h : Nat.ofDigitChars 10 s n < UInt64.size) :
    accumulate n s = (Nat.ofDigitChars 10 s n, s.length) := by
  induction s generalizing n with
  | nil => rfl
  | cons c s ih =>
      rw [Nat.ofDigitChars_cons] at h
      have hle := le_ofDigitChars s (10 * n + (c.toNat - '0'.toNat))
      rw [accumulate, if_pos (Nat.lt_of_le_of_lt hle h), ih _ h, Nat.ofDigitChars_cons]
      rfl

theorem roundDiv_le (num den : Nat) : Binary64.roundDiv num den ≤ num / den + 1 := by
  unfold Binary64.roundDiv
  dsimp only
  split
  · omega
  · split
    · omega
    · omega

theorem roundToDouble_lt {n : Nat} (h : n < UInt64.size) : roundToDouble n < Nat.pow 2 65 := by
  have hlog : n.log2 < 64 := by
    by_cases hn : n = 0
    · subst hn
      decide
    · exact (Nat.log2_lt hn).mpr h
  have hunit : Nat.pow 2 (n.log2 - 52) ≤ Nat.pow 2 11 :=
    Nat.pow_le_pow_right (by decide) (by omega)
  unfold roundToDouble
  dsimp only
  calc
    Binary64.roundDiv n (Nat.pow 2 (n.log2 - 52)) * Nat.pow 2 (n.log2 - 52)
        ≤ (n / Nat.pow 2 (n.log2 - 52) + 1) * Nat.pow 2 (n.log2 - 52) :=
          Nat.mul_le_mul_right _ (roundDiv_le _ _)
    _ = n / Nat.pow 2 (n.log2 - 52) * Nat.pow 2 (n.log2 - 52) + Nat.pow 2 (n.log2 - 52) := by
          rw [Nat.add_mul, Nat.one_mul]
    _ ≤ n + Nat.pow 2 11 := Nat.add_le_add (Nat.div_mul_le_self _ _) hunit
    _ < Nat.pow 2 65 := Nat.lt_of_lt_of_le (Nat.add_lt_add_right h _) (by decide)

theorem outOfRange_eq_false {s : List Char} (h : Nat.ofDigitChars 10 s 0 < UInt64.size) :
    outOfRange s [] 0 = false := by
  have hone : roundToDouble (Nat.pow 10 0) = 1 := by decide
  have hlarge : Nat.pow 2 65 ≤ tooLarge := by decide +kernel
  have hround := roundToDouble_lt h
  unfold outOfRange
  rw [List.append_nil, accumulate_eq s 0 h]
  have hpower : (0 : Int) + s.length - s.length = 0 := by omega
  simp only [hpower, Int.toNat_zero, hone, Nat.mul_one]
  have hnot : ¬ tooLarge ≤ roundToDouble (Nat.ofDigitChars 10 s 0) := by omega
  simp [hnot, maxPowerOfTen]

theorem readUnsigned_digits (negative : Bool) {n : Nat} (hn : n < UInt64.size) {r : List Char}
    (hr : EndsNumber r) :
    readUnsigned negative (Nat.toDigits 10 n ++ r) = .ok (ofDigits negative (Nat.toDigits 10 n), r) := by
  have hdigits := Integer.isDigits_toDigits n
  have hrange : outOfRange (Nat.toDigits 10 n) [] 0 = false :=
    outOfRange_eq_false (by rwa [Nat.ofDigitChars_ten_toDigits])
  unfold readUnsigned
  rw [takeWhile_run_append hdigits.isDigit hr.stops_isDigit,
    dropWhile_run_append hdigits.isDigit hr.stops_isDigit]
  simp only [bind, Except.bind, hr.readFraction, hr.readExponent, List.isEmpty_eq_false_iff.mpr hdigits.ne_nil,
    Integer.toDigits_no_leading_zero, Option.getD_none, hrange]
  simp

/-- The integers that a machine word holds, with a sign or without. -/
def InWord (n : Int) : Prop := -9223372036854775808 ≤ n ∧ n < 18446744073709551616

theorem readNumber_integer {n : Int} (hn : InWord n) {r : List Char} (hr : EndsNumber r) :
    readNumber (n.repr.toList ++ r) = .ok (.integer n, r) := by
  obtain ⟨hlow, hhigh⟩ := hn
  cases n with
  | ofNat n =>
      rw [Int.ofNat_eq_natCast] at hhigh ⊢
      have hsize : n < UInt64.size := by
        show n < 2 ^ 64
        omega
      have hread : readNumber (Nat.toDigits 10 n ++ r) = readUnsigned false (Nat.toDigits 10 n ++ r) := by
        unfold readNumber
        split
        · rename_i t ht
          rcases List.append_eq_cons_iff.mp ht with ⟨hnil, -⟩ | ⟨t, hminus, -⟩
          · exact absurd hnil Nat.toDigits_ne_nil
          · have := (Integer.isDigits_toDigits n).isDigit '-' (hminus ▸ .head _)
            exact absurd this (by decide)
        · rfl
      rw [Integer.toList_repr_natCast, hread, readUnsigned_digits false hsize hr,
        ofDigits, Nat.ofDigitChars_ten_toDigits]
      simp [hsize]
  | negSucc n =>
      have hsize : n + 1 < UInt64.size := by
        show n + 1 < 2 ^ 64
        omega
      rw [Integer.toList_repr_negSucc, List.cons_append]
      show readUnsigned true (Nat.toDigits 10 (n + 1) ++ r) = _
      rw [readUnsigned_digits true hsize hr, ofDigits, Nat.ofDigitChars_ten_toDigits]
      have hfits : 0 < n + 1 ∧ Int64.minValue.toInt ≤ -((n + 1 : Nat) : Int) := by
        rw [Int64.toInt_minValue]
        omega
      simp only [if_pos hfits, if_true]
      rfl

theorem readScalar_number {c : Char} {s : List Char} (hc : c = '-' ∨ c.isDigit) :
    readScalar (c :: s) = readNumber (c :: s) >>= fun n => .ok (.number n.1, n.2) := by
  unfold readScalar
  split
  · contradiction
  iterate 4
    · rename_i h
      obtain rfl := (List.cons.inj h).1
      exact absurd hc (by decide)
  · rename_i h
    obtain rfl := (List.cons.inj h).1
    rw [if_pos (by simpa using hc)]

theorem readScalar_integer {n : Int} (hn : InWord n) {r : List Char} (hr : EndsNumber r) :
    readScalar (n.repr.toList ++ r) = .ok (.ofInt n, r) := by
  have hread := readNumber_integer hn hr
  obtain ⟨c, s, hs, hc⟩ := Integer.repr_eq_cons n
  rw [hs, List.cons_append] at hread ⊢
  rw [readScalar_number hc, hread]
  rfl

end MessageFormat.Json
