import MessageFormat.Numeral.Integer
import MessageFormat.Proofs.Scanning

/-! Which texts are integers and which integers they are. A text of a sign or none and of digits stands
for one integer; the readers of the library accept exactly those texts whose integer has 64 bits, and the
decimal text of an integer stands for it. -/

namespace MessageFormat.Integer

/-- A text made of decimal digits, at least one. -/
structure IsDigits (s : List Char) : Prop where
  ne_nil : s ≠ []
  isDigit : ∀ c ∈ s, c.isDigit

/-- The text is a sign or none and decimal digits, and it stands for the integer. -/
inductive Denotes : List Char → Int → Prop
  | unsigned {s : List Char} (digits : IsDigits s) : Denotes s (Nat.ofDigitChars 10 s 0)
  | plus {s : List Char} (digits : IsDigits s) : Denotes ('+' :: s) (Nat.ofDigitChars 10 s 0)
  | minus {s : List Char} (digits : IsDigits s) : Denotes ('-' :: s) (-(Nat.ofDigitChars 10 s 0 : Int))

/-- The range of the integers of 64 bits with a sign. -/
def InRange (n : Int) : Prop := -9223372036854775808 ≤ n ∧ n < 9223372036854775808

theorem natural?_eq_some_iff {s : List Char} {n : Nat} :
    natural? s = some n ↔ IsDigits s ∧ Nat.ofDigitChars 10 s 0 = n := by
  unfold natural?
  constructor
  · intro h
    split at h
    · rename_i hs
      simp only [Bool.and_eq_true, Bool.not_eq_true', List.isEmpty_eq_false_iff,
        List.all_eq_true] at hs
      exact ⟨⟨hs.1, hs.2⟩, Option.some.inj h⟩
    · cases h
  · rintro ⟨hs, rfl⟩
    rw [if_pos]
    simpa using ⟨hs.ne_nil, hs.isDigit⟩

theorem value?_eq_some_iff {s : List Char} {n : Int} : value? s = some n ↔ Denotes s n := by
  constructor
  · intro h
    unfold value? at h
    split at h <;> obtain ⟨m, hm, rfl⟩ := Option.map_eq_some_iff.mp h <;>
      obtain ⟨k, hk, hm⟩ := Option.bind_eq_some_iff.mp hm <;> cases hm <;>
      obtain ⟨hs, rfl⟩ := natural?_eq_some_iff.mp hk
    · exact .minus hs
    · exact .plus hs
    · exact .unsigned hs
  · intro h
    cases h with
    | plus hs => simp [value?, natural?_eq_some_iff.mpr ⟨hs, rfl⟩]
    | minus hs => simp [value?, natural?_eq_some_iff.mpr ⟨hs, rfl⟩]
    | unsigned hs =>
        unfold value?
        split
        · exact absurd (hs.isDigit '-' (.head _)) (by decide)
        · exact absurd (hs.isDigit '+' (.head _)) (by decide)
        · simp [natural?_eq_some_iff.mpr ⟨hs, rfl⟩]

theorem fits_iff {n : Int} : fits n = true ↔ InRange n := by
  rw [fits, Int64.toInt_minValue, Int64.toInt_maxValue, Bool.and_eq_true, decide_eq_true_eq,
    decide_eq_true_eq, InRange]
  omega

theorem inRange_toInt (n : Int64) : InRange n.toInt :=
  ⟨n.le_toInt, n.toInt_lt⟩

/-- A text is read as an integer of 64 bits exactly when it stands for that integer. -/
theorem read?_eq_some_iff {s : List Char} {n : Int64} : read? s = some n ↔ Denotes s n.toInt := by
  unfold read?
  rw [Option.map_eq_some_iff]
  constructor
  · rintro ⟨m, hm, rfl⟩
    obtain ⟨hm, hfits⟩ := Option.filter_eq_some_iff.mp hm
    obtain ⟨hlow, hhigh⟩ := fits_iff.mp hfits
    rw [Int64.toInt_ofInt_of_le hlow hhigh]
    exact value?_eq_some_iff.mp hm
  · intro h
    refine ⟨n.toInt, ?_, Int64.ofInt_toInt n⟩
    exact Option.filter_eq_some_iff.mpr
      ⟨value?_eq_some_iff.mpr h, fits_iff.mpr (inRange_toInt n)⟩

theorem Denotes.unique {s : List Char} {m n : Int} (hm : Denotes s m) (hn : Denotes s n) : m = n :=
  Option.some.inj ((value?_eq_some_iff.mpr hm).symm.trans (value?_eq_some_iff.mpr hn))

theorem read?_of_denotes {s : List Char} {n : Int} (h : Denotes s n) (hn : InRange n) :
    read? s = some (Int64.ofInt n) := by
  rw [read?_eq_some_iff, Int64.toInt_ofInt_of_le hn.1 hn.2]
  exact h

theorem read?_eq_none_of_denotes {s : List Char} {n : Int} (h : Denotes s n) (hn : ¬ InRange n) :
    read? s = none := by
  rw [Option.eq_none_iff_forall_ne_some]
  intro m hm
  have hmn := (read?_eq_some_iff.mp hm).unique h
  exact hn (hmn ▸ inRange_toInt m)

theorem isDigits_toDigits (n : Nat) : IsDigits (Nat.toDigits 10 n) where
  ne_nil := Nat.toDigits_ne_nil
  isDigit _ hc := Nat.isDigit_of_mem_toDigits (by decide) (by decide) hc

theorem head?_toDigits_ne_zero (n : Nat) (hn : 0 < n) : (Nat.toDigits 10 n).head? ≠ some '0' := by
  induction n using Nat.strongRecOn with
  | _ n ih =>
      by_cases hlt : n < 10
      · rw [Nat.toDigits_of_lt_base hlt, List.head?_cons]
        have hdigit : ∀ m < 10, 0 < m → some (Nat.digitChar m) ≠ some '0' := by decide
        exact hdigit n hlt hn
      · rw [Nat.toDigits_of_base_le (by decide) (Nat.not_lt.mp hlt), List.head?_append]
        have hne := ih (n / 10) (by omega) (by omega)
        cases hd : (Nat.toDigits 10 (n / 10)).head? with
        | none => exact absurd (List.head?_eq_none_iff.mp hd) Nat.toDigits_ne_nil
        | some c =>
            rw [hd] at hne
            exact hne

theorem toDigits_no_leading_zero (n : Nat) :
    ¬ ((Nat.toDigits 10 n).head? = some '0' ∧ 1 < (Nat.toDigits 10 n).length) := by
  rintro ⟨hhead, hlength⟩
  rcases Nat.eq_zero_or_pos n with rfl | hn
  · rw [Nat.toDigits_zero] at hlength
    exact absurd hlength (by decide)
  · exact head?_toDigits_ne_zero n hn hhead

theorem toList_repr_natCast (n : Nat) : (n : Int).repr.toList = Nat.toDigits 10 n := by
  rw [← Nat.toList_repr]
  rfl

theorem toList_repr_negSucc (n : Nat) :
    (Int.negSucc n).repr.toList = '-' :: Nat.toDigits 10 (n + 1) := by
  rw [← Nat.toList_repr, Int.repr, String.toList_append]
  rfl

theorem denotes_repr (n : Int) : Denotes n.repr.toList n := by
  cases n with
  | ofNat n =>
      have h := Denotes.unsigned (isDigits_toDigits n)
      rw [Nat.ofDigitChars_ten_toDigits] at h
      exact toList_repr_natCast n ▸ h
  | negSucc n =>
      have h := Denotes.minus (isDigits_toDigits (n + 1))
      rw [Nat.ofDigitChars_ten_toDigits] at h
      exact toList_repr_negSucc n ▸ h

theorem repr_inj {m n : Int} : m.repr = n.repr ↔ m = n := by
  refine ⟨?_, congrArg _⟩
  intro h
  apply (denotes_repr m).unique
  rw [h]
  exact denotes_repr n

theorem repr_eq_cons (n : Int) : ∃ c s, n.repr.toList = c :: s ∧ (c = '-' ∨ c.isDigit) := by
  cases n with
  | ofNat n =>
      have hdigits := isDigits_toDigits n
      obtain ⟨c, s, hs⟩ := List.exists_cons_of_ne_nil hdigits.ne_nil
      refine ⟨c, s, (toList_repr_natCast n).trans hs, .inr ?_⟩
      exact hdigits.isDigit c (hs ▸ .head _)
  | negSucc n => exact ⟨'-', _, toList_repr_negSucc n, .inl rfl⟩

/-- The text is the decimal of the integer as it is written without a plus sign and without zeros in
front; zero has no sign. -/
inductive Canonical : List Char → Int → Prop
  | zero : Canonical ['0'] 0
  | positive {s : List Char} (digits : IsDigits s) (head : s.head? ≠ some '0') :
      Canonical s (Nat.ofDigitChars 10 s 0)
  | negative {s : List Char} (digits : IsDigits s) (head : s.head? ≠ some '0') :
      Canonical ('-' :: s) (-(Nat.ofDigitChars 10 s 0 : Int))

theorem canonical_repr (n : Int) : Canonical n.repr.toList n := by
  cases n with
  | ofNat n =>
      rcases Nat.eq_zero_or_pos n with rfl | hn
      · exact .zero
      · have h := Canonical.positive (isDigits_toDigits n) (head?_toDigits_ne_zero n hn)
        rw [Nat.ofDigitChars_ten_toDigits] at h
        exact toList_repr_natCast n ▸ h
  | negSucc n =>
      have h := Canonical.negative (isDigits_toDigits (n + 1)) (head?_toDigits_ne_zero _ n.succ_pos)
      rw [Nat.ofDigitChars_ten_toDigits] at h
      exact toList_repr_negSucc n ▸ h

theorem digit_lt_ten {c : Char} (hc : c.isDigit) : c.toNat - '0'.toNat < 10 := by
  have hhigh := (Char.isDigit_iff_toNat.mp hc).2
  have hnine : '9'.toNat = '0'.toNat + 9 := rfl
  omega

theorem toDigits_of_isDigit {c : Char} (hc : c.isDigit) :
    Nat.toDigits 10 (c.toNat - '0'.toNat) = [c] := by
  have hlow := (Char.isDigit_iff_toNat.mp hc).1
  have hlt := digit_lt_ten hc
  rw [Nat.toDigits_of_lt_base hlt, List.singleton_inj, ← Char.toNat_inj,
    Nat.toNat_digitChar_of_lt_ten hlt]
  exact Nat.add_sub_of_le hlow

/-- Digits behind the digits of a number other than zero are digits of the number that both make. -/
theorem toDigits_append_digits {s : List Char} (hs : ∀ c ∈ s, c.isDigit) {n : Nat} (hn : 0 < n) :
    Nat.toDigits 10 n ++ s = Nat.toDigits 10 (Nat.ofDigitChars 10 s n) := by
  induction s generalizing n with
  | nil => rw [List.append_nil, Nat.ofDigitChars_nil]
  | cons c s ih =>
      have hc := hs c (.head _)
      calc Nat.toDigits 10 n ++ c :: s
        _ = Nat.toDigits 10 n ++ Nat.toDigits 10 (c.toNat - '0'.toNat) ++ s := by
            rw [toDigits_of_isDigit hc, List.append_assoc, List.singleton_append]
        _ = Nat.toDigits 10 (10 * n + (c.toNat - '0'.toNat)) ++ s := by
            rw [Nat.toDigits_append_toDigits (by decide) hn (digit_lt_ten hc)]
        _ = Nat.toDigits 10 (Nat.ofDigitChars 10 (c :: s) n) := by
            rw [ih (fun d hd => hs d (.tail _ hd)) (by omega), Nat.ofDigitChars_cons]

theorem toDigits_ofDigitChars {s : List Char} (hs : IsDigits s) (hhead : s.head? ≠ some '0') :
    Nat.toDigits 10 (Nat.ofDigitChars 10 s 0) = s := by
  obtain ⟨c, t, rfl⟩ := List.exists_cons_of_ne_nil hs.ne_nil
  have hc := hs.isDigit c (.head _)
  have hpos : 0 < c.toNat - '0'.toNat := by
    have hlow := (Char.isDigit_iff_toNat.mp hc).1
    have hne : c.toNat ≠ '0'.toNat := fun h => hhead (congrArg some (Char.toNat_inj.mp h))
    omega
  rw [Nat.ofDigitChars_cons, Nat.mul_zero, Nat.zero_add,
    ← toDigits_append_digits (fun d hd => hs.isDigit d (.tail _ hd)) hpos, toDigits_of_isDigit hc]
  rfl

/-- An integer has one canonical decimal. -/
theorem canonical_iff {s : List Char} {n : Int} : Canonical s n ↔ s = n.repr.toList := by
  refine ⟨?_, fun h => h ▸ canonical_repr n⟩
  intro h
  cases h with
  | zero => rfl
  | positive hs hhead => rw [toList_repr_natCast, toDigits_ofDigitChars hs hhead]
  | negative hs hhead =>
      have hdigits := toDigits_ofDigitChars hs hhead
      cases hn : Nat.ofDigitChars 10 _ 0 with
      | zero =>
          rw [hn, Nat.toDigits_zero] at hdigits
          exact absurd (hdigits ▸ rfl) hhead
      | succ n =>
          rw [hn] at hdigits
          rw [← hdigits]
          exact (toList_repr_negSucc n).symm

/-! ### Integers inside a text -/

theorem Denotes.ne_nil {s : List Char} {n : Int} (h : Denotes s n) : s ≠ [] := by
  cases h with
  | unsigned digits => exact digits.ne_nil
  | plus digits | minus digits => exact List.cons_ne_nil _ _

theorem isWhiteSpace_of_denotes {s : List Char} {n : Int} (h : Denotes s n) :
    ∀ c ∈ s, isWhiteSpace c = false := by
  have hdigit : ∀ {s : List Char}, IsDigits s → ∀ c ∈ s, isWhiteSpace c = false := by
    intro s hs c hc
    by_contra hspace
    rw [Bool.not_eq_false] at hspace
    exact Bool.false_ne_true ((isDigit_of_isWhiteSpace hspace).symm.trans (hs.isDigit c hc))
  cases h with
  | unsigned digits => exact hdigit digits
  | plus digits | minus digits => exact List.forall_mem_cons.mpr ⟨rfl, hdigit digits⟩

/-- No digit follows what is read as an integer. -/
theorem stops_scan (s : List Char) : Stops Char.isDigit (scan s).2 := by
  unfold scan
  split <;> exact stops_dropWhile _

theorem scan_of_isDigits {s r : List Char} (hs : IsDigits s) (hr : Stops Char.isDigit r) :
    scan (s ++ r) = (s, r) := by
  unfold scan
  split
  · rename_i t ht
    rcases List.append_eq_cons_iff.mp ht with ⟨rfl, -⟩ | ⟨t, rfl, -⟩
    · exact absurd rfl hs.ne_nil
    · exact absurd (hs.isDigit '-' (.head _)) (by decide)
  · rename_i t ht
    rcases List.append_eq_cons_iff.mp ht with ⟨rfl, -⟩ | ⟨t, rfl, -⟩
    · exact absurd rfl hs.ne_nil
    · exact absurd (hs.isDigit '+' (.head _)) (by decide)
  · rw [takeWhile_run_append hs.isDigit hr, dropWhile_run_append hs.isDigit hr]

/-- The text of an integer is read as a whole when no digit follows it. -/
theorem scan_append_of_denotes {s r : List Char} {n : Int} (h : Denotes s n)
    (hr : Stops Char.isDigit r) : scan (s ++ r) = (s, r) := by
  cases h with
  | unsigned digits => exact scan_of_isDigits digits hr
  | plus digits | minus digits =>
      simp only [List.cons_append, scan]
      rw [takeWhile_run_append digits.isDigit hr, dropWhile_run_append digits.isDigit hr]

end MessageFormat.Integer
