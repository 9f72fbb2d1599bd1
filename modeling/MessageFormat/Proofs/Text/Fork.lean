import MessageFormat.Numeral.Integer
import MessageFormat.Proofs.Scanning
import MessageFormat.Proofs.Text.Utf8

/-! Two texts that are the same up to some place and in the two characters behind it, and differ in whatever
comes then. A reader that has not gone past the place and looks at no more than two characters cannot tell the
two texts apart. -/

namespace MessageFormat

/-- Two ways in which a text may go on. Their first two characters are the same, and if one of them ends before
it has two, so does the other. -/
structure Fork where
  one : List Char
  other : List Char
  alike : one.take 2 = other.take 2

namespace Fork

/-- The place where `s` is left lies before the fork, or at it. -/
def Ahead (φ : Fork) (s : List Char) : Prop :=
  φ.one <:+ s

/-- The same place in the two texts: they have the same characters up to the fork. -/
def Twin (φ : Fork) (s s' : List Char) : Prop :=
  ∃ read, s = read ++ φ.one ∧ s' = read ++ φ.other

variable {φ : Fork} {s s' r : List Char} {c : Char} {p : Char → Bool}

theorem head?_eq_of_take_eq {n : Nat} {l l' : List Char} (h : l.take (n + 1) = l'.take (n + 1)) :
    l.head? = l'.head? := by
  have hhead := congrArg List.head? h
  rwa [List.head?_take, List.head?_take, if_neg (Nat.succ_ne_zero n), if_neg (Nat.succ_ne_zero n)] at hhead

theorem Ahead.mono (h : φ.Ahead r) (hr : r <:+ s) : φ.Ahead s :=
  h.trans hr

namespace Twin

theorem cons (h : φ.Twin s s') (c : Char) : φ.Twin (c :: s) (c :: s') := by
  obtain ⟨read, rfl, rfl⟩ := h
  exact ⟨c :: read, rfl, rfl⟩

theorem take_two (h : φ.Twin s s') : s'.take 2 = s.take 2 := by
  obtain ⟨read, rfl, rfl⟩ := h
  have htake : ∀ n ≤ 2, φ.other.take n = φ.one.take n := by
    intro n hn
    have halike := congrArg (List.take n) φ.alike
    rw [List.take_take, List.take_take, Nat.min_eq_left hn] at halike
    exact halike.symm
  rw [List.take_append, List.take_append, htake _ (Nat.sub_le _ _)]

theorem head?_eq (h : φ.Twin s s') : s'.head? = s.head? :=
  head?_eq_of_take_eq h.take_two

theorem eq_nil (h : φ.Twin [] s') : s' = [] :=
  List.head?_eq_none_iff.mp h.head?_eq

theorem stops_iff (h : φ.Twin s s') : Stops p s' ↔ Stops p s := by
  unfold Stops
  rw [h.head?_eq]

/-- The texts go on with the same character, and with the same one after that; what follows the first one is
the same place again unless the fork lies before it. -/
theorem exists_cons (h : φ.Twin (c :: s) s') :
    ∃ r', s' = c :: r' ∧ r'.head? = s.head? ∧ (φ.Ahead s → φ.Twin s r') := by
  have htake := h.take_two
  cases s' with
  | nil => cases htake
  | cons x r' =>
      rw [List.take_succ_cons, List.take_succ_cons] at htake
      obtain ⟨rfl, hrest⟩ := List.cons.inj htake
      refine ⟨r', rfl, head?_eq_of_take_eq hrest, fun hahead => ?_⟩
      obtain ⟨read, hread, hread'⟩ := h
      cases read with
      | nil =>
          have hle := hahead.length_le
          rw [← List.nil_append φ.one, ← hread, List.length_cons] at hle
          omega
      | cons y read => exact ⟨read, (List.cons.inj hread).2, (List.cons.inj hread').2⟩

theorem exists_cons_of_right (h : φ.Twin s (c :: r)) : ∃ t, s = c :: t :=
  List.head?_eq_some_iff.mp h.head?_eq.symm

theorem exists_pair {a b : Char} (h : φ.Twin (a :: b :: s) s') :
    ∃ r', s' = a :: b :: r' ∧ (φ.Ahead s → φ.Twin s r') := by
  obtain ⟨u, rfl, hhead, hu⟩ := h.exists_cons
  obtain ⟨r', rfl⟩ := List.head?_eq_some_iff.mp hhead
  refine ⟨r', rfl, fun hs => ?_⟩
  obtain ⟨_, hr, -, hr'⟩ := (hu (hs.mono (List.suffix_cons b s))).exists_cons
  cases hr
  exact hr' hs

theorem exists_pair_of_right {a b : Char} (h : φ.Twin s (a :: b :: r)) : ∃ t, s = a :: b :: t := by
  obtain ⟨u, rfl⟩ := h.exists_cons_of_right
  obtain ⟨_, hr, hhead, -⟩ := h.exists_cons
  cases hr
  obtain ⟨t, rfl⟩ := List.head?_eq_some_iff.mp hhead.symm
  exact ⟨t, rfl⟩

theorem exists_append {a : List Char} (h : φ.Twin (a ++ s) s') (hs : φ.Ahead s) :
    ∃ r', s' = a ++ r' ∧ φ.Twin s r' := by
  induction a generalizing s' with
  | nil => exact ⟨s', rfl, h⟩
  | cons c a ih =>
      obtain ⟨u, rfl, -, hu⟩ := h.exists_cons
      obtain ⟨r', rfl, hr'⟩ := ih (hu (hs.mono (List.suffix_append a s)))
      exact ⟨r', rfl, hr'⟩

/-- A run of characters that ends before the fork is the same in both texts. -/
theorem dropWhile (h : φ.Twin s s') (hs : φ.Ahead (s.dropWhile p)) :
    s'.takeWhile p = s.takeWhile p ∧ φ.Twin (s.dropWhile p) (s'.dropWhile p) := by
  induction s generalizing s' with
  | nil =>
      obtain rfl := h.eq_nil
      exact ⟨rfl, h⟩
  | cons c s ih =>
      by_cases hc : p c
      · rw [List.dropWhile_cons_of_pos hc] at hs
        obtain ⟨r', rfl, -, hr'⟩ := h.exists_cons
        obtain ⟨htake, hdrop⟩ := ih (hr' (hs.mono (List.dropWhile_suffix p))) hs
        rw [List.takeWhile_cons_of_pos hc, List.takeWhile_cons_of_pos hc, List.dropWhile_cons_of_pos hc,
          List.dropWhile_cons_of_pos hc, htake]
        exact ⟨rfl, hdrop⟩
      · obtain ⟨r', rfl, -, -⟩ := h.exists_cons
        rw [List.takeWhile_cons_of_neg hc, List.takeWhile_cons_of_neg hc, List.dropWhile_cons_of_neg hc,
          List.dropWhile_cons_of_neg hc]
        exact ⟨rfl, h⟩

theorem skipWhiteSpace (h : φ.Twin s s') (hs : φ.Ahead (skipWhiteSpace s)) :
    φ.Twin (skipWhiteSpace s) (skipWhiteSpace s') :=
  (h.dropWhile hs).2

theorem scan (h : φ.Twin s s') (hs : φ.Ahead (Integer.scan s).2) :
    (Integer.scan s').1 = (Integer.scan s).1 ∧ φ.Twin (Integer.scan s).2 (Integer.scan s').2 := by
  unfold Integer.scan at hs ⊢
  split at hs
  · obtain ⟨r', rfl, -, hr'⟩ := h.exists_cons
    obtain ⟨htake, hdrop⟩ := (hr' (hs.mono (List.dropWhile_suffix _))).dropWhile hs
    exact ⟨congrArg ('-' :: ·) htake, hdrop⟩
  · obtain ⟨r', rfl, -, hr'⟩ := h.exists_cons
    obtain ⟨htake, hdrop⟩ := (hr' (hs.mono (List.dropWhile_suffix _))).dropWhile hs
    exact ⟨congrArg ('+' :: ·) htake, hdrop⟩
  · rename_i hminus hplus
    have hdigits := h.dropWhile hs
    split
    · obtain ⟨t, ht⟩ := h.exists_cons_of_right
      exact absurd ht (hminus t)
    · obtain ⟨t, ht⟩ := h.exists_cons_of_right
      exact absurd ht (hplus t)
    · exact hdigits

end Twin
end Fork

/-- The first `n` bytes of the two texts are the same, and so are the two characters behind them. Where one of
the texts ends before it has two more characters, the other one ends there as well. -/
structure AlikeBeyond (n : Nat) (s s' : String) : Prop where
  bytes : (Utf8.encode s').take n = (Utf8.encode s).take n
  next : (Utf8.decodeLossy ((Utf8.encode s').drop n)).toList.take 2 =
    (Utf8.decodeLossy ((Utf8.encode s).drop n)).toList.take 2

/-- If the bytes are those of some text `read`, the other text begins with `read` as well. -/
theorem alikeBeyond_append_iff {read rest s' : String} :
    AlikeBeyond read.utf8ByteSize (read ++ rest) s' ↔
      ∃ rest', s' = read ++ rest' ∧ rest'.toList.take 2 = rest.toList.take 2 := by
  have hbehind : ∀ r : String, Utf8.decodeLossy ((Utf8.encode (read ++ r)).drop read.utf8ByteSize) = r := by
    intro r
    rw [Utf8.encode_append, ← Utf8.length_encode, List.drop_left, Utf8.decodeLossy_encode]
  have hbefore : ∀ r : String, (Utf8.encode (read ++ r)).take read.utf8ByteSize = Utf8.encode read := by
    intro r
    rw [Utf8.encode_append, ← Utf8.length_encode, List.take_left]
  constructor
  · rintro ⟨hbytes, hnext⟩
    rw [hbefore] at hbytes
    obtain ⟨rest', rfl⟩ := Utf8.exists_append_of_encode_prefix (hbytes ▸ List.take_prefix _ (Utf8.encode s'))
    rw [hbehind, hbehind] at hnext
    exact ⟨rest', rfl, hnext⟩
  · rintro ⟨rest', rfl, hnext⟩
    refine ⟨?_, ?_⟩
    · rw [hbefore, hbefore]
    · rw [hbehind, hbehind, hnext]

end MessageFormat
