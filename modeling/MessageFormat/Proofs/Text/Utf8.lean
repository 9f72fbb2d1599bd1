import MessageFormat.Text.Utf8
import Mathlib.Data.List.Basic

/-! The bytes of a text are decoded to the text, whether the reader refuses ill-formed bytes or replaces them:
no stretch of the encoding of a text is ill formed. -/

namespace MessageFormat.Utf8

/-- The bytes of a text. -/
def encode (s : String) : List UInt8 :=
  s.toUTF8.data.toList

theorem encode_eq_flatMap (s : String) : encode s = s.toList.flatMap String.utf8EncodeChar := by
  rw [encode, String.toUTF8_eq_toByteArray, ← String.utf8Encode_toList, List.utf8Encode,
    List.toList_data_toByteArray]

section Bytes

variable {b : UInt8} {bytes : List UInt8}

/-- A byte that may go on with an encoding. -/
def Continues (low high b : UInt8) : Prop :=
  low.toNat ≤ b.toNat ∧ b.toNat ≤ high.toNat

variable {low high : UInt8} {value : Nat}

theorem Continues.le_and_le (h : Continues low high b) : (low ≤ b && b ≤ high) = true := by
  simpa [Continues, UInt8.le_iff_toNat_le] using h

theorem scan_last (h : Continues low high b) :
    scan (.inside low high value 0) (b :: bytes) =
      some (Char.ofNat (value * 64 + (b.toNat - 0x80))) :: scan .between bytes := by
  rw [scan, step, if_pos h.le_and_le]
  rfl

theorem scan_more (more : Nat) (h : Continues low high b) :
    scan (.inside low high value (more + 1)) (b :: bytes) =
      scan (.inside 0x80 0xBF (value * 64 + (b.toNat - 0x80)) more) bytes := by
  rw [scan, step, if_pos h.le_and_le]
  rfl

theorem scan_first {state : State} (h : first b = ([], state)) :
    scan .between (b :: bytes) = scan state bytes := by
  rw [scan, step, h]
  rfl

theorem scan_single (h : b.toNat < 0x80) :
    scan .between (b :: bytes) = some (Char.ofNat b.toNat) :: scan .between bytes := by
  have hfirst : first b = ([some (Char.ofNat b.toNat)], .between) := by
    simp [first, h]
  rw [scan, step, hfirst]
  rfl

/-- The first byte of two. -/
theorem first_double (hlow : 0xC2 ≤ b.toNat) (hhigh : b.toNat ≤ 0xDF) :
    first b = ([], .inside 0x80 0xBF (b.toNat - 0xC0) 0) := by
  unfold first
  grind

/-- The first byte of three. The second one must make the value neither too small nor a surrogate. -/
theorem first_triple (hlow : 0xE0 ≤ b.toNat) (hhigh : b.toNat ≤ 0xEF) :
    first b = ([], .inside (if b.toNat = 0xE0 then 0xA0 else 0x80) (if b.toNat = 0xED then 0x9F else 0xBF)
      (b.toNat - 0xE0) 1) := by
  unfold first
  grind

/-- The first byte of four. The second one must make the value neither too small nor too large. -/
theorem first_quadruple (hlow : 0xF0 ≤ b.toNat) (hhigh : b.toNat ≤ 0xF4) :
    first b = ([], .inside (if b.toNat = 0xF0 then 0x90 else 0x80) (if b.toNat = 0xF4 then 0x8F else 0xBF)
      (b.toNat - 0xF0) 2) := by
  unfold first
  grind

end Bytes

/-! ### Texts -/

theorem toNat_ofNat {n : Nat} (h : n < 256) : (UInt8.ofNat n).toNat = n :=
  UInt8.toNat_ofNat_of_lt' h

/-- A byte behind the first one holds six bits. -/
theorem toNat_tail (n : Nat) : (UInt8.ofNat (n % 64 + 128)).toNat = n % 64 + 128 :=
  toNat_ofNat (by omega)

theorem continues_tail (n : Nat) : Continues 0x80 0xBF (UInt8.ofNat (n % 64 + 128)) := by
  rw [Continues, toNat_tail]
  constructor
  · exact Nat.le_add_left _ _
  · show n % 64 + 128 ≤ 191
    omega

/-- The bytes of a character show the character. -/
theorem scan_utf8EncodeChar (c : Char) (bytes : List UInt8) :
    scan .between (String.utf8EncodeChar c ++ bytes) = some c :: scan .between bytes := by
  have hvalid : c.toNat < 0xD800 ∨ 0xDFFF < c.toNat ∧ c.toNat < 0x110000 := c.valid
  have hshown : ∀ n, n = c.toNat → some (Char.ofNat n) = some c := by
    rintro _ rfl
    rw [Char.ofNat_toNat]
  unfold String.utf8EncodeChar
  rw [show c.val.toNat = c.toNat from rfl]
  dsimp only
  split
  · have hb := toNat_ofNat (n := c.toNat) (by omega)
    rw [List.singleton_append, scan_single (by omega), hb, Char.ofNat_toNat]
  split
  · have hb := toNat_ofNat (n := c.toNat / 64 % 32 + 192) (by omega)
    rw [List.cons_append, List.singleton_append, scan_first (first_double (by omega) (by omega)),
      scan_last (continues_tail _), toNat_tail, hb, hshown]
    omega
  split
  · have hb := toNat_ofNat (n := c.toNat / 4096 % 16 + 224) (by omega)
    have hsecond : Continues (if c.toNat / 4096 % 16 + 224 = 0xE0 then 0xA0 else 0x80)
        (if c.toNat / 4096 % 16 + 224 = 0xED then 0x9F else 0xBF) (UInt8.ofNat (c.toNat / 64 % 64 + 128)) := by
      rw [Continues, toNat_tail]
      constructor <;> split <;> simp <;> omega
    rw [List.cons_append, List.cons_append, List.singleton_append,
      scan_first (first_triple (by omega) (by omega)), hb, scan_more 0 hsecond, scan_last (continues_tail _),
      toNat_tail, toNat_tail, hshown]
    omega
  · have hb := toNat_ofNat (n := c.toNat / 262144 % 8 + 240) (by omega)
    have hsecond : Continues (if c.toNat / 262144 % 8 + 240 = 0xF0 then 0x90 else 0x80)
        (if c.toNat / 262144 % 8 + 240 = 0xF4 then 0x8F else 0xBF)
        (UInt8.ofNat (c.toNat / 4096 % 64 + 128)) := by
      rw [Continues, toNat_tail]
      constructor <;> split <;> simp <;> omega
    rw [List.cons_append, List.cons_append, List.cons_append, List.singleton_append,
      scan_first (first_quadruple (by omega) (by omega)), hb, scan_more 1 hsecond,
      scan_more 0 (continues_tail _), scan_last (continues_tail _), toNat_tail, toNat_tail, toNat_tail, hshown]
    omega

theorem encode_append (s t : String) : encode (s ++ t) = encode s ++ encode t := by
  rw [encode_eq_flatMap, encode_eq_flatMap, encode_eq_flatMap, String.toList_append, List.flatMap_append]

theorem length_encode (s : String) : (encode s).length = s.utf8ByteSize := rfl

theorem scan_encode_append (s : String) (bytes : List UInt8) :
    scan .between (encode s ++ bytes) = s.toList.map some ++ scan .between bytes := by
  rw [encode_eq_flatMap]
  induction s.toList with
  | nil => rfl
  | cons c cs ih =>
      rw [List.flatMap_cons, List.append_assoc, scan_utf8EncodeChar, ih, List.map_cons, List.cons_append]

theorem scan_encode (s : String) : scan .between (encode s) = s.toList.map some := by
  have hscan := scan_encode_append s []
  rwa [List.append_nil, show scan .between [] = [] from rfl, List.append_nil] at hscan

/-- A text that begins with the bytes of another text begins with that text. -/
theorem exists_append_of_encode_prefix {s t : String} (h : encode s <+: encode t) : ∃ r, t = s ++ r := by
  obtain ⟨bytes, hbytes⟩ := h
  have hscan := scan_encode_append s bytes
  rw [hbytes, scan_encode] at hscan
  obtain ⟨cs, rest, ht, hs, -⟩ := List.map_eq_append_iff.mp hscan
  obtain rfl := List.map_injective_iff.mpr (fun _ _ => Option.some.inj) hs
  refine ⟨.ofList rest, ?_⟩
  rw [← String.ofList_toList (s := t), ht, String.ofList_append, String.ofList_toList]

theorem decodeLossy_encode (s : String) : decodeLossy (encode s) = s := by
  rw [decodeLossy, scan_encode, List.map_map]
  simp [Function.comp_def]

theorem decode?_encode (s : String) : decode? (encode s) = some s := by
  have hall : ∀ cs : List Char, (cs.map some).mapM id = some cs := by
    intro cs
    induction cs with
    | nil => rfl
    | cons c cs ih =>
        rw [List.map_cons, List.mapM_cons, ih]
        rfl
  rw [decode?, scan_encode, hall, Option.map_some, String.ofList_toList]

/-- Only the NUL character has a zero byte. -/
theorem zero_notMem_utf8EncodeChar {c : Char} (h : c ≠ '\x00') : 0 ∉ String.utf8EncodeChar c := by
  have hpos : c.toNat ≠ 0 := by
    intro hzero
    exact h (Char.toNat_inj.mp hzero)
  have hne : ∀ n, 0 < n → n < 256 → (0 : UInt8) ≠ UInt8.ofNat n := by
    intro n hn hlt heq
    have hnat := congrArg UInt8.toNat heq
    rw [toNat_ofNat hlt] at hnat
    exact absurd hnat (Nat.ne_of_lt hn)
  unfold String.utf8EncodeChar
  rw [show c.val.toNat = c.toNat from rfl]
  dsimp only
  split
  · rw [List.mem_singleton]
    exact hne _ (by omega) (by omega)
  split
  · simp only [List.mem_cons, List.not_mem_nil, or_false, not_or]
    exact ⟨hne _ (by omega) (by omega), hne _ (by omega) (by omega)⟩
  split
  · simp only [List.mem_cons, List.not_mem_nil, or_false, not_or]
    exact ⟨hne _ (by omega) (by omega), hne _ (by omega) (by omega), hne _ (by omega) (by omega)⟩
  · simp only [List.mem_cons, List.not_mem_nil, or_false, not_or]
    exact ⟨hne _ (by omega) (by omega), hne _ (by omega) (by omega), hne _ (by omega) (by omega),
      hne _ (by omega) (by omega)⟩

/-- Up to the first zero byte of a text without NUL and with a zero byte behind it, all of the text is read. -/
theorem takeWhile_encode_append_zero {s : String} (h : '\x00' ∉ s.toList) :
    (encode s ++ [0]).takeWhile (· ≠ 0) = encode s := by
  have hne : ∀ b ∈ encode s, b ≠ 0 := by
    rintro b hb rfl
    rw [encode_eq_flatMap] at hb
    obtain ⟨c, hc, hzero⟩ := List.mem_flatMap.mp hb
    have hnul : c ≠ '\x00' := by
      rintro rfl
      exact h hc
    exact zero_notMem_utf8EncodeChar hnul hzero
  rw [List.takeWhile_append_of_pos (by simpa using hne)]
  simp

end MessageFormat.Utf8
