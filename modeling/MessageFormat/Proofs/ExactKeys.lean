import MessageFormat.Proofs.Pattern.Mirror
import MessageFormat.Proofs.Pattern.Parts
import MessageFormat.Proofs.Script.Compilable
import MessageFormat.Script.Source

/-! Exact keys are compared by value. The text of an exact key is read twice, by the reader of patterns to
see whether it is an integer of 64 bits, and by the compiler for the number to compare with. Both take it
for the same integer: a sign and zeros in front, which the key keeps, are gone from the literal, and keys
have the same literal exactly when their integers are the same. Integers of more bits are refused, as the
offset of a plural too. -/

namespace MessageFormat

open Integer (Denotes InRange Canonical)
open Pattern (Chooser Dialect Failure selector offset offsetKeyword readOptions IsExactKey)
open Script (exactText? exactArms)

/-- An exact key of the integer, which has 64 bits. -/
def ExactKeyOf (key : String) (n : Int) : Prop :=
  ∃ digits, key.toList = '=' :: digits ∧ Denotes digits n ∧ InRange n

/-- The literal that a key is compared with, if it is an exact key. -/
def comparand? (key : String) : Option String :=
  (exactText? key).map fun text => (Quantity.ofText text).literal

theorem isExactKey_iff {key : String} : IsExactKey key ↔ ∃ n, ExactKeyOf key n :=
  exists_comm

/-- A key at an equality sign is an exact key as long as there are digits. -/
theorem selector_eq_ok_iff {k : Chooser} (hk : k.plural = true) {s r : List Char} {key : String} :
    selector k ('=' :: s) = .ok (key, r) ↔
      IsExactKey key ∧ '=' :: s = key.toList ++ r ∧ Stops Char.isDigit r := by
  constructor
  · intro h
    rw [Pattern.selector_exact hk] at h
    unfold Pattern.exactSelector at h
    dsimp only at h
    split at h
    · cases h
    · rename_i n hn
      cases h
      rw [String.toList_ofList, List.cons_append, Integer.scan_append]
      refine ⟨⟨_, n.toInt, String.toList_ofList, ?_, Integer.inRange_toInt n⟩, rfl, Integer.stops_scan s⟩
      exact Integer.read?_eq_some_iff.mp hn
  · rintro ⟨hkey, hs, hr⟩
    rw [hs]
    exact Pattern.selector_exactKey hk hkey hr

section Rejection

variable {digits r w : List Char} {n : Int}

theorem selector_of_not_inRange {k : Chooser} (hk : k.plural = true) (h : Denotes digits n)
    (hn : ¬ InRange n) (hr : Stops Char.isDigit r) :
    selector k ('=' :: (digits ++ r)) =
      Pattern.fail (.invalidExactSelector (.ofList digits)) ('=' :: (digits ++ r)) r := by
  rw [Pattern.selector_exact hk]
  simp only [Pattern.exactSelector, Integer.scan_append_of_denotes h hr,
    Integer.read?_eq_none_of_denotes h hn]

/-- The branches of a plural are refused at a key whose integer has more than 64 bits. -/
theorem readOptions_of_not_inRange (d : Dialect) {k : Chooser} (hk : k.plural = true) (seen : List String)
    (hw : IsBlank w) (h : Denotes digits n) (hn : ¬ InRange n) (hr : Stops Char.isDigit r) :
    readOptions d k seen (w ++ '=' :: (digits ++ r)) =
      Pattern.fail (.invalidExactSelector (.ofList digits)) ('=' :: (digits ++ r)) r := by
  have hskip : skipWhiteSpace (w ++ '=' :: (digits ++ r)) = '=' :: (digits ++ r) :=
    skipWhiteSpace_append hw (stops_cons.mpr rfl)
  have hhead : Pattern.optionHead d k seen (w ++ '=' :: (digits ++ r)) =
      selector k ('=' :: (digits ++ r)) >>= Pattern.branchStart k.name seen ('=' :: (digits ++ r)) := by
    rw [Pattern.optionHead_eq, hskip]
    rfl
  rw [Pattern.readOptions_eq, hhead, selector_of_not_inRange hk h hn hr]
  rfl

theorem offset_of_not_inRange (hw : IsBlank w) (h : Denotes digits n) (hn : ¬ InRange n)
    (hr : Stops Char.isDigit r) :
    offset (offsetKeyword ++ (w ++ (digits ++ r))) =
      Pattern.fail (.invalidOffset (.ofList digits)) (offsetKeyword ++ (w ++ (digits ++ r))) r := by
  have hskip := skipWhiteSpace_append hw (Pattern.stops_isWhiteSpace_of_denotes h r)
  rw [Pattern.offset_keyword_append]
  simp only [Pattern.offsetNumber, hskip, Integer.scan_append_of_denotes h hr,
    Integer.read?_eq_none_of_denotes h hn]

end Rejection

theorem exactArms_source (locale name : String) (branches : Script.Branches) :
    (exactArms name branches).map (fun arm => arm.1.source locale) =
      (branches.filterMap fun branch => comparand? branch.1).map fun literal => name ++ " == " ++ literal := by
  simp only [exactArms, comparand?, List.map_filterMap, Option.map_map, Function.comp_def,
    Script.Test.source_equal]

theorem ExactKeyOf.comparand?_eq {key : String} {n : Int} (h : ExactKeyOf key n) :
    comparand? key = some n.repr := by
  obtain ⟨digits, hkey, hdigits, hn⟩ := h
  rw [comparand?, Script.exactText?_of_toList_eq hkey, Option.map_some, Script.ofText_of_denotes hdigits hn,
    Quantity.literal, Int64.toInt_ofInt_of_le hn.1 hn.2]

theorem ExactKeyOf.comparand?_eq_iff {key : String} {n : Int} (h : ExactKeyOf key n) {t : List Char} :
    comparand? key = some (.ofList t) ↔ Canonical t n := by
  rw [h.comparand?_eq, Integer.canonical_iff, Option.some_inj]
  constructor
  · intro hrepr
    rw [hrepr, String.toList_ofList]
  · intro ht
    rw [ht, String.ofList_toList]

/-- In a plural, the keys at an equality sign are the texts of integers of 64 bits, as long as there are digits.
The literal that is written for such a key is the canonical decimal of its integer, so that two keys are
compared with the same literal exactly when their integers are the same. An integer of more bits is
refused, as a key and as an offset. -/
theorem exact_keys_compare_by_value {k : Chooser} (hk : k.plural = true) :
    (∀ s key r, selector k ('=' :: s) = .ok (key, r) ↔
      (∃ n, ExactKeyOf key n) ∧ '=' :: s = key.toList ++ r ∧ Stops Char.isDigit r) ∧
    (∀ locale name branches, (exactArms name branches).map (fun arm => arm.1.source locale) =
      (branches.filterMap fun branch => comparand? branch.1).map fun literal =>
        name ++ " == " ++ literal) ∧
    (∀ key n, ExactKeyOf key n → ∀ t, comparand? key = some (.ofList t) ↔ Canonical t n) ∧
    (∀ key key' n n', ExactKeyOf key n → ExactKeyOf key' n' →
      (comparand? key = comparand? key' ↔ n = n')) ∧
    ∀ w digits n r, IsBlank w → Denotes digits n → Stops Char.isDigit r →
      (InRange n →
        selector k ('=' :: (digits ++ r)) = .ok (.ofList ('=' :: digits), r) ∧
        ∃ m : Int64, m.toInt = n ∧
          offset (offsetKeyword ++ (w ++ (digits ++ r))) = .ok (m, skipWhiteSpace r)) ∧
      (¬ InRange n →
        (∀ d seen, ∃ f : Failure, f.cause.code = "invalid-plural-selector" ∧
          readOptions d k seen (w ++ '=' :: (digits ++ r)) = .error f) ∧
        ∃ f : Failure, f.cause.code = "invalid-offset" ∧
          offset (offsetKeyword ++ (w ++ (digits ++ r))) = .error f) := by
  refine ⟨?_, exactArms_source, fun _ _ h _ => h.comparand?_eq_iff, ?_, ?_⟩
  · intro s key r
    rw [selector_eq_ok_iff hk, isExactKey_iff]
  · intro key key' n n' h h'
    rw [h.comparand?_eq, h'.comparand?_eq, Option.some_inj, Integer.repr_inj]
  · intro w digits n r hw hdigits hr
    refine ⟨fun hn => ⟨?_, ?_⟩, fun hn => ⟨fun d seen => ?_, ?_⟩⟩
    · rw [selector_eq_ok_iff hk, String.toList_ofList]
      exact ⟨⟨digits, n, String.toList_ofList, hdigits, hn⟩, rfl, hr⟩
    · have hm : (Int64.ofInt n).toInt = n := Int64.toInt_ofInt_of_le hn.1 hn.2
      exact ⟨Int64.ofInt n, hm, Pattern.offset_append (hm.symm ▸ hdigits) hw hr⟩
    · exact ⟨_, rfl, readOptions_of_not_inRange d hk seen hw hdigits hn hr⟩
    · exact ⟨_, rfl, offset_of_not_inRange hw hdigits hn hr⟩

/-- A signed and padded zero, two texts of one integer, the least integer of 64 bits and the first one that is
too great, behind a sign and a zero. -/
theorem exact_keys_compare_by_value_extremes :
    (ExactKeyOf "=-000" 0 ∧ comparand? "=-000" = some "0") ∧
    (ExactKeyOf "=+007" 7 ∧ ExactKeyOf "=7" 7 ∧ comparand? "=+007" = comparand? "=7") ∧
    (Denotes "-9223372036854775808".toList (-9223372036854775808) ∧ InRange (-9223372036854775808) ∧
      ∃ m : Int64, m.toInt = -9223372036854775808 ∧
        offset "offset: -9223372036854775808 ".toList = .ok (m, [])) ∧
    (Denotes "+09223372036854775808".toList 9223372036854775808 ∧ ¬ InRange 9223372036854775808 ∧
      ∃ f : Failure, f.cause.code = "invalid-plural-selector" ∧
        readOptions .strict ⟨"n", true, []⟩ [] " =+09223372036854775808\x7b".toList = .error f) := by
  obtain ⟨-, -, hcanonical, hsame, hread⟩ :=
    exact_keys_compare_by_value (k := ⟨"n", true, []⟩) rfl
  have hzero : ExactKeyOf "=-000" 0 :=
    ⟨"-000".toList, rfl, .minus ⟨by decide, List.all_eq_true.mp rfl⟩, by decide, by decide⟩
  have hpadded : ExactKeyOf "=+007" 7 :=
    ⟨"+007".toList, rfl, .plus ⟨by decide, List.all_eq_true.mp rfl⟩, by decide, by decide⟩
  have hseven : ExactKeyOf "=7" 7 :=
    ⟨"7".toList, rfl, .unsigned ⟨by decide, List.all_eq_true.mp rfl⟩, by decide, by decide⟩
  have hleast : Denotes "-9223372036854775808".toList (-9223372036854775808) :=
    .minus (s := "9223372036854775808".toList) ⟨by decide, List.all_eq_true.mp rfl⟩
  have hgreat : Denotes "+09223372036854775808".toList 9223372036854775808 :=
    .plus (s := "09223372036854775808".toList) ⟨by decide, List.all_eq_true.mp rfl⟩
  have hblank : IsBlank [' '] := List.forall_mem_singleton.mpr rfl
  have hin : InRange (-9223372036854775808) := by constructor <;> decide
  have hout : ¬ InRange 9223372036854775808 := fun h => absurd h.2 (by decide)
  refine ⟨⟨hzero, (hcanonical _ _ hzero ['0']).mpr .zero⟩, ?_, ?_, ?_⟩
  · exact ⟨hpadded, hseven, (hsame _ _ _ _ hpadded hseven).mpr rfl⟩
  · exact ⟨hleast, hin, ((hread [' '] _ _ [' '] hblank hleast (stops_cons.mpr rfl)).1 hin).2⟩
  · refine ⟨hgreat, hout, ?_⟩
    exact ((hread [' '] _ _ ['\x7b'] hblank hgreat (stops_cons.mpr rfl)).2 hout).1 .strict []

end MessageFormat
