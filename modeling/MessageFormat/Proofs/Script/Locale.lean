import MessageFormat.Proofs.Script.Containment
import MessageFormat.Proofs.Script.Reordering
import MessageFormat.Proofs.Wire.RoundTrip
import Mathlib.Algebra.BigOperators.Group.List.Basic
import Mathlib.Algebra.Order.Ring.Nat

/-! The locale of a function is only written. The source text of a function has gaps for the locale, one for each
number, date, time and pound sign of the message and one for each category of its plurals, and what stands between
the gaps does not depend on the locale, nor does it depend on the locale whether there is a function. The gaps are
counted twice: in the pieces that are written, and in the elements that the pieces are compiled from. Both counts
agree because every branch of a selection is written once, which holds if no key is there twice. -/

namespace MessageFormat

/-- The text depends on the locale only in that the locale is written in `gaps` places of it. -/
def Interpolates (gaps : Nat) (text : String → String) : Prop :=
  ∃ parts : List String, parts.length = gaps + 1 ∧ ∀ locale, text locale = locale.intercalate parts

/-- The last of the first parts and the first of the second ones are joined where two texts meet. -/
theorem exists_joined_parts {parts parts' : List String} (h : parts ≠ []) (h' : parts' ≠ []) :
    ∃ joined : List String, joined.length + 1 = parts.length + parts'.length ∧
      ∀ locale : String, locale.intercalate joined = locale.intercalate parts ++ locale.intercalate parts' := by
  induction parts with
  | nil => exact absurd rfl h
  | cons part parts ih =>
      by_cases hlast : parts = []
      · subst hlast
        obtain ⟨part', rest, rfl⟩ := List.exists_cons_of_ne_nil h'
        refine ⟨(part ++ part') :: rest, ?_, fun locale => ?_⟩
        · simp only [List.length_cons, List.length_nil]
          omega
        · rw [String.intercalate_cons_append, String.intercalate_singleton]
      · obtain ⟨joined, hlength, hjoined⟩ := ih hlast
        have hpos := List.length_pos_of_ne_nil hlast
        have hpos' := List.length_pos_of_ne_nil h'
        have hne : joined ≠ [] := by
          rintro rfl
          simp only [List.length_nil] at hlength
          omega
        refine ⟨part :: joined, ?_, fun locale => ?_⟩
        · simp only [List.length_cons]
          omega
        · rw [String.intercalate_cons_of_ne_nil hne, String.intercalate_cons_of_ne_nil hlast, hjoined,
            ← String.append_assoc]

namespace Interpolates

variable {gaps gaps' : Nat} {text text' : String → String}

theorem const (s : String) : Interpolates 0 fun _ => s :=
  ⟨[s], rfl, fun _ => String.intercalate_singleton.symm⟩

theorem append (h : Interpolates gaps text) (h' : Interpolates gaps' text') :
    Interpolates (gaps + gaps') fun locale => text locale ++ text' locale := by
  obtain ⟨parts, hlength, htext⟩ := h
  obtain ⟨parts', hlength', htext'⟩ := h'
  obtain ⟨joined, hsum, hjoined⟩ := exists_joined_parts (List.ne_nil_of_length_eq_add_one hlength)
    (List.ne_nil_of_length_eq_add_one hlength')
  refine ⟨joined, by omega, fun locale => ?_⟩
  rw [hjoined, ← htext, ← htext']

/-- What stands around a text has no gaps. -/
theorem around (front back : String) (h : Interpolates gaps text) :
    Interpolates gaps fun locale => front ++ text locale ++ back := by
  simpa using ((const front).append h).append (const back)

theorem eq_of_zero (h : Interpolates 0 text) (locale locale' : String) : text locale = text locale' := by
  obtain ⟨parts, hlength, htext⟩ := h
  obtain ⟨part, rfl⟩ := List.length_eq_one_iff.mp hlength
  rw [htext, htext, String.intercalate_singleton, String.intercalate_singleton]

end Interpolates

namespace Element

/-- Whether a key of a plural is a category: neither the key `other` nor one that begins with an equality sign. -/
def isCategoryKey (key : String) : Bool :=
  key ≠ otherKey && key.toList.head? ≠ some '='

/-- How many gaps an element has by itself, without the elements inside it. -/
def gaps : Element → Nat
  | .number _ _ | .date _ _ | .time _ _ | .pound => 1
  | .plural _ _ _ options => (options.map Prod.fst).countP isCategoryKey
  | .literal _ | .argument _ | .select _ _ | .tag _ _ => 0

/-- How many gaps all elements of a message have, at every depth. -/
def totalGaps (es : List Element) : Nat :=
  ((listDescendants es).map gaps).sum

end Element

namespace Script

/-- How often the locale is written in a test. -/
def Test.gaps : Test → Nat
  | .identical _ _ | .equal _ _ => 0
  | .category _ _ _ => 1

mutual

/-- How often the locale is written in a piece. -/
def pieceGaps : Piece → Nat
  | .text _ | .value _ => 0
  | .formatted _ _ => 1
  | .choice arms none => armsGaps arms
  | .choice arms (some body) => armsGaps arms + piecesGaps body

/-- How often the locale is written in a template. -/
def piecesGaps : List Piece → Nat
  | [] => 0
  | p :: ps => pieceGaps p + piecesGaps ps

/-- How often the locale is written in the arms of a choice. -/
def armsGaps : List (Test × List Piece) → Nat
  | [] => 0
  | (test, body) :: arms => test.gaps + piecesGaps body + armsGaps arms

end

theorem interpolates_formatter (f : Formatter) (subject : Subject) :
    Interpolates 1 fun locale => f.source locale subject := by
  refine ⟨["new " ++ f.constructor ++ "(\"", "\"" ++ f.settings ++ ").format(" ++ subject.source ++ ")"], rfl, ?_⟩
  intro locale
  simp only [Formatter.source, String.intercalate_cons_cons, String.intercalate_singleton, String.append_assoc]

theorem interpolates_test (test : Test) : Interpolates test.gaps fun locale => test.source locale := by
  cases test with
  | identical name key => exact .const (name ++ " === " ++ quote key)
  | equal name value => exact .const (name ++ " == " ++ value.literal)
  | category kind subject key =>
      refine ⟨["new Intl.PluralRules(\"", "\", \x7btype: \"" ++ kind.name ++ "\"\x7d).select(" ++ subject.source ++
        ") === " ++ quote key], rfl, ?_⟩
      intro locale
      simp only [Test.source_category, String.intercalate_cons_cons, String.intercalate_singleton,
        String.append_assoc]

mutual

theorem interpolates_piece : ∀ p : Piece, Interpolates (pieceGaps p) fun locale => pieceSource locale p
  | .text s => .const (escapeTemplate s)
  | .value name => .const (placeholder name)
  | .formatted f subject => (interpolates_formatter f subject).around _ _
  | .choice arms none => ((interpolates_arms arms).append (.const "\"\"")).around _ _
  | .choice arms (some body) =>
      ((interpolates_arms arms).append ((interpolates_pieces body).around _ _)).around _ _

theorem interpolates_pieces : ∀ ps : List Piece,
    Interpolates (piecesGaps ps) fun locale => piecesSource locale ps
  | [] => .const ""
  | p :: ps => (interpolates_piece p).append (interpolates_pieces ps)

theorem interpolates_arms : ∀ arms : List (Test × List Piece),
    Interpolates (armsGaps arms) fun locale => armsSource locale arms
  | [] => .const ""
  | (test, body) :: arms => by
      have htest := (interpolates_test test).append (.const " ? ")
      have hbody := (interpolates_pieces body).around "\x60" "\x60"
      exact ((htest.append hbody).append (.const " : ")).append (interpolates_arms arms)

end

/-- How often the locale is written in what stands behind the arms of a choice. -/
def fallbackGaps (fallback : Option (List Piece)) : Nat :=
  fallback.elim 0 piecesGaps

theorem pieceGaps_choice (arms : List (Test × List Piece)) (fallback : Option (List Piece)) :
    pieceGaps (.choice arms fallback) = armsGaps arms + fallbackGaps fallback := by
  cases fallback <;> rw [pieceGaps] <;> rfl

theorem piecesGaps_append (ps qs : List Piece) : piecesGaps (ps ++ qs) = piecesGaps ps + piecesGaps qs := by
  induction ps with
  | nil => simp [piecesGaps]
  | cons p ps ih =>
      rw [List.cons_append, piecesGaps, piecesGaps, ih]
      omega

theorem armsGaps_append (arms arms' : List (Test × List Piece)) :
    armsGaps (arms ++ arms') = armsGaps arms + armsGaps arms' := by
  induction arms with
  | nil => simp [armsGaps]
  | cons arm arms ih =>
      rw [List.cons_append, armsGaps, armsGaps, ih]
      omega

theorem exactText?_isSome_iff (key : String) : (exactText? key).isSome ↔ key.toList.head? = some '=' := by
  unfold exactText?
  split
  · rename_i s hs
    simp [hs]
  · rename_i hne
    simp only [Option.isSome_none, Bool.false_eq_true, false_iff]
    intro hhead
    obtain ⟨s, hs⟩ := List.head?_eq_some_iff.mp hhead
    exact hne s hs

theorem countP_keys_eq_sum {α : Type} (p : String → Bool) (branches : List (String × α)) :
    (branches.map Prod.fst).countP p = (branches.map fun branch => if p branch.1 then 1 else 0).sum := by
  induction branches with
  | nil => rfl
  | cons branch branches ih =>
      rw [List.map_cons, List.countP_cons, ih, List.map_cons, List.sum_cons, Nat.add_comm]

section Branches

variable {branches : Branches}

/-- The arms of a group are counted branch by branch, where a branch without a test counts nothing. -/
theorem armsGaps_groupArms (f : String → Option Test) (branches : Branches) :
    armsGaps (groupArms f branches) =
      (branches.map fun branch => (f branch.1).elim 0 fun test => test.gaps + piecesGaps branch.2).sum := by
  induction branches with
  | nil => rfl
  | cons branch branches ih =>
      rw [groupArms] at ih
      rw [List.map_cons, List.sum_cons, ← ih, groupArms]
      cases htest : f branch.1 with
      | none =>
          rw [List.filterMap_cons_none (by simp [htest]), Option.elim_none, Nat.zero_add]
      | some test =>
          rw [List.filterMap_cons_some (b := (test, branch.2)) (by simp [htest]), armsGaps, Option.elim_some]

/-- The fallback of a choice is the one branch that there is for all other keys. -/
theorem fallbackGaps_lookup (hkeys : (branches.map Prod.fst).Nodup) :
    fallbackGaps (branches.lookup otherKey) =
      (branches.map fun branch => if branch.1 = otherKey then piecesGaps branch.2 else 0).sum := by
  induction branches with
  | nil => rfl
  | cons branch branches ih =>
      obtain ⟨key, body⟩ := branch
      obtain ⟨hkey, hkeys⟩ := List.nodup_cons.mp hkeys
      rw [List.map_cons, List.sum_cons, ← ih hkeys, List.lookup_cons]
      by_cases hother : key = otherKey
      · subst hother
        have hnone : branches.lookup otherKey = none := by
          apply List.lookup_eq_none_iff.mpr
          intro branch hbranch
          apply bne_iff_ne.mpr
          intro heq
          exact hkey (List.mem_map.mpr ⟨branch, hbranch, heq.symm⟩)
        rw [hnone]
        simp [fallbackGaps]
      · have hne : (otherKey == key) = false := beq_false_of_ne (Ne.symm hother)
        rw [hne, if_neg hother, Nat.zero_add]

theorem gaps_selectPiece (name : String) (hkeys : (branches.map Prod.fst).Nodup) :
    pieceGaps (selectPiece name branches) = (branches.map fun branch => piecesGaps branch.2).sum := by
  rw [selectPiece_eq, pieceGaps_choice, armsGaps_groupArms, fallbackGaps_lookup hkeys, ← List.sum_map_add]
  congr 2
  funext branch
  by_cases hkey : branch.1 = otherKey
  · simp [selectTest, hkey]
  · simp [selectTest, hkey, Test.gaps]

/-- A branch of a plural is written behind the test of an exact key, behind that of a category, or as the fallback, and
only the second of these tests has a gap. -/
theorem gaps_pluralBranch (kind : PluralKind) (subject : Subject) (key : String) (gaps : Nat) :
    ((exactTest subject.name key).elim 0 fun test => test.gaps + gaps) +
        ((categoryTest kind subject key).elim 0 fun test => test.gaps + gaps) +
      (if key = otherKey then gaps else 0) = gaps + if Element.isCategoryKey key then 1 else 0 := by
  unfold exactTest categoryTest Element.isCategoryKey
  by_cases hother : key = otherKey
  · subst hother
    simp [exactText?_otherKey]
  · have hhead := exactText?_isSome_iff key
    cases hexact : exactText? key with
    | none =>
        rw [hexact] at hhead
        simp [hother, ← hhead, Test.gaps, Nat.add_comm]
    | some text =>
        rw [hexact] at hhead
        simp [hother, ← hhead, Test.gaps]

theorem gaps_pluralPiece (kind : PluralKind) (subject : Subject) (hkeys : (branches.map Prod.fst).Nodup) :
    pieceGaps (pluralPiece kind subject branches) =
      (branches.map fun branch => piecesGaps branch.2).sum +
        (branches.map Prod.fst).countP Element.isCategoryKey := by
  rw [pluralPiece, exactArms_eq, categoryArms_eq, pieceGaps_choice, armsGaps_append, armsGaps_groupArms,
    armsGaps_groupArms, fallbackGaps_lookup hkeys, countP_keys_eq_sum, ← List.sum_map_add, ← List.sum_map_add,
    ← List.sum_map_add]
  congr 2
  funext branch
  exact gaps_pluralBranch kind subject branch.1 (piecesGaps branch.2)

end Branches

/-! ### The gaps of a compiled message -/

section Compiled

theorem gaps_tagPieces (name : String) (children : List Piece) :
    piecesGaps (tagPieces name children) = piecesGaps children := by
  simp [tagPieces, piecesGaps_append, piecesGaps, pieceGaps]

theorem piecesGaps_singleton (p : Piece) : piecesGaps [p] = pieceGaps p := by
  rw [piecesGaps, piecesGaps, Nat.add_zero]

mutual

/-- The pieces of an element have a gap for each gap of the element and of the elements inside it. -/
theorem gaps_of_compileElement : ∀ {e : Element} {pound : Option Subject} {pieces : List Piece},
    Wire.ElementKeysDistinct e → compileElement pound e = some pieces →
      piecesGaps pieces = e.gaps + (e.descendants.map Element.gaps).sum
  | .literal _, _, _, _, h | .argument _, _, _, _, h | .number _ _, _, _, _, h | .date _ _, _, _, _, h
  | .time _ _, _, _, _, h => by
      cases h
      rfl
  | .pound, _, _, _, h => by
      obtain ⟨subject, -, h⟩ := Option.bind_eq_some_iff.mp h
      cases h
      rfl
  | .select name options, _, _, ⟨hkeys, hinside⟩, h => by
      obtain ⟨branches, hbranches, h⟩ := Option.bind_eq_some_iff.mp h
      cases h
      have hnodup : (branches.map Prod.fst).Nodup := map_fst_of_compileOptions hbranches ▸ hkeys
      rw [piecesGaps_singleton, gaps_selectPiece name hnodup, gaps_of_compileOptions hinside hbranches,
        Element.descendants, Element.gaps, Nat.zero_add]
  | .plural name kind offset options, _, _, ⟨hkeys, hinside⟩, h => by
      obtain ⟨branches, hbranches, h⟩ := Option.bind_eq_some_iff.mp h
      cases h
      have hfst := map_fst_of_compileOptions hbranches
      rw [piecesGaps_singleton, gaps_pluralPiece kind _ (hfst ▸ hkeys), gaps_of_compileOptions hinside hbranches,
        hfst, Element.descendants, Element.gaps, Nat.add_comm]
  | .tag name children, _, _, hinside, h => by
      obtain ⟨inside, hchildren, h⟩ := Option.bind_eq_some_iff.mp h
      cases h
      rw [gaps_tagPieces, gaps_of_compileList hinside hchildren, Element.descendants, Element.gaps, Nat.zero_add]

theorem gaps_of_compileList : ∀ {es : List Element} {pound : Option Subject} {pieces : List Piece},
    Wire.KeysDistinct es → compileList pound es = some pieces →
      piecesGaps pieces = ((Element.listDescendants es).map Element.gaps).sum
  | [], _, _, _, h => by
      cases h
      rfl
  | e :: es, _, _, ⟨he, hes⟩, h => by
      obtain ⟨first, hfirst, h⟩ := Option.bind_eq_some_iff.mp h
      obtain ⟨rest, hrest, h⟩ := Option.bind_eq_some_iff.mp h
      cases h
      rw [piecesGaps_append, gaps_of_compileElement he hfirst, gaps_of_compileList hes hrest,
        Element.listDescendants, List.map_cons, List.map_append, List.sum_cons, List.sum_append, Nat.add_assoc]

theorem gaps_of_compileOptions : ∀ {options : Options} {pound : Option Subject} {branches : Branches},
    Wire.BranchKeysDistinct options → compileOptions pound options = some branches →
      (branches.map fun branch => piecesGaps branch.2).sum =
        ((Element.optionDescendants options).map Element.gaps).sum
  | [], _, _, _, h => by
      cases h
      rfl
  | (key, branch) :: options, _, _, ⟨hbranch, hoptions⟩, h => by
      obtain ⟨body, hbody, h⟩ := Option.bind_eq_some_iff.mp h
      obtain ⟨rest, hrest, h⟩ := Option.bind_eq_some_iff.mp h
      cases h
      rw [List.map_cons, List.sum_cons, gaps_of_compileList hbranch hbody, gaps_of_compileOptions hoptions hrest,
        Element.optionDescendants, List.map_append, List.sum_append]

end

end Compiled

theorem interpolates_source (script : Script) :
    Interpolates (piecesGaps script.body) fun locale => script.source locale := by
  simp only [source_eq_signature_append]
  simpa [template] using (Interpolates.const (signature script.parameters)).append
    ((interpolates_pieces script.body).around "\x60" "\x60")

end Script

namespace Message

/-- Either the message has no function for any locale, or its functions have a gap for the locale for each gap of its
elements. -/
theorem compileElements_interpolates {es : List Element} (h : Wire.KeysDistinct es) :
    (∃ source, Interpolates (Element.totalGaps es) source ∧
        ∀ locale, compileElements es locale = .ok (source locale)) ∨
      ∀ locale, compileElements es locale = .error .strayPound := by
  simp only [compileElements_eq, Script.ofElements?]
  cases hbody : Script.compileList none es with
  | none => exact Or.inr fun _ => rfl
  | some body =>
      have hgaps : Script.piecesGaps body = Element.totalGaps es := Script.gaps_of_compileList h hbody
      refine Or.inl ⟨_, ?_, fun _ => rfl⟩
      rw [← hgaps]
      exact Script.interpolates_source ⟨Element.names es, body⟩

/-- The source text of the function of a message is made of parts that are the same for all locales, with the locale
between each two of them, and there is one part more than the message has numbers, dates, times, pound signs and
categories; or the message has no function for any locale. A message without any of these has the same function, or
none, for all locales. -/
theorem compileElements_writes_locale_in_gaps {es : List Element} (h : Wire.KeysDistinct es) :
    ((∃ parts : List String, parts.length = Element.totalGaps es + 1 ∧
        ∀ locale : String, compileElements es locale = .ok (locale.intercalate parts)) ∨
      ∀ locale, compileElements es locale = .error .strayPound) ∧
    (Element.totalGaps es = 0 → ∀ locale locale', compileElements es locale = compileElements es locale') := by
  rcases compileElements_interpolates h with ⟨source, hsource, hcompile⟩ | herror
  · constructor
    · obtain ⟨parts, hlength, hparts⟩ := hsource
      refine Or.inl ⟨parts, hlength, fun locale => ?_⟩
      rw [hcompile, hparts]
    · intro hzero locale locale'
      rw [hzero] at hsource
      rw [hcompile, hcompile, hsource.eq_of_zero locale locale']
  · refine ⟨Or.inr herror, fun _ locale locale' => ?_⟩
    rw [herror, herror]

/-- All elements that have a gap, and plurals with all kinds of keys, inside each other. -/
def gapped : List Element :=
  [.date "d" (some .long),
    .plural "n" .ordinal 1
      [("=1", [.time "t" none]), ("one", [.tag "b" [.pound]]),
        ("other", [.plural "m" .cardinal 0 [("few", []), ("many", [.number "x" none])]])]]

theorem keysDistinct_gapped : Wire.KeysDistinct gapped := by
  simp [gapped, Wire.KeysDistinct, Wire.ElementKeysDistinct, Wire.BranchKeysDistinct]

theorem compileElements_writes_locale_in_gaps_nested :
    Wire.KeysDistinct gapped ∧ Element.totalGaps gapped = 7 ∧
      ∃ parts : List String, parts.length = 8 ∧
        ∀ locale : String, compileElements gapped locale = .ok (locale.intercalate parts) := by
  refine ⟨keysDistinct_gapped, by decide, ?_⟩
  refine (compileElements_writes_locale_in_gaps keysDistinct_gapped).1.resolve_right fun herror => ?_
  cases herror "en"

end Message
end MessageFormat
