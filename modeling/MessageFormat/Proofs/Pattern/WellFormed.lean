import MessageFormat.Proofs.Numeral.Integer
import MessageFormat.Proofs.Pattern.Derivation

/-! What every message that was read from a pattern has in common. Names, keys, styles and literals have
a form; the keys of a selection are there, are distinct and hold `other` where the dialect asks for it; no
two literals are neighbours, no tag is there in a dialect without tags, and a pound sign is there only
where the nearest selection around it is a plural. The compiler and the JSON form rely on several of
these. -/

namespace MessageFormat.Pattern

/-- The name of an argument or the key of a branch: not empty, without white space and without the
characters that set the parts of an argument apart. -/
def IsName (s : String) : Prop :=
  s ≠ "" ∧ ∀ c ∈ s.toList, isWhiteSpace c = false ∧ isDelimiter c = false

/-- The name of a tag: characters of such names, the first one a letter of ASCII. -/
def IsTagName (s : String) : Prop :=
  (∃ c ∈ s.toList.head?, isTagLetter c) ∧ ∀ c ∈ s.toList, isTagNameChar c

/-- The style of a number: not empty, without braces and without white space at its two ends. -/
def IsStyle (s : String) : Prop :=
  s ≠ "" ∧ (∀ c ∈ s.toList, c ≠ '\x7b' ∧ c ≠ '\x7d') ∧
    Stops isWhiteSpace s.toList ∧ Stops isWhiteSpace s.toList.reverse

/-- An exact key: an equality sign, and the text of an integer of 64 bits. -/
def IsExactKey (key : String) : Prop :=
  ∃ digits n, key.toList = '=' :: digits ∧ Integer.Denotes digits n ∧ Integer.InRange n

/-- A key of a selection; only a plural has exact keys. -/
def IsKey (plural : Bool) (key : String) : Prop :=
  IsName key ∨ plural = true ∧ IsExactKey key

/-- The keys of a selection. -/
structure KeysWellFormed (d : Dialect) (plural : Bool) (keys : List String) : Prop where
  ne_nil : keys ≠ []
  nodup : keys.Nodup
  other_mem : d.requiresOther = true → otherKey ∈ keys
  isKey : ∀ key ∈ keys, IsKey plural key

mutual

/-- An element as it stands in a message that was read; `inPlural` says whether the nearest selection
around it is a plural. -/
def ElementWellFormed (d : Dialect) (inPlural : Bool) : Element → Prop
  | .literal text => text ≠ ""
  | .argument name => IsName name
  | .number name style => IsName name ∧ ∀ s ∈ style, IsStyle s
  | .date name _ => IsName name
  | .time name _ => IsName name
  | .select name options =>
    IsName name ∧ KeysWellFormed d false (options.map Prod.fst) ∧ BranchesWellFormed d false options
  | .plural name _ _ options =>
    IsName name ∧ KeysWellFormed d true (options.map Prod.fst) ∧ BranchesWellFormed d true options
  | .pound => inPlural = true
  | .tag name children => d.tags = true ∧ IsTagName name ∧ WellFormed d inPlural children

/-- Elements as they follow each other in a message that was read. -/
def WellFormed (d : Dialect) (inPlural : Bool) : List Element → Prop
  | [] => True
  | e :: es =>
    ElementWellFormed d inPlural e ∧ (e.isLiteral → ∀ next ∈ es.head?, ¬ next.isLiteral) ∧
      WellFormed d inPlural es

/-- The branches of a selection in a message that was read; `inPlural` says whether it is a plural. -/
def BranchesWellFormed (d : Dialect) (inPlural : Bool) : List (String × List Element) → Prop
  | [] => True
  | (_, branch) :: options => WellFormed d inPlural branch ∧ BranchesWellFormed d inPlural options

end

theorem isNameChar_iff {c : Char} :
    isNameChar c = true ↔ isWhiteSpace c = false ∧ isDelimiter c = false := by
  simp [isNameChar]

theorem isName_leadingName {s : List Char} (h : leadingName s ≠ "") : IsName (leadingName s) := by
  refine ⟨h, ?_⟩
  intro c hc
  rw [leadingName, String.toList_ofList] at hc
  exact isNameChar_iff.mp (List.mem_takeWhile_imp hc)

theorem stops_trim (s : List Char) :
    Stops isWhiteSpace (trim s) ∧ Stops isWhiteSpace (trim s).reverse := by
  have hright : Stops isWhiteSpace (trim s).reverse := by
    rw [trim, List.reverse_reverse]
    exact stops_dropWhile _
  refine ⟨?_, hright⟩
  -- What is dropped at the right end of a text leaves the left end as it was.
  obtain ⟨t, ht⟩ : trim s <+: skipWhiteSpace s := by
    have h := List.dropWhile_suffix (l := (skipWhiteSpace s).reverse) isWhiteSpace
    exact List.reverse_suffix.mp (by rw [trim, List.reverse_reverse]; exact h)
  intro c hc
  have hs : Stops isWhiteSpace (skipWhiteSpace s) := stops_dropWhile s
  refine hs c ?_
  rw [← ht, List.head?_append, Option.mem_def.mp hc]
  rfl

theorem mem_of_mem_trim {c : Char} {s : List Char} (h : c ∈ trim s) : c ∈ s := by
  rw [trim, List.mem_reverse] at h
  have h := (List.dropWhile_suffix isWhiteSpace).subset h
  exact (List.dropWhile_suffix isWhiteSpace).subset (List.mem_reverse.mp h)

theorem isStyle_of_style {start s r : List Char} {text? : Option String}
    (h : style start s = .ok (text?, r)) : ∀ text ∈ text?, IsStyle text := by
  unfold style at h
  split at h
  · cases h
    intro text htext
    cases htext
  · obtain ⟨t, ht, h⟩ := bind_eq_ok.mp h
    dsimp only at h
    split at h
    · cases h
    · rename_i hne
      obtain ⟨u, hu, h⟩ := bind_eq_ok.mp h
      cases h
      intro text htext
      cases htext
      refine ⟨?_, ?_, ?_⟩
      · intro hempty
        exact hne (by simpa using congrArg String.toList hempty)
      · intro c hc
        rw [String.toList_ofList] at hc
        have hstyle := List.mem_takeWhile_imp (mem_of_mem_trim hc)
        simpa [isStyleChar] using hstyle
      · rw [String.toList_ofList]
        exact stops_trim _

theorem isKey_of_selector {k : Chooser} {s r : List Char} {key : String}
    (h : selector k s = .ok (key, r)) : IsKey k.plural key := by
  unfold selector at h
  split at h
  · rename_i hplural
    dsimp only at h
    split at h
    · cases h
    · rename_i n hn
      cases h
      refine Or.inr ⟨hplural, _, n.toInt, String.toList_ofList, ?_, Integer.inRange_toInt n⟩
      exact Integer.read?_eq_some_iff.mp hn
  · split at h
    · cases h
    · rename_i hne
      cases h
      exact Or.inl (isName_leadingName hne)

theorem optionHead_none {d : Dialect} {k : Chooser} {seen : List String} {s r : List Char}
    (h : optionHead d k seen s = .ok (none, r)) :
    seen ≠ [] ∧ (d.requiresOther = true → otherKey ∈ seen) := by
  unfold optionHead at h
  split at h
  · cases h
  · split at h
    · cases h
    · rename_i hne
      split at h
      · cases h
      · rename_i hother
        refine ⟨fun hnil => hne (List.isEmpty_iff.mpr hnil), fun hrequires => ?_⟩
        by_contra hmem
        exact hother (by simpa [hrequires] using hmem)
  · obtain ⟨⟨key, t⟩, hkey, h⟩ := bind_eq_ok.mp h
    dsimp only at h
    split at h
    · cases h
    · obtain ⟨u, hu, h⟩ := bind_eq_ok.mp h
      cases h

theorem optionHead_some {d : Dialect} {k : Chooser} {seen : List String} {s r : List Char}
    {key : String} (h : optionHead d k seen s = .ok (some key, r)) :
    key ∉ seen ∧ IsKey k.plural key := by
  unfold optionHead at h
  split at h
  · cases h
  · split at h
    · cases h
    · split at h
      · cases h
      · cases h
  · obtain ⟨⟨key, t⟩, hkey, h⟩ := bind_eq_ok.mp h
    dsimp only at h
    split at h
    · cases h
    · rename_i hseen
      obtain ⟨u, hu, h⟩ := bind_eq_ok.mp h
      cases h
      exact ⟨fun hmem => hseen (List.contains_iff_mem.mpr hmem), isKey_of_selector hkey⟩

/-- What is known of an argument before its branches are read. An argument without branches is well
formed in every dialect and at every place. -/
def HeadWellFormed : Head → Prop
  | .whole e => (∀ d inPlural, ElementWellFormed d inPlural e) ∧ e.isLiteral = false
  | .select name => IsName name
  | .plural name _ _ => IsName name

theorem headOfType_wellFormed {start s r : List Char}
    {name : String} {type : ArgumentType} {head : Head} (hname : IsName name)
    (h : headOfType start name type s = .ok (head, r)) : HeadWellFormed head := by
  cases type with
  | number =>
      obtain ⟨⟨text?, t⟩, hstyle, h⟩ := bind_eq_ok.mp h
      cases h
      exact ⟨fun _ _ => ⟨hname, isStyle_of_style hstyle⟩, rfl⟩
  | date | time =>
      obtain ⟨⟨text?, t⟩, hstyle, h⟩ := bind_eq_ok.mp h
      cases h
      exact ⟨fun _ _ => hname, rfl⟩
  | select =>
      obtain ⟨t, ht, h⟩ := bind_eq_ok.mp h
      cases h
      exact hname
  | plural kind =>
      obtain ⟨t, ht, h⟩ := bind_eq_ok.mp h
      obtain ⟨⟨n, u⟩, hu, h⟩ := bind_eq_ok.mp h
      cases h
      exact hname

theorem headOfName_wellFormed {start s r : List Char}
    {name : String} {head : Head} (hname : IsName name)
    (h : headOfName start name s = .ok (head, r)) : HeadWellFormed head := by
  unfold headOfName at h
  split at h
  · cases h
    exact ⟨fun _ _ => hname, rfl⟩
  · obtain ⟨t, ht, h⟩ := bind_eq_ok.mp h
    dsimp only at h
    split at h
    · cases h
    · exact headOfType_wellFormed hname h

theorem argumentHead_wellFormed {s r : List Char} {head : Head}
    (h : argumentHead s = .ok (head, r)) : HeadWellFormed head := by
  unfold argumentHead at h
  split at h
  · cases h
  · cases h
  · split at h
    · cases h
    · rename_i hne
      exact headOfName_wellFormed (isName_leadingName hne) h

theorem lead_openingTag {d : Dialect} {σ : Scope} {c : Char} {next? : Option Char}
    (h : lead d σ c next? = .openingTag) : d.tags = true ∧ ∃ x ∈ next?, isTagLetter x := by
  unfold lead at h
  cases next? with
  | none => grind
  | some x => exact ⟨by grind, x, rfl, by grind⟩

theorem lead_pound {d : Dialect} {σ : Scope} {c : Char} {next? : Option Char}
    (h : lead d σ c next? = .pound) : σ.inPlural = true := by
  unfold lead at h
  grind

theorem isTagNameChar_of_isTagLetter {c : Char} (h : isTagLetter c) : isTagNameChar c := by
  have halpha : isAlphanumeric c = true :=
    isAlphanumeric_of_isAlphanum (Bool.or_eq_true_iff.mpr (Or.inl h))
  simp [isTagNameChar, halpha]

theorem isTagName_tagName {s : List Char} (h : ∃ c ∈ s.head?, isTagLetter c) :
    IsTagName (tagName s) := by
  obtain ⟨c, hc, hletter⟩ := h
  rw [IsTagName, tagName, String.toList_ofList]
  refine ⟨⟨c, ?_, hletter⟩, fun x hx => List.mem_takeWhile_imp hx⟩
  rw [List.head?_takeWhile, Option.mem_def.mp hc]
  exact Option.filter_eq_some_iff.mpr ⟨rfl, isTagNameChar_of_isTagLetter hletter⟩

theorem isTagName_of_isTagLetter {c : Char} {name : String} (h : isTagLetter c) (hname : name.toList = [c]) :
    IsTagName name := by
  rw [IsTagName, hname]
  exact ⟨⟨c, rfl, h⟩, List.forall_mem_singleton.mpr (isTagNameChar_of_isTagLetter h)⟩

theorem isTagName_of_tagHead {s r : List Char} {name : String} (h : ∃ c ∈ s.head?, isTagLetter c)
    (hhead : tagHead s = .ok (.opening name, r)) : IsTagName name := by
  unfold tagHead at hhead
  split at hhead
  · cases hhead
  · cases hhead
    exact isTagName_tagName h
  · cases hhead

theorem consLiteral_wellFormed {d : Dialect} {inPlural : Bool} (text : String) {es : List Element}
    (h : WellFormed d inPlural es) : WellFormed d inPlural (consLiteral text es) := by
  unfold consLiteral
  split
  · rename_i next es
    obtain ⟨hnext, hes⟩ := h
    refine ⟨fun hempty => hnext ?_, hes⟩
    exact (String.append_eq_empty_iff.mp hempty).2
  · rename_i hnot
    split
    · exact h
    · rename_i hne
      refine ⟨hne, fun _ next hnext => ?_, h⟩
      cases es with
      | nil => cases hnext
      | cons e es =>
          obtain rfl : e = next := Option.some.inj hnext
          cases e with
          | literal text => exact absurd rfl (hnot text es)
          | _ => exact Bool.false_ne_true

/-! ### Whole messages -/

theorem wellFormed_cons {d : Dialect} {inPlural : Bool} {e : Element} {es : List Element}
    (he : ElementWellFormed d inPlural e) (hliteral : e.isLiteral = false)
    (hes : WellFormed d inPlural es) : WellFormed d inPlural (e :: es) :=
  ⟨he, fun h => absurd h (by simp [hliteral]), hes⟩

/-- The keys that are read behind the keys `seen`: they are new and distinct, and together with the ones
before them they are there and hold `other` where it is asked for. -/
structure KeysFollow (d : Dialect) (k : Chooser) (seen keys : List String) : Prop where
  ne_nil : seen ≠ [] ∨ keys ≠ []
  nodup : keys.Nodup
  fresh : ∀ key ∈ keys, key ∉ seen
  other_mem : d.requiresOther = true → otherKey ∈ seen ∨ otherKey ∈ keys
  isKey : ∀ key ∈ keys, IsKey k.plural key

theorem KeysFollow.keysWellFormed {d : Dialect} {k : Chooser} {keys : List String}
    (h : KeysFollow d k [] keys) : KeysWellFormed d k.plural keys where
  ne_nil := h.ne_nil.resolve_left (fun hne => hne rfl)
  nodup := h.nodup
  other_mem hrequires := (h.other_mem hrequires).resolve_left List.not_mem_nil
  isKey := h.isKey

theorem KeysFollow.cons {d : Dialect} {k : Chooser} {seen keys : List String} {key : String}
    (hseen : key ∉ seen) (hkey : IsKey k.plural key) (h : KeysFollow d k (key :: seen) keys) :
    KeysFollow d k seen (key :: keys) where
  ne_nil := Or.inr (List.cons_ne_nil _ _)
  nodup := List.nodup_cons.mpr ⟨fun hmem => h.fresh key hmem (.head _), h.nodup⟩
  fresh x hx := by
    rcases List.mem_cons.mp hx with rfl | hx
    · exact hseen
    · exact fun hmem => h.fresh x hx (.tail _ hmem)
  other_mem hrequires := by
    rcases h.other_mem hrequires with hother | hother
    · rcases List.mem_cons.mp hother with heq | hother
      · exact Or.inr (heq ▸ .head _)
      · exact Or.inl hother
    · exact Or.inr (.tail _ hother)
  isKey x hx := by
    rcases List.mem_cons.mp hx with rfl | hx
    · exact hkey
    · exact h.isKey x hx

mutual

theorem Reads.wellFormed {d : Dialect} {σ : Scope} {s r : List Char} {es : List Element} :
    Reads d σ s es r → WellFormed d σ.inPlural es
  | .nil => trivial
  | .stop _ => trivial
  | .text _ tail => consLiteral_wellFormed _ tail.wellFormed
  | .pound lead tail => wellFormed_cons (lead_pound lead) rfl tail.wellFormed
  | .whole _ head tail =>
      have ⟨he, hliteral⟩ := argumentHead_wellFormed head
      wellFormed_cons (he d σ.inPlural) hliteral tail.wellFormed
  | .select _ head branches tail =>
      have hname := argumentHead_wellFormed head
      have ⟨hkeys, hbranches⟩ := branches.wellFormed
      wellFormed_cons ⟨hname, hkeys.keysWellFormed, hbranches⟩ rfl tail.wellFormed
  | .plural _ head branches tail =>
      have hname := argumentHead_wellFormed head
      have ⟨hkeys, hbranches⟩ := branches.wellFormed
      wellFormed_cons ⟨hname, hkeys.keysWellFormed, hbranches⟩ rfl tail.wellFormed
  | .selfClosing _ _ tail => consLiteral_wellFormed _ tail.wellFormed
  | .tag lead head inside _ tail =>
      have ⟨htags, hletter⟩ := lead_openingTag lead
      wellFormed_cons ⟨htags, isTagName_of_tagHead hletter head, inside.wellFormed⟩ rfl
        tail.wellFormed

theorem ReadsOptions.wellFormed {d : Dialect} {k : Chooser} {seen : List String} {s r : List Char}
    {os : Options} : ReadsOptions d k seen s os r →
      KeysFollow d k seen (os.map Prod.fst) ∧ BranchesWellFormed d k.plural os
  | .done head =>
      have ⟨hne, hother⟩ := optionHead_none head
      ⟨⟨Or.inl hne, List.nodup_nil, fun _ h => absurd h List.not_mem_nil,
        fun hrequires => Or.inl (hother hrequires), fun _ h => absurd h List.not_mem_nil⟩, trivial⟩
  | .branch head body tail =>
      have ⟨hseen, hkey⟩ := optionHead_some head
      have ⟨hkeys, hbranches⟩ := tail.wellFormed
      ⟨.cons hseen hkey hkeys, body.wellFormed, hbranches⟩

end

/-- Every message that is read from a pattern is well formed. -/
theorem wellFormed_of_parse {d : Dialect} {pattern : String} {es : List Element}
    (h : parse d pattern = .ok es) : WellFormed d false es := by
  obtain ⟨r, hreads⟩ := reads_of_parse h
  exact hreads.wellFormed

theorem wellFormed_of_parse_plural :
    parse .strict "\x7bn, plural, offset:1 =0 \x7bit''s\x7d other \x7b#\x7d\x7d" =
        .ok [.plural "n" .cardinal 1 [("=0", [.literal "it's"]), ("other", [.pound])]] ∧
      WellFormed .strict false
        [.plural "n" .cardinal 1 [("=0", [.literal "it's"]), ("other", [.pound])]] := by
  have h : parse .strict "\x7bn, plural, offset:1 =0 \x7bit''s\x7d other \x7b#\x7d\x7d" =
      .ok [.plural "n" .cardinal 1 [("=0", [.literal "it's"]), ("other", [.pound])]] := by
    apply parse_eq_ok_of_reads (r := [])
    simp only [String.reduceToList]
    refine .plural rfl rfl (.branch rfl (.literal rfl rfl (.stop rfl) rfl) ?_) .nil
    exact .branch rfl (.pound rfl (.stop rfl)) (.done rfl)
  exact ⟨h, wellFormed_of_parse h⟩

end MessageFormat.Pattern
