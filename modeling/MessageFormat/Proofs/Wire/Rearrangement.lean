import MessageFormat.Proofs.Wire.Report
import Mathlib.Logic.Relation

/-! The reader of the JSON form looks members up by their keys. An element is read from a few members, which depend on
its kind, and the wrapper of a branch from one. In which order they stand and what other members stand between them
does not matter, at any depth, neither for what is read nor for the defect that is reported. Arrays and the options of
a selection do have an order. -/

namespace MessageFormat.Wire

/-- The members that an element of a kind is read from. -/
def Kind.keys : Kind → List String
  | .literal | .argument => ["type", "value"]
  | .number | .date | .time => ["type", "value", "style"]
  | .select => ["type", "value", "options"]
  | .plural => ["type", "value", "options", "offset", "pluralType"]
  | .pound => ["type"]
  | .tag => ["type", "value", "children"]

/-- The members that an element is read from. If it is of no known kind, it is refused for the member that should tell
its kind. -/
def elementKeys (json : Json) : List String :=
  (((json.get? "type").bind Json.natural?).bind Kind.ofCode?).elim ["type"] Kind.keys

/-- What a value is read as. -/
inductive Role where
  | elements
  | element
  /-- The object that a branch of a selection is wrapped in. -/
  | wrapper
  deriving DecidableEq, Repr

/-- The members that a value is read from. -/
def Role.keys : Role → Json → List String
  | .elements, _ => []
  | .element, json => elementKeys json
  | .wrapper, _ => ["value"]

/-- The second value differs from the first one at one place. There the members of an object stand in another order, or
there is one more member from which nothing is read. The options of a selection keep their order. -/
inductive Changes : Role → Json → Json → Prop
  | order {role : Role} {members members' : List (String × Json)} (distinct : (members.map Prod.fst).Nodup)
      (perm : members.Perm members') : Changes role (.object members) (.object members')
  | foreign {role : Role} {front back : List (String × Json)} {key : String} (value : Json)
      (unread : key ∉ role.keys (.object (front ++ back))) :
      Changes role (.object (front ++ back)) (.object (front ++ (key, value) :: back))
  | item {front back : List Json} {v v' : Json} (inside : Changes .element v v') :
      Changes .elements (.array (front ++ v :: back)) (.array (front ++ v' :: back))
  | children {front back : List (String × Json)} {v v' : Json} (inside : Changes .elements v v') :
      Changes .element (.object (front ++ ("children", v) :: back)) (.object (front ++ ("children", v') :: back))
  | option {front back first rest : List (String × Json)} {key : String} {v v' : Json}
      (inside : Changes .wrapper v v') :
      Changes .element (.object (front ++ ("options", .object (first ++ (key, v) :: rest)) :: back))
        (.object (front ++ ("options", .object (first ++ (key, v') :: rest)) :: back))
  | branch {front back : List (String × Json)} {v v' : Json} (inside : Changes .elements v v') :
      Changes .wrapper (.object (front ++ ("value", v) :: back)) (.object (front ++ ("value", v') :: back))

/-- The two values differ in the order of members and in members from which nothing is read, at any number of places. -/
def Rearranged : Json → Json → Prop :=
  Relation.EqvGen (Changes .elements)

section Members

variable {members members' front back : List (String × Json)} {key : String}

theorem lookup_eq_of_perm (h : members.Perm members') (hkeys : (members.map Prod.fst).Nodup) (key : String) :
    members.lookup key = members'.lookup key := by
  induction h with
  | nil => rfl
  | cons m _ ih => rw [List.lookup_cons, List.lookup_cons, ih (List.nodup_cons.mp hkeys).2]
  | swap first second _ =>
      obtain ⟨k, v⟩ := first
      obtain ⟨k', v'⟩ := second
      have hne : k ≠ k' := by
        rintro rfl
        exact (List.nodup_cons.mp hkeys).1 (.head _)
      simp only [List.lookup_cons]
      by_cases hkey : key = k
      · subst hkey
        rw [beq_false_of_ne hne]
      · rw [beq_false_of_ne hkey]
  | trans hleft _ ihleft ihright => exact (ihleft hkeys).trans (ihright ((hleft.map Prod.fst).nodup hkeys))

/-- A member is not seen when another key is looked up. -/
theorem get?_insert {k : String} (h : k ≠ key) (value : Json) :
    (Json.object (front ++ (key, value) :: back)).get? k = (Json.object (front ++ back)).get? k := by
  rw [Json.get?, Json.get?, List.lookup_append, List.lookup_append, List.lookup_cons, beq_false_of_ne h]

/-- Where a member gets another value, the one or the other value is found under its key, unless there is one under that
key in front of it. -/
theorem get?_replace (v v' : Json) :
    (Json.object (front ++ (key, v) :: back)).get? key = (Json.object (front ++ (key, v') :: back)).get? key ∨
      (Json.object (front ++ (key, v) :: back)).get? key = some v ∧
        (Json.object (front ++ (key, v') :: back)).get? key = some v' := by
  rw [Json.get?, Json.get?, List.lookup_append, List.lookup_append, List.lookup_cons_self, List.lookup_cons_self]
  cases front.lookup key with
  | none => exact Or.inr ⟨rfl, rfl⟩
  | some _ => exact Or.inl rfl

end Members

/-- The two values are read alike. -/
def SameReading : Role → Json → Json → Prop
  | .elements, v, v' => decode v = decode v'
  | .element, v, v' => decodeElement v = decodeElement v'
  | .wrapper, v, v' => decodeBranch v = decodeBranch v'

theorem elementKeys_of_kindOf {json : Json} {kind : Kind} (h : kindOf json = .ok kind) :
    elementKeys json = kind.keys := by
  unfold kindOf at h
  split at h
  · split at h
    · cases h
    · rename_i v hget
      split at h
      · cases h
      · rename_i code hcode
        split at h
        · cases h
        · rename_i known hkind
          cases h
          rw [elementKeys, hget, Option.bind_some, hcode, Option.bind_some, hkind, Option.elim_some]
  · cases h

theorem type_mem_elementKeys (json : Json) : "type" ∈ elementKeys json := by
  unfold elementKeys
  cases ((json.get? "type").bind Json.natural?).bind Kind.ofCode? with
  | none => exact .head _
  | some kind => cases kind <;> exact .head _

section Element

variable {members members' : List (String × Json)}

theorem kindOf_congr (h : (Json.object members).get? "type" = (Json.object members').get? "type") :
    kindOf (.object members) = kindOf (.object members') := by
  simp only [kindOf, h]

theorem bind_congr_of_ok {ε α β : Type} {x : Except ε α} {f g : α → Except ε β} (h : ∀ a, x = .ok a → f a = g a) :
    x >>= f = x >>= g := by
  cases x with
  | error e => rfl
  | ok a => exact h a rfl

/-- An element is read from the members that its kind has, and from no others. -/
theorem decodeElement_congr
    (hplain : ∀ key ∈ elementKeys (.object members), key ≠ "options" → key ≠ "children" →
      (Json.object members).get? key = (Json.object members').get? key)
    (hoptions : "options" ∈ elementKeys (.object members) →
      decodeOptions (.object members) = decodeOptions (.object members'))
    (hchildren : "children" ∈ elementKeys (.object members) →
      decodeChildren (.object members) = decodeChildren (.object members')) :
    decodeElement (.object members) = decodeElement (.object members') := by
  have htype := hplain "type" (type_mem_elementKeys _) (by decide) (by decide)
  rw [decodeElement_eq, decodeElement_eq, ← kindOf_congr htype]
  refine bind_congr_of_ok fun kind hkind => ?_
  rw [elementKeys_of_kindOf hkind] at hplain hoptions hchildren
  have hvalue (hmem : "value" ∈ kind.keys) : valueText (.object members) = valueText (.object members') := by
    simp only [valueText, hplain "value" hmem (by decide) (by decide)]
  have htext (key : String) (hmem : key ∈ kind.keys) (hkey : key ≠ "options") (hkey' : key ≠ "children") :
      optionalText? key (.object members) = optionalText? key (.object members') := by
    rw [optionalText?, optionalText?, hplain key hmem hkey hkey']
  cases kind with
  | pound => rfl
  | literal | argument => simp only [hvalue (by decide)]
  | number => simp only [hvalue (by decide), htext "style" (by decide) (by decide) (by decide)]
  | date | time => simp only [hvalue (by decide), dateStyle?, htext "style" (by decide) (by decide) (by decide)]
  | select => simp only [hvalue (by decide), hoptions (by decide)]
  | plural =>
      simp only [hvalue (by decide), hoptions (by decide), pluralKind, pluralOffset,
        htext "pluralType" (by decide) (by decide) (by decide), hplain "offset" (by decide) (by decide) (by decide)]
  | tag => simp only [hvalue (by decide), hchildren (by decide)]

theorem decodeOptions_congr (h : (Json.object members).get? "options" = (Json.object members').get? "options") :
    decodeOptions (.object members) = decodeOptions (.object members') := by
  rw [decodeOptions_eq, decodeOptions_eq, h]

theorem decodeChildren_congr (h : (Json.object members).get? "children" = (Json.object members').get? "children") :
    decodeChildren (.object members) = decodeChildren (.object members') := by
  rw [decodeChildren, decodeChildren, h]

theorem decodeBranch_congr (h : (Json.object members).get? "value" = (Json.object members').get? "value") :
    decodeBranch (.object members) = decodeBranch (.object members') := by
  rw [decodeBranch_eq, decodeBranch_eq, h]

end Element

/-- An object whose members look the same from outside is read the same. -/
theorem sameReading_of_get? {role : Role} {members members' : List (String × Json)}
    (h : ∀ key ∈ role.keys (.object members), (Json.object members).get? key = (Json.object members').get? key) :
    SameReading role (.object members) (.object members') := by
  cases role with
  | elements =>
      show decode _ = decode _
      rw [decode, decode]
      all_goals
        intro items hitems
        cases hitems
  | element =>
      exact decodeElement_congr (fun key hkey _ _ => h key hkey) (fun hkey => decodeOptions_congr (h _ hkey))
        fun hkey => decodeChildren_congr (h _ hkey)
  | wrapper => exact decodeBranch_congr (h "value" (.head _))

theorem decodeItems_congr {v v' : Json} (h : decodeElement v = decodeElement v') (front back : List Json) (i : Nat) :
    decodeItems i (front ++ v :: back) = decodeItems i (front ++ v' :: back) := by
  induction front generalizing i with
  | nil => rw [List.nil_append, List.nil_append, decodeItems, decodeItems, h]
  | cons u front ih => rw [List.cons_append, List.cons_append, decodeItems, decodeItems, ih (i + 1)]

theorem decodeBranches_congr {v v' : Json} (h : decodeBranch v = decodeBranch v')
    (front back : List (String × Json)) (key : String) :
    decodeBranches (front ++ (key, v) :: back) = decodeBranches (front ++ (key, v') :: back) := by
  induction front with
  | nil => rw [List.nil_append, List.nil_append, decodeBranches, decodeBranches, h]
  | cons member front ih => rw [List.cons_append, List.cons_append, decodeBranches, decodeBranches, ih]

/-! ### Rearranging -/

section Replaced

variable {front back : List (String × Json)} {v v' : Json}

theorem get?_replace_of_ne {key k : String} (h : k ≠ key) (v v' : Json) :
    (Json.object (front ++ (key, v) :: back)).get? k = (Json.object (front ++ (key, v') :: back)).get? k :=
  (get?_insert h v).trans (get?_insert h v').symm

theorem decodeChildren_replace (h : decode v = decode v') :
    decodeChildren (.object (front ++ ("children", v) :: back)) =
      decodeChildren (.object (front ++ ("children", v') :: back)) := by
  rcases get?_replace v v' with hsame | ⟨hv, hv'⟩
  · exact decodeChildren_congr hsame
  · rw [decodeChildren_some hv, decodeChildren_some hv', h]

theorem decodeBranch_replace (h : decode v = decode v') :
    decodeBranch (.object (front ++ ("value", v) :: back)) =
      decodeBranch (.object (front ++ ("value", v') :: back)) := by
  rcases get?_replace v v' with hsame | ⟨hv, hv'⟩
  · exact decodeBranch_congr hsame
  · rw [decodeBranch_some hv, decodeBranch_some hv', h]

theorem decodeOptions_replace {options options' : List (String × Json)}
    (h : decodeBranches options = decodeBranches options') :
    decodeOptions (.object (front ++ ("options", .object options) :: back)) =
      decodeOptions (.object (front ++ ("options", .object options') :: back)) := by
  rcases get?_replace (.object options) (.object options') with hsame | ⟨hv, hv'⟩
  · exact decodeOptions_congr hsame
  · rw [decodeOptions_object hv, decodeOptions_object hv', h]

end Replaced

/-- One change does not change what is read. -/
theorem Changes.sameReading {role : Role} {v v' : Json} (h : Changes role v v') : SameReading role v v' := by
  induction h with
  | order distinct perm => exact sameReading_of_get? fun key _ => lookup_eq_of_perm perm distinct key
  | foreign value unread =>
      refine sameReading_of_get? fun key hkey => (get?_insert ?_ value).symm
      rintro rfl
      exact unread hkey
  | @item front back v v' _ ih =>
      show decode _ = decode _
      rw [decode, decode, decodeItems_congr ih front back 0]
  | children _ ih =>
      exact decodeElement_congr (fun _ _ _ hkey => get?_replace_of_ne hkey _ _)
        (fun _ => decodeOptions_congr (get?_replace_of_ne (by decide) _ _)) fun _ => decodeChildren_replace ih
  | @option _ _ first rest key v v' _ ih =>
      exact decodeElement_congr (fun _ _ hkey _ => get?_replace_of_ne hkey _ _)
        (fun _ => decodeOptions_replace (decodeBranches_congr ih first rest key))
        fun _ => decodeChildren_congr (get?_replace_of_ne (by decide) _ _)
  | branch _ ih => exact decodeBranch_replace ih

theorem Rearranged.decode_eq {v v' : Json} (h : Rearranged v v') : decode v' = decode v := by
  induction h with
  | rel v v' hchange => exact hchange.sameReading.symm
  | refl v => rfl
  | symm v v' _ ih => exact ih.symm
  | trans v u v' _ _ ih ih' => exact ih'.trans ih

/-- Two values that differ in the order of the members of elements and of wrappers, and in members there from which
nothing is read, at any depth, are the form of one message, or have the same defect at the same path, and that is
reported of both in the same way whatever the place of the whole value is. -/
theorem decode_eq_of_rearranged {v v' : Json} (h : Rearranged v v') :
    decode v' = decode v ∧ ∀ place, decodeAt place v' = decodeAt place v := by
  refine ⟨h.decode_eq, fun place => ?_⟩
  rw [decodeAt_eq_reported, decodeAt_eq_reported, h.decode_eq]

/-- A plural around an argument that lacks its name, with further members in front of those of the argument, of the
wrapper of its branch and of the plural. -/
def nameless (argument wrapper plural : List (String × Json)) : Json :=
  .array [.object (plural ++ [("type", .ofInt 6), ("value", .string "n"),
    ("options", .object [("one", .object (wrapper ++ [("value", .array [.object (argument ++ [("type", .ofInt 1)])])])),
      ("other", .null)])])]

/-- The same plural with members from which nothing is read, and with its own members in another order. -/
def namelessShuffled : Json :=
  .array [.object [("location", .null),
    ("options", .object [("one", .object [("location", .null),
      ("value", .array [.object [("style", .null), ("type", .ofInt 1)]])]), ("other", .null)]),
    ("value", .string "n"), ("type", .ofInt 6)]]

theorem rearranged_nameless : Rearranged (nameless [] [] []) namelessShuffled := by
  have hargument : Changes .element (.object [("type", .ofInt 1)]) (.object [("style", .null), ("type", .ofInt 1)]) :=
    @Changes.foreign .element [] [("type", .ofInt 1)] "style" .null (by decide)
  have hfirst : Changes .elements (nameless [] [] []) (nameless [("style", .null)] [] []) :=
    @Changes.item [] [] _ _ (@Changes.option [("type", .ofInt 6), ("value", .string "n")] [] [] _ "one" _ _
      (@Changes.branch [] [] _ _ (@Changes.item [] [] _ _ hargument)))
  have hsecond : Changes .elements (nameless [("style", .null)] [] [])
      (nameless [("style", .null)] [("location", .null)] []) :=
    @Changes.item [] [] _ _ (@Changes.option [("type", .ofInt 6), ("value", .string "n")] [] [] _ "one" _ _
      (@Changes.foreign .wrapper [] _ "location" .null (by decide)))
  have hthird : Changes .elements (nameless [("style", .null)] [("location", .null)] [])
      (nameless [("style", .null)] [("location", .null)] [("location", .null)]) :=
    @Changes.item [] [] _ _ (@Changes.foreign .element [] _ "location" .null (by decide))
  have hfourth : Changes .elements (nameless [("style", .null)] [("location", .null)] [("location", .null)])
      namelessShuffled :=
    @Changes.item [] [] _ _ (.order (by decide) (.cons _ (List.reverse_perm _).symm))
  exact .trans _ _ _ (.rel _ _ hfirst) (.trans _ _ _ (.rel _ _ hsecond)
    (.trans _ _ _ (.rel _ _ hthird) (.rel _ _ hfourth)))

theorem decode_eq_of_rearranged_nameless :
    Rearranged (nameless [] [] []) namelessShuffled ∧
      decode namelessShuffled = .error ⟨.missingMember "value",
        [.index 0, .member "options", .member "one", .member "value", .index 0]⟩ ∧
      decodeAt "$" namelessShuffled = .error ⟨.missingMember "value", "$[0].options.one.value[0]"⟩ := by
  have hargument : decodeElement (.object [("type", .ofInt 1)]) = .error ⟨.missingMember "value", []⟩ := by
    rw [decodeElement_eq]
    rfl
  have hbranch : decodeBranch (.object [("value", .array [.object [("type", .ofInt 1)]])]) =
      .error ⟨.missingMember "value", [.member "value", .index 0]⟩ := by
    rw [decodeBranch_some rfl, decode, decodeItems, hargument]
    rfl
  have hnameless : decode (nameless [] [] []) = .error ⟨.missingMember "value",
      [.index 0, .member "options", .member "one", .member "value", .index 0]⟩ := by
    simp only [nameless, List.nil_append]
    rw [decode, decodeItems, decodeElement_eq, decodeOptions_object rfl, decodeBranches, hbranch]
    rfl
  obtain ⟨hdecode, hplace⟩ := decode_eq_of_rearranged rearranged_nameless
  refine ⟨rearranged_nameless, hdecode.trans hnameless, (hplace "$").trans ?_⟩
  rw [decodeAt_eq_reported, hnameless, reported_error, report_eq]
  rfl

end MessageFormat.Wire
