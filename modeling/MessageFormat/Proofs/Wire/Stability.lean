import MessageFormat.Proofs.Json.Nesting
import MessageFormat.Proofs.Wire.Decoding
import MessageFormat.Proofs.Wire.RoundTrip

/-! Reading is stable. Many texts are read as one message, with members in any order, repeated, foreign or of
the wrong kind; whichever of them was read, the JSON text that is written of the message is read as the same
message. Reading never nests a message deeper than its text was, and none of its options has a key twice, so
that what is written is never refused. -/

namespace MessageFormat.Wire

/-! ### What reading keeps

The induction is that of the reader. Of the room for the value an array, an object and the object around a
branch take one each, and so do the array, the object and the wrapper that are written for them. -/

mutual

/-- A message is nested no deeper than the value that it was read from, and has no key twice where that value
has none. -/
theorem fits_of_decode {room : Nat} {es : List Element} :
    ∀ {json : Json}, json.Within room → decode json = .ok es → depth es ≤ room ∧ KeysDistinct es
  | .array items, hw, h => by
      obtain ⟨inner, rfl, hitems⟩ := hw.of_array
      rw [decode] at h
      exact fits_of_decodeItems hitems h
  | .null, _, h | .bool _, _, h | .number _, _, h | .string _, _, h | .object _, _, h => by
      rw [decode] at h
      · cases h
      · nofun
termination_by json => (sizeOf json, 0)

theorem fits_of_decodeItems {room i : Nat} {es : List Element} :
    ∀ {items : List Json}, (∀ v ∈ items, v.Within room) → decodeItems i items = .ok es →
      depth es ≤ room + 1 ∧ KeysDistinct es
  | [], _, h => by
      rw [decodeItems] at h
      cases h
      exact ⟨Nat.le_add_left 1 room, trivial⟩
  | v :: vs, hw, h => by
      obtain ⟨hv, hvs⟩ := List.forall_mem_cons.mp hw
      rw [decodeItems] at h
      obtain ⟨e, he, h⟩ := bind_eq_ok.mp h
      obtain ⟨es, hes, h⟩ := bind_eq_ok.mp h
      cases h
      obtain ⟨hdepth, hkeys⟩ := fits_of_decodeElement hv (within_eq_ok.mp he)
      obtain ⟨hdepths, hkeyss⟩ := fits_of_decodeItems hvs hes
      refine ⟨?_, hkeys, hkeyss⟩
      rw [depth]
      omega
termination_by items => (sizeOf items, 0)

theorem fits_of_decodeElement {room : Nat} {json : Json} {e : Element} (hw : json.Within room)
    (h : decodeElement json = .ok e) : elementDepth e ≤ room ∧ ElementKeysDistinct e := by
  obtain ⟨⟨members, hmembers⟩, hinside⟩ := decodeElement_eq_ok h
  obtain ⟨inner, rfl, -⟩ := (hmembers ▸ hw).of_object
  cases e with
  | literal | argument | number | date | time | pound => exact ⟨Nat.le_add_left 1 inner, trivial⟩
  | select name options | plural name kind offset options =>
      exact fits_of_decodeOptions hw hinside
  | tag name children =>
      obtain ⟨v, hget, hv⟩ := decodeChildren_eq_ok hinside
      have := Json.sizeOf_lt_of_get? hget
      obtain ⟨inner', hroom, hchild⟩ := hw.of_get? hget
      obtain rfl := Nat.succ.inj hroom
      obtain ⟨hdepth, hkeys⟩ := fits_of_decode hchild hv
      refine ⟨?_, hkeys⟩
      rw [elementDepth]
      omega
termination_by (sizeOf json, 1)

theorem fits_of_decodeOptions {room : Nat} {json : Json} {options : Options} (hw : json.Within room)
    (h : decodeOptions json = .ok options) :
    1 + optionsDepth options ≤ room ∧ (options.map Prod.fst).Nodup ∧ BranchKeysDistinct options := by
  obtain ⟨members, hget, hmembers⟩ := decodeOptions_eq_ok h
  have hlt := Json.sizeOf_lt_of_get? hget
  have : sizeOf members < sizeOf json := by
    simp only [Json.object.sizeOf_spec] at hlt
    omega
  obtain ⟨outer, rfl, hobject⟩ := hw.of_get? hget
  obtain ⟨inner, rfl, hnodup, hparts⟩ := hobject.of_object
  obtain ⟨hdepth, hkeys, hbranches⟩ := fits_of_decodeBranches hparts hmembers
  exact ⟨by omega, hkeys ▸ hnodup, hbranches⟩
termination_by (sizeOf json, 0)

theorem fits_of_decodeBranches {room : Nat} {options : Options} :
    ∀ {members : List (String × Json)}, (∀ m ∈ members, m.2.Within room) →
      decodeBranches members = .ok options →
      optionsDepth options ≤ room + 1 ∧ options.map Prod.fst = members.map Prod.fst ∧
        BranchKeysDistinct options
  | [], _, h => by
      rw [decodeBranches] at h
      cases h
      exact ⟨Nat.le_add_left 1 room, rfl, trivial⟩
  | (key, v) :: ms, hw, h => by
      obtain ⟨hv, hms⟩ := List.forall_mem_cons.mp hw
      rw [decodeBranches] at h
      obtain ⟨branch, hbranch, h⟩ := bind_eq_ok.mp h
      obtain ⟨options, hoptions, h⟩ := bind_eq_ok.mp h
      cases h
      obtain ⟨v', hget, hv'⟩ := decodeBranch_eq_ok (within_eq_ok.mp hbranch)
      have := Json.sizeOf_lt_of_get? hget
      obtain ⟨inner, rfl, hinner⟩ := hv.of_get? hget
      obtain ⟨hdepth, hkeys⟩ := fits_of_decode hinner hv'
      obtain ⟨hdepths, hnames, hkeyss⟩ := fits_of_decodeBranches hms hoptions
      refine ⟨?_, by rw [List.map_cons, List.map_cons, hnames], hkeys, hkeyss⟩
      rw [optionsDepth]
      omega
termination_by members => (sizeOf members, 0)

end

/-- The JSON text of a message that is not nested too deep is read as the message, also with blanks behind
it. -/
theorem read_render_append (layout : Json.Layout) {es : List Element} (hkeys : KeysDistinct es)
    (hdepth : depth es ≤ 127) {w : String} (hw : ∀ c ∈ w.toList, Json.isBlank c) :
    read (render layout es ++ w) = .ok es := by
  have hrecoverable : (encode es).Recoverable := recoverableItems_encodeList es hkeys
  have hjson : Json.read (render layout es ++ w) = .ok (encode es) :=
    (Json.readWithin_render_append layout 127 hrecoverable hw).ok (depth_encode es ▸ hdepth)
  rw [read, hjson]
  simp only [decode_encode]

/-- The text that a text is rewritten to when what was read from it is written in a layout. -/
def normalize (layout : Json.Layout) (text : String) : Except Error String :=
  (read text).map (render layout)

theorem read_eq_ok {text : String} {es : List Element} (h : read text = .ok es) :
    ∃ json, Json.read text = .ok json ∧ decode json = .ok es := by
  unfold read at h
  split at h
  · cases h
  · rename_i json hjson
    split at h
    · cases h
    · rename_i hdecode
      cases h
      exact ⟨json, hjson, hdecode⟩

theorem fits_of_read {text : String} {es : List Element} (h : read text = .ok es) :
    ∃ json, Json.read text = .ok json ∧ (encode es).depth ≤ json.depth ∧ json.depth ≤ 127 ∧
      KeysDistinct es := by
  obtain ⟨json, hjson, hdecode⟩ := read_eq_ok h
  have hw := Json.within_of_readWithin hjson
  obtain ⟨hdepth, hkeys⟩ := fits_of_decode ⟨Nat.le_refl _, hw.keysDistinct⟩ hdecode
  exact ⟨json, hjson, depth_encode es ▸ hdepth, hw.depth_le, hkeys⟩

/-- What was read from a text, however loosely it was written, is read from the text that is written of it, in
either layout, and that text is nested no deeper than the first one. Hence writing what was read is a normal
form of texts: to do it again, in the same layout or the other one, gives nothing new. -/
theorem normalize_stable (text : String) :
    (∀ es, read text = .ok es →
      (∀ layout, read (render layout es) = .ok es) ∧
        ∃ json, Json.read text = .ok json ∧ (encode es).depth ≤ json.depth ∧ json.depth ≤ Json.maxDepth) ∧
      ∀ first second, (normalize first text >>= normalize second) = normalize second text := by
  have hstable : ∀ es, read text = .ok es → ∀ layout, read (render layout es) = .ok es := by
    intro es h layout
    obtain ⟨json, -, hdepth, hlimit, hkeys⟩ := fits_of_read h
    have hfits : depth es ≤ 127 := depth_encode es ▸ Nat.le_trans hdepth hlimit
    have hread := read_render_append layout hkeys hfits (w := "") (by simp)
    rwa [String.append_empty] at hread
  refine ⟨fun es h => ⟨hstable es h, ?_⟩, fun first second => ?_⟩
  · obtain ⟨json, hjson, hdepth, hlimit, -⟩ := fits_of_read h
    exact ⟨json, hjson, hdepth, hlimit⟩
  · unfold normalize
    cases h : read text with
    | error e => rfl
    | ok es =>
        change (read (render first es)).map (render second) = _
        rw [hstable es h first]

/-- A plural with its members in another order, a foreign member beside its branch, an offset that is no integer,
and nothing about its kind. -/
def loosePlural : Json :=
  .object [("options", .object [("other", .object [("note", .null), ("value", .array [])])]),
    ("offset", .string "1"), ("value", .string "n"), ("type", .ofInt 6)]

theorem decode_loosePlural : decode (.array [loosePlural]) = .ok [.plural "n" .cardinal 0 [("other", [])]] := by
  have hempty : decode (.array []) = .ok [] := by rw [decode, decodeItems]
  have hbranch : decodeBranch (.object [("note", .null), ("value", .array [])]) = .ok [] := by
    rw [decodeBranch_some rfl, hempty]
    rfl
  have hoptions : decodeOptions loosePlural = .ok [("other", [])] := by
    rw [decodeOptions_object rfl, decodeBranches, hbranch, decodeBranches]
    rfl
  have helement : decodeElement loosePlural = .ok (.plural "n" .cardinal 0 [("other", [])]) := by
    have hkind : kindOf loosePlural = .ok .plural := rfl
    have hvalue : valueText loosePlural = .ok "n" := rfl
    rw [decodeElement_eq, hkind, hvalue, hoptions]
    rfl
  rw [decode, decodeItems, helement, decodeItems]
  rfl

theorem read_loosePlural : read (Json.render .pretty (.array [loosePlural]) ++ "\r\n") =
    .ok [.plural "n" .cardinal 0 [("other", [])]] := by
  have hrecoverable : (Json.array [loosePlural]).Recoverable := by
    simp [loosePlural, Json.Recoverable, Json.RecoverableItems, Json.RecoverableMembers, Json.ofInt, Json.InWord]
  have hjson : Json.read (Json.render .pretty (.array [loosePlural]) ++ "\r\n") = .ok (.array [loosePlural]) :=
    (Json.readWithin_render_append .pretty 127 hrecoverable (by simp [Json.isBlank])).ok (by decide)
  rw [read, hjson]
  simp only [decode_loosePlural]

theorem normalize_stable_loosePlural :
    read (Json.render .pretty (.array [loosePlural]) ++ "\r\n") =
        .ok [.plural "n" .cardinal 0 [("other", [])]] ∧
      read (render .compact [.plural "n" .cardinal 0 [("other", [])]]) =
        .ok [.plural "n" .cardinal 0 [("other", [])]] :=
  ⟨read_loosePlural, ((normalize_stable _).1 _ read_loosePlural).1 .compact⟩

end MessageFormat.Wire
