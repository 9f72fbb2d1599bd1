import MessageFormat.Proofs.Json.RoundTrip

/-! What every value that was read has in common, however its text was laid out: it is nested at most as deep
as there was room for, and none of its objects has a key twice. -/

namespace MessageFormat.Json

/-- No object inside a value has a key twice. -/
inductive KeysDistinct : Json → Prop
  | null : KeysDistinct .null
  | bool (b : Bool) : KeysDistinct (.bool b)
  | number (n : Number) : KeysDistinct (.number n)
  | string (s : String) : KeysDistinct (.string s)
  | array {items : List Json} (items_distinct : ∀ v ∈ items, KeysDistinct v) : KeysDistinct (.array items)
  | object {members : List (String × Json)} (nodup : (members.map Prod.fst).Nodup)
      (members_distinct : ∀ m ∈ members, KeysDistinct m.2) : KeysDistinct (.object members)

/-- A value that fits into the room for its arrays and objects, in which no object has a key twice. -/
structure Within (room : Nat) (v : Json) : Prop where
  depth_le : v.depth ≤ room
  keysDistinct : v.KeysDistinct

theorem itemsDepth_le_iff {items : List Json} {n : Nat} :
    itemsDepth items ≤ n ↔ ∀ v ∈ items, v.depth ≤ n := by
  induction items with
  | nil => simp [itemsDepth]
  | cons v vs ih => rw [itemsDepth, Nat.max_le, ih, List.forall_mem_cons]

theorem membersDepth_le_iff {members : List (String × Json)} {n : Nat} :
    membersDepth members ≤ n ↔ ∀ m ∈ members, m.2.depth ≤ n := by
  induction members with
  | nil => simp [membersDepth]
  | cons m ms ih => rw [membersDepth, Nat.max_le, ih, List.forall_mem_cons]

theorem Within.array {room : Nat} {items : List Json} (h : ∀ v ∈ items, Within room v) :
    Within (room + 1) (.array items) where
  depth_le := by
    have hitems := itemsDepth_le_iff.mpr fun v hv => (h v hv).depth_le
    rw [depth]
    omega
  keysDistinct := .array fun v hv => (h v hv).keysDistinct

theorem Within.object {room : Nat} {members : List (String × Json)} (hkeys : (members.map Prod.fst).Nodup)
    (h : ∀ m ∈ members, Within room m.2) : Within (room + 1) (.object members) where
  depth_le := by
    have hmembers := membersDepth_le_iff.mpr fun m hm => (h m hm).depth_le
    rw [depth]
    omega
  keysDistinct := .object hkeys fun m hm => (h m hm).keysDistinct

section Parts

variable {room : Nat}

theorem Within.of_array {items : List Json} (h : Within room (.array items)) :
    ∃ inner, room = inner + 1 ∧ ∀ v ∈ items, Within inner v := by
  obtain ⟨hdepth, hkeys⟩ := h
  cases hkeys with
  | array hitems =>
      rw [depth, Nat.add_comm] at hdepth
      obtain ⟨inner, rfl⟩ : ∃ inner, room = inner + 1 := ⟨room - 1, by omega⟩
      have hle := itemsDepth_le_iff.mp (Nat.le_of_succ_le_succ hdepth)
      exact ⟨inner, rfl, fun v hv => ⟨hle v hv, hitems v hv⟩⟩

theorem Within.of_object {members : List (String × Json)} (h : Within room (.object members)) :
    ∃ inner, room = inner + 1 ∧ (members.map Prod.fst).Nodup ∧ ∀ m ∈ members, Within inner m.2 := by
  obtain ⟨hdepth, hkeys⟩ := h
  cases hkeys with
  | object hnodup hmembers =>
      rw [depth, Nat.add_comm] at hdepth
      obtain ⟨inner, rfl⟩ : ∃ inner, room = inner + 1 := ⟨room - 1, by omega⟩
      have hle := membersDepth_le_iff.mp (Nat.le_of_succ_le_succ hdepth)
      exact ⟨inner, rfl, hnodup, fun m hm => ⟨hle m hm, hmembers m hm⟩⟩

theorem Within.of_get? {key : String} {json v : Json} (h : Within room json) (hget : json.get? key = some v) :
    ∃ inner, room = inner + 1 ∧ Within inner v := by
  cases json with
  | object members =>
      obtain ⟨inner, rfl, -, hmembers⟩ := h.of_object
      exact ⟨inner, rfl, hmembers _ (mem_of_get? hget)⟩
  | _ => cases hget

end Parts

section Members

variable {key : String} {value : Json} {members : List (String × Json)}

theorem mem_setMember {m : String × Json} (h : m ∈ setMember key value members) :
    m = (key, value) ∨ m ∈ members := by
  induction members with
  | nil => exact Or.inl (List.mem_singleton.mp h)
  | cons entry members ih =>
      obtain ⟨k, v⟩ := entry
      rw [setMember] at h
      split at h
      · rename_i hkey
        rcases List.mem_cons.mp h with rfl | hm
        · exact Or.inl (by rw [hkey])
        · exact Or.inr (.tail _ hm)
      · rcases List.mem_cons.mp h with rfl | hm
        · exact Or.inr (.head _)
        · exact (ih hm).imp_right (.tail _)

theorem nodup_setMember (h : (members.map Prod.fst).Nodup) :
    ((setMember key value members).map Prod.fst).Nodup := by
  induction members with
  | nil => simp [setMember]
  | cons entry members ih =>
      obtain ⟨k, v⟩ := entry
      rw [List.map_cons, List.nodup_cons] at h
      rw [setMember]
      split
      · exact List.nodup_cons.mpr h
      · rename_i hne
        rw [List.map_cons, List.nodup_cons]
        refine ⟨fun hk => ?_, ih h.2⟩
        obtain ⟨m, hm, hfst⟩ := List.mem_map.mp hk
        rcases mem_setMember hm with rfl | hm
        · exact hne hfst.symm
        · exact h.1 (List.mem_map.mpr ⟨m, hm, hfst⟩)

/-- Of the members of an object those that count are collected, and no key comes twice among them. -/
theorem collect_spec (members : List (String × Json)) :
    ((collect members).map Prod.fst).Nodup ∧ ∀ m ∈ collect members, m ∈ members := by
  suffices hfold : ∀ (rest front : List (String × Json)), (front.map Prod.fst).Nodup →
      ((rest.foldl (fun ms m => setMember m.1 m.2 ms) front).map Prod.fst).Nodup ∧
        ∀ m ∈ rest.foldl (fun ms m => setMember m.1 m.2 ms) front, m ∈ rest ∨ m ∈ front by
    obtain ⟨hnodup, hmem⟩ := hfold members [] List.nodup_nil
    exact ⟨hnodup, fun m hm => (hmem m hm).resolve_right List.not_mem_nil⟩
  intro rest
  induction rest with
  | nil => exact fun front hfront => ⟨hfront, fun m hm => Or.inr hm⟩
  | cons entry rest ih =>
      intro front hfront
      obtain ⟨hnodup, hmem⟩ := ih _ (nodup_setMember hfront)
      refine ⟨hnodup, fun m hm => ?_⟩
      rcases hmem m hm with hrest | hset
      · exact Or.inl (.tail _ hrest)
      · rcases mem_setMember hset with rfl | hfront
        · exact Or.inl (.head _)
        · exact Or.inr hfront

end Members

/-! ### Reading -/

section Suffixes

variable {room : Nat} {s r : List Char}

theorem suffix_of_scanValue {v : Json} (h : scanValue room s = .ok (v, r)) : r <:+ s :=
  suffix_of_map_pair h

theorem suffix_of_scanMember {m : String × Json} (h : scanMember room s = .ok (m, r)) : r <:+ s :=
  suffix_of_map_pair h

end Suffixes

theorem within_of_readScalar {room : Nat} {s r : List Char} {v : Json} (h : readScalar s = .ok (v, r)) :
    Within room v := by
  unfold readScalar at h
  split at h
  · cases h
  iterate 3
    · obtain ⟨t, -, h⟩ := bind_eq_ok.mp h
      cases h
      exact ⟨Nat.zero_le _, by constructor⟩
  · obtain ⟨body, -, h⟩ := bind_eq_ok.mp h
    cases h
    exact ⟨Nat.zero_le _, .string _⟩
  · split at h
    · obtain ⟨⟨n, t⟩, -, h⟩ := bind_eq_ok.mp h
      cases h
      exact ⟨Nat.zero_le _, .number n⟩
    · cases h

/-- How a value was read: it has no parts, or it is an array or an object, empty or with a first part and the
parts behind it, and there was room for it. -/
theorem scanValue_eq_ok {room : Nat} {s r : List Char} {v : Json} (h : scanValue room s = .ok (v, r)) :
    readScalar (skipBlanks s) = .ok (v, r) ∨
    (∃ room' t, room = room' + 1 ∧ t.length < s.length ∧
      (v = .array [] ∨ v = .object [] ∨
        (∃ v₁ vs u, scanValue room' t = .ok (v₁, u) ∧ scanItems room' u = .ok (vs, r) ∧
          v = .array (v₁ :: vs)) ∨
        ∃ m₁ ms u, scanMember room' t = .ok (m₁, u) ∧ scanMembers room' u = .ok (ms, r) ∧
          v = .object (collect (m₁ :: ms)))) := by
  have hs := skipBlanks_suffix s
  by_cases hbracket : ∃ t, skipBlanks s = '[' :: t
  · obtain ⟨t, ht⟩ := hbracket
    have hlt := (suffix_and_length_lt (ht ▸ hs)).2
    cases room with
    | zero =>
        rw [scanValue_array_zero ht] at h
        cases h
    | succ room =>
        refine Or.inr ⟨room, t, rfl, hlt, ?_⟩
        cases hfirst : skipBlanks t with
        | nil =>
            rw [scanValue_array_unfinished ht hfirst] at h
            cases h
        | cons c u =>
            by_cases hclose : c = ']'
            · subst hclose
              rw [scanValue_array_nil ht hfirst] at h
              cases h
              exact Or.inl rfl
            · rw [scanValue_array_cons ht hfirst hclose] at h
              obtain ⟨⟨v₁, t₁⟩, hv, h⟩ := bind_eq_ok.mp h
              obtain ⟨⟨vs, t₂⟩, hvs, h⟩ := bind_eq_ok.mp h
              cases h
              exact Or.inr (Or.inr (Or.inl ⟨v₁, vs, t₁, hv, hvs, rfl⟩))
  · by_cases hbrace : ∃ t, skipBlanks s = '\x7b' :: t
    · obtain ⟨t, ht⟩ := hbrace
      have hlt := (suffix_and_length_lt (ht ▸ hs)).2
      cases room with
      | zero =>
          rw [scanValue_object_zero ht] at h
          cases h
      | succ room =>
          refine Or.inr ⟨room, t, rfl, hlt, ?_⟩
          cases hfirst : skipBlanks t with
          | nil =>
              rw [scanValue_object_unfinished ht hfirst] at h
              cases h
          | cons c u =>
              by_cases hclose : c = '\x7d'
              · subst hclose
                rw [scanValue_object_nil ht hfirst] at h
                cases h
                exact Or.inr (Or.inl rfl)
              · rw [scanValue_object_cons ht hfirst hclose] at h
                obtain ⟨⟨m₁, t₁⟩, hm, h⟩ := bind_eq_ok.mp h
                obtain ⟨⟨ms, t₂⟩, hms, h⟩ := bind_eq_ok.mp h
                cases h
                exact Or.inr (Or.inr (Or.inr ⟨m₁, ms, t₁, hm, hms, rfl⟩))
    · rw [scanValue_scalar (fun t ht => hbracket ⟨t, ht⟩) (fun t ht => hbrace ⟨t, ht⟩)] at h
      exact Or.inl h

mutual

/-- What is read fits into the room that it was read with. -/
theorem within_of_scanValue {room : Nat} {s r : List Char} {v : Json} (h : scanValue room s = .ok (v, r)) :
    Within room v := by
  rcases scanValue_eq_ok h with hscalar | ⟨room, t, rfl, hlt, hparts⟩
  · exact within_of_readScalar hscalar
  · rcases hparts with rfl | rfl | ⟨v₁, vs, u, hv, hvs, rfl⟩ | ⟨m₁, ms, u, hm, hms, rfl⟩
    · exact .array (by simp)
    · exact .object List.nodup_nil (by simp)
    · have hu := (suffix_of_scanValue hv).length_le
      exact .array (List.forall_mem_cons.mpr ⟨within_of_scanValue hv, within_of_scanItems hvs⟩)
    · have hu := (suffix_of_scanMember hm).length_le
      obtain ⟨hnodup, hmem⟩ := collect_spec (m₁ :: ms)
      have hmembers : ∀ m ∈ m₁ :: ms, Within room m.2 :=
        List.forall_mem_cons.mpr ⟨within_of_scanMember hm, within_of_scanMembers hms⟩
      exact .object hnodup fun m hm => hmembers m (hmem m hm)
termination_by 2 * s.length

theorem within_of_scanItems {room : Nat} {s r : List Char} {items : List Json}
    (h : scanItems room s = .ok (items, r)) : ∀ v ∈ items, Within room v := by
  rw [scanItems_eq] at h
  obtain ⟨⟨more, t⟩, hnext, h⟩ := bind_eq_ok.mp h
  have ht := (suffix_of_nextItem hnext).2
  cases more with
  | false =>
      cases h
      simp
  | true =>
      obtain ⟨⟨v, t₁⟩, hv, h⟩ := bind_eq_ok.mp h
      obtain ⟨⟨vs, t₂⟩, hvs, h⟩ := bind_eq_ok.mp h
      cases h
      have ht₁ := Nat.lt_of_le_of_lt (suffix_of_scanValue hv).length_le ht
      exact List.forall_mem_cons.mpr ⟨within_of_scanValue hv, within_of_scanItems hvs⟩
termination_by 2 * s.length

theorem within_of_scanMember {room : Nat} {s r : List Char} {m : String × Json}
    (h : scanMember room s = .ok (m, r)) : Within room m.2 := by
  rw [scanMember_eq] at h
  obtain ⟨⟨key, t⟩, hkey, h⟩ := bind_eq_ok.mp h
  obtain ⟨⟨v, t₁⟩, hv, h⟩ := bind_eq_ok.mp h
  cases h
  have ht := ((suffix_of_readKey hkey).trans (skipBlanks_suffix s)).length_le
  exact within_of_scanValue hv
termination_by 2 * s.length + 1

theorem within_of_scanMembers {room : Nat} {s r : List Char} {members : List (String × Json)}
    (h : scanMembers room s = .ok (members, r)) : ∀ m ∈ members, Within room m.2 := by
  rw [scanMembers_eq] at h
  obtain ⟨⟨more, t⟩, hnext, h⟩ := bind_eq_ok.mp h
  have ht := (suffix_of_nextMember hnext).2
  cases more with
  | false =>
      cases h
      simp
  | true =>
      obtain ⟨⟨m, t₁⟩, hm, h⟩ := bind_eq_ok.mp h
      obtain ⟨⟨ms, t₂⟩, hms, h⟩ := bind_eq_ok.mp h
      cases h
      have ht₁ := Nat.lt_of_le_of_lt (suffix_of_scanMember hm).length_le ht
      exact List.forall_mem_cons.mpr ⟨within_of_scanMember hm, within_of_scanMembers hms⟩
termination_by 2 * s.length

end

theorem within_of_readWithin {limit : Nat} {text : String} {json : Json}
    (h : readWithin limit text = .ok json) : Within limit json := by
  rw [readWithin_eq] at h
  obtain ⟨⟨v, r⟩, hv, h⟩ := bind_eq_ok.mp h
  dsimp only at h
  split at h
  · cases h
    exact within_of_scanValue hv
  · cases h

end MessageFormat.Json
