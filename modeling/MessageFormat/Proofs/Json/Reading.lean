import MessageFormat.Json.Reader

/-! The reader of JSON as functions that give a value and the rest of the text, and the equations by which
they call themselves and each other. The proofs that the reader carries to be seen to end are left out of
them. -/

namespace MessageFormat.Json

/-- The characters of a string, and the rest of the text. -/
def scanString (s : List Char) : Except SyntaxError (List Char × List Char) :=
  (readString s).map Parsed.pair

/-- A value nested at most `room` deep, and the rest of the text. -/
def scanValue (room : Nat) (s : List Char) : Except SyntaxError (Json × List Char) :=
  (readValue room s).map Parsed.pair

/-- The items of an array behind the first one, and the rest of the text. -/
def scanItems (room : Nat) (s : List Char) : Except SyntaxError (List Json × List Char) :=
  (readItems room s).map Parsed.pair

/-- A member of an object, and the rest of the text. -/
def scanMember (room : Nat) (s : List Char) : Except SyntaxError ((String × Json) × List Char) :=
  (readMember room s).map Parsed.pair

/-- The members of an object behind the first one, and the rest of the text. -/
def scanMembers (room : Nat) (s : List Char) :
    Except SyntaxError (List (String × Json) × List Char) :=
  (readMembers room s).map Parsed.pair

section Strings

variable {c : Char} {s : List Char}

theorem scanString_quotationMark : scanString ('"' :: s) = .ok ([], s) := by
  rw [scanString, readString]
  rfl

theorem scanString_backslash :
    scanString ('\\' :: s) =
      readEscape s >>= fun x => scanString x.2 >>= fun tail => .ok (x.1 :: tail.1, tail.2) := by
  rw [scanString, readString, if_neg (by decide), if_pos rfl, map_bind]
  refine attach_bind fun x hx => ?_
  exact pair_lift _ _ _

theorem scanString_plain (hquote : c ≠ '"') (hslash : c ≠ '\\') (hplain : 0x20 ≤ c.toNat) :
    scanString (c :: s) = scanString s >>= fun tail => .ok (c :: tail.1, tail.2) := by
  rw [scanString, readString, if_neg hquote, if_neg hslash, if_neg (Nat.not_lt.mpr hplain)]
  exact pair_lift _ _ _

theorem readScalar_string :
    readScalar ('"' :: s) = scanString s >>= fun body => .ok (.string (.ofList body.1), body.2) := by
  rw [scanString, pair_bind]
  rfl

end Strings

section Brackets

variable {room : Nat} {s r t : List Char} {c : Char}

theorem scanValue_array_zero (h : skipBlanks s = '[' :: r) :
    scanValue 0 s = .error ⟨.tooDeep, r⟩ := by
  rw [scanValue, readValue]
  split
  · rename_i r' h'
    cases h.symm.trans h'
    rfl
  · rename_i r' h'
    cases h.symm.trans h'
  · rename_i hbracket _
    exact absurd h (hbracket r)

theorem scanValue_array_unfinished (h : skipBlanks s = '[' :: r) (hend : skipBlanks r = []) :
    scanValue (room + 1) s = .error ⟨.unfinishedArray, []⟩ := by
  rw [scanValue, readValue]
  split
  · rename_i r' h'
    cases h.symm.trans h'
    dsimp only
    split
    · rfl
    · rename_i t' h'
      cases hend.symm.trans h'
    · rename_i hne _
      exact absurd hend hne
  · rename_i r' h'
    cases h.symm.trans h'
  · rename_i hbracket _
    exact absurd h (hbracket r)

theorem scanValue_array_nil (h : skipBlanks s = '[' :: r) (hclose : skipBlanks r = ']' :: t) :
    scanValue (room + 1) s = .ok (.array [], t) := by
  rw [scanValue, readValue]
  split
  · rename_i r' h'
    cases h.symm.trans h'
    dsimp only
    split
    · rename_i h'
      cases hclose.symm.trans h'
    · rename_i t' h'
      cases hclose.symm.trans h'
      rfl
    · rename_i hne
      exact absurd hclose (hne t)
  · rename_i r' h'
    cases h.symm.trans h'
  · rename_i hbracket _
    exact absurd h (hbracket r)

theorem scanValue_array_cons (h : skipBlanks s = '[' :: r) (hitem : skipBlanks r = c :: t)
    (hc : c ≠ ']') :
    scanValue (room + 1) s =
      scanValue room r >>= fun v =>
        scanItems room v.2 >>= fun vs => .ok (.array (v.1 :: vs.1), vs.2) := by
  rw [scanValue, readValue]
  split
  · rename_i r' h'
    obtain rfl : r' = r := (List.cons.inj (h'.symm.trans h)).2
    dsimp only
    split
    · rename_i h'
      cases hitem.symm.trans h'
    · rename_i t' h'
      exact absurd (List.cons.inj (hitem.symm.trans h')).1 hc
    · rw [map_bind]
      dsimp only [scanValue, scanItems]
      rw [pair_bind]
      congr 1
      funext v
      exact pair_lift _ _ _
  · rename_i r' h'
    cases h.symm.trans h'
  · rename_i hbracket _
    exact absurd h (hbracket r)

theorem scanValue_object_zero (h : skipBlanks s = '\x7b' :: r) :
    scanValue 0 s = .error ⟨.tooDeep, r⟩ := by
  rw [scanValue, readValue]
  split
  · rename_i r' h'
    cases h.symm.trans h'
  · rename_i r' h'
    cases h.symm.trans h'
    rfl
  · rename_i _ hbrace
    exact absurd h (hbrace r)

theorem scanValue_object_unfinished (h : skipBlanks s = '\x7b' :: r) (hend : skipBlanks r = []) :
    scanValue (room + 1) s = .error ⟨.unfinishedObject, []⟩ := by
  rw [scanValue, readValue]
  split
  · rename_i r' h'
    cases h.symm.trans h'
  · rename_i r' h'
    cases h.symm.trans h'
    dsimp only
    split
    · rfl
    · rename_i t' h'
      cases hend.symm.trans h'
    · rename_i hne _
      exact absurd hend hne
  · rename_i _ hbrace
    exact absurd h (hbrace r)

theorem scanValue_object_nil (h : skipBlanks s = '\x7b' :: r) (hclose : skipBlanks r = '\x7d' :: t) :
    scanValue (room + 1) s = .ok (.object [], t) := by
  rw [scanValue, readValue]
  split
  · rename_i r' h'
    cases h.symm.trans h'
  · rename_i r' h'
    cases h.symm.trans h'
    dsimp only
    split
    · rename_i h'
      cases hclose.symm.trans h'
    · rename_i t' h'
      cases hclose.symm.trans h'
      rfl
    · rename_i hne
      exact absurd hclose (hne t)
  · rename_i _ hbrace
    exact absurd h (hbrace r)

theorem scanValue_object_cons (h : skipBlanks s = '\x7b' :: r) (hmember : skipBlanks r = c :: t)
    (hc : c ≠ '\x7d') :
    scanValue (room + 1) s =
      scanMember room r >>= fun m =>
        scanMembers room m.2 >>= fun ms => .ok (.object (collect (m.1 :: ms.1)), ms.2) := by
  rw [scanValue, readValue]
  split
  · rename_i r' h'
    cases h.symm.trans h'
  · rename_i r' h'
    obtain rfl : r' = r := (List.cons.inj (h'.symm.trans h)).2
    dsimp only
    split
    · rename_i h'
      cases hmember.symm.trans h'
    · rename_i t' h'
      exact absurd (List.cons.inj (hmember.symm.trans h')).1 hc
    · rw [map_bind]
      dsimp only [scanMember, scanMembers]
      rw [pair_bind]
      congr 1
      funext m
      exact pair_lift _ _ _
  · rename_i _ hbrace
    exact absurd h (hbrace r)

end Brackets

theorem scanValue_scalar {room : Nat} {s : List Char} (hbracket : ∀ r, skipBlanks s ≠ '[' :: r)
    (hbrace : ∀ r, skipBlanks s ≠ '\x7b' :: r) : scanValue room s = readScalar (skipBlanks s) := by
  rw [scanValue, readValue]
  split
  · rename_i r h
    exact absurd h (hbracket r)
  · rename_i r h
    exact absurd h (hbrace r)
  · rw [map_bind]
    rw [attach_bind (g := fun v => .ok v) (fun v hv => rfl)]
    cases readScalar (skipBlanks s) <;> rfl

theorem scanItems_eq (room : Nat) (s : List Char) :
    scanItems room s =
      nextItem s >>= fun next =>
        match next.1 with
        | false => .ok ([], next.2)
        | true =>
          scanValue room next.2 >>= fun v =>
            scanItems room v.2 >>= fun vs => .ok (v.1 :: vs.1, vs.2) := by
  rw [scanItems, readItems, map_bind]
  refine attach_bind fun next hnext => ?_
  obtain ⟨more, r⟩ := next
  cases more with
  | false => rfl
  | true =>
      dsimp only [scanValue]
      rw [map_bind, pair_bind]
      congr 1
      funext v
      exact pair_lift _ _ _

theorem scanMember_eq (room : Nat) (s : List Char) :
    scanMember room s =
      readKey (skipBlanks s) >>= fun key =>
        scanValue room key.2 >>= fun v => .ok ((key.1, v.1), v.2) := by
  rw [scanMember, readMember, map_bind]
  refine attach_bind fun key hkey => ?_
  exact pair_lift _ _ _

theorem scanMembers_eq (room : Nat) (s : List Char) :
    scanMembers room s =
      nextMember s >>= fun next =>
        match next.1 with
        | false => .ok ([], next.2)
        | true =>
          scanMember room next.2 >>= fun m =>
            scanMembers room m.2 >>= fun ms => .ok (m.1 :: ms.1, ms.2) := by
  rw [scanMembers, readMembers, map_bind]
  refine attach_bind fun next hnext => ?_
  obtain ⟨more, r⟩ := next
  cases more with
  | false => rfl
  | true =>
      dsimp only [scanMember]
      rw [map_bind, pair_bind]
      congr 1
      funext m
      exact pair_lift _ _ _

theorem readKey_string (s : List Char) :
    readKey ('"' :: s) =
      scanString s >>= fun body =>
        match skipBlanks body.2 with
        | ':' :: r => .ok (.ofList body.1, r)
        | [] => .error ⟨.unfinishedObject, []⟩
        | r => refuseAt .colonExpected r := by
  rw [scanString, pair_bind]
  rfl

/-- A text is read as one value when the value is all that it holds but for blanks. -/
theorem readWithin_eq (limit : Nat) (text : String) :
    readWithin limit text =
      scanValue limit text.toList >>= fun v =>
        match skipBlanks v.2 with
        | [] => .ok v.1
        | _ :: r => .error ⟨.trailingCharacters, r⟩ := by
  rw [scanValue, pair_bind]
  rfl

end MessageFormat.Json
