import MessageFormat.Proofs.Json.Scalar

/-! Reading undoes writing, in either layout, as long as arrays and objects are not nested too deep. What
is said of a value is said of its text between blanks and any text with which a number does not go on, so
that the statement holds of the parts of a value as well. -/

namespace MessageFormat.Json

mutual

/-- How deep arrays and objects are nested in a value. -/
def depth : Json → Nat
  | .null | .bool _ | .number _ | .string _ => 0
  | .array items => 1 + itemsDepth items
  | .object members => 1 + membersDepth members

/-- The greatest depth of the items of an array. -/
def itemsDepth : List Json → Nat
  | [] => 0
  | v :: vs => max (depth v) (itemsDepth vs)

/-- The greatest depth of the members of an object. -/
def membersDepth : List (String × Json) → Nat
  | [] => 0
  | (_, v) :: ms => max (depth v) (membersDepth ms)

end

mutual

/-- A value that can be told from its text: its numbers are integers of a machine word, and no object has
a key twice. -/
def Recoverable : Json → Prop
  | .null | .bool _ | .string _ => True
  | .number (.integer n) => InWord n
  | .number (.decimal _ _ _) => False
  | .array items => RecoverableItems items
  | .object members => (members.map Prod.fst).Nodup ∧ RecoverableMembers members

/-- Every item of an array can be told from its text. -/
def RecoverableItems : List Json → Prop
  | [] => True
  | v :: vs => Recoverable v ∧ RecoverableItems vs

/-- Every member of an object can be told from its text. -/
def RecoverableMembers : List (String × Json) → Prop
  | [] => True
  | (_, v) :: ms => Recoverable v ∧ RecoverableMembers ms

end

/-- The computation gives the result if the condition holds, and an error if it does not. -/
structure GivesIf {ε α : Type} (p : Prop) (x : Except ε α) (a : α) : Prop where
  ok : p → x = .ok a
  error : ¬ p → ∃ e, x = .error e

namespace GivesIf

variable {ε α β : Type} {p q : Prop} {x : Except ε α} {a : α} {b : β}

theorem of_ok (hp : p) (hx : x = .ok a) : GivesIf p x a :=
  ⟨fun _ => hx, fun hnot => absurd hp hnot⟩

theorem of_error {e : ε} (hp : ¬ p) (hx : x = .error e) : GivesIf p x a :=
  ⟨fun h => absurd h hp, fun _ => ⟨e, hx⟩⟩

theorem congr (h : GivesIf p x a) (hpq : p ↔ q) : GivesIf q x a :=
  ⟨fun hq => h.ok (hpq.mpr hq), fun hq => h.error (mt hpq.mp hq)⟩

theorem bind {f : α → Except ε β} (hx : GivesIf p x a) (hf : GivesIf q (f a) b) :
    GivesIf (p ∧ q) (x >>= f) b := by
  by_cases hp : p
  · rw [hx.ok hp]
    exact hf.congr (by simp [hp])
  · obtain ⟨e, he⟩ := hx.error hp
    rw [he]
    exact of_error (fun h => hp h.1) rfl

theorem bind_ok {f : α → Except ε β} (hx : GivesIf p x a) (hf : f a = .ok b) :
    GivesIf p (x >>= f) b :=
  (hx.bind (of_ok trivial hf)).congr (by simp)

end GivesIf

theorem skipBlanks_append {w : List Char} (hw : ∀ c ∈ w, isBlank c) {c : Char}
    (hc : isBlank c = false) (s : List Char) : skipBlanks (w ++ c :: s) = c :: s :=
  dropWhile_run_append hw (stops_cons.mpr hc)

theorem isBlank_of_mem_newline {layout : Layout} {depth : Nat} {c : Char}
    (hc : c ∈ layout.newline depth) : isBlank c := by
  cases layout with
  | compact => cases hc
  | pretty =>
      rcases List.mem_cons.mp hc with rfl | hc
      · rfl
      · rw [List.eq_of_mem_replicate hc]
        rfl

theorem isBlank_of_mem_blank {layout : Layout} {c : Char} (hc : c ∈ layout.blank) : isBlank c := by
  cases layout with
  | compact => cases hc
  | pretty =>
      rw [List.mem_singleton.mp hc]
      rfl

theorem endsNumber_newline_append {layout : Layout} {depth : Nat} {s : List Char} (hs : EndsNumber s) :
    EndsNumber (layout.newline depth ++ s) := by
  cases layout with
  | compact => exact hs
  | pretty => exact stops_cons.mpr rfl

/-- The text of a value begins with a character that is no blank and closes nothing. -/
theorem write_eq_cons {json : Json} (h : Recoverable json) (layout : Layout) (depth : Nat) :
    ∃ c s, write layout depth json = c :: s ∧ isBlank c = false ∧ c ≠ ']' ∧ c ≠ '\x7d' := by
  unfold write
  split
  · exact ⟨'n', _, rfl, by decide⟩
  · exact ⟨'t', _, rfl, by decide⟩
  · exact ⟨'f', _, rfl, by decide⟩
  · rename_i n
    cases n with
    | integer n =>
        obtain ⟨c, s, hs, hc⟩ := Integer.repr_eq_cons n
        refine ⟨c, s, hs, ?_⟩
        rcases hc with rfl | hc
        · decide
        · have hne : ∀ d : Char, d.isDigit = false → c ≠ d := by
            rintro d hd rfl
            exact Bool.false_ne_true (hd.symm.trans hc)
          refine ⟨?_, hne _ rfl, hne _ rfl⟩
          simp [isBlank, hne ' ' rfl, hne '\t' rfl, hne '\n' rfl, hne '\r' rfl]
    | decimal negative digits exponent => simp [Recoverable] at h
  · exact ⟨'"', _, rfl, by decide⟩
  · exact ⟨'[', _, rfl, by decide⟩
  · exact ⟨'[', _, rfl, by decide⟩
  · exact ⟨'\x7b', _, rfl, by decide⟩
  · exact ⟨'\x7b', _, rfl, by decide⟩

theorem nextItem_close {w : List Char} (hw : ∀ c ∈ w, isBlank c) (r : List Char) :
    nextItem (w ++ ']' :: r) = .ok (false, r) := by
  unfold nextItem
  rw [skipBlanks_append hw rfl]
  rfl

theorem nextItem_comma {w s : List Char} {c : Char} (hw : ∀ c ∈ w, isBlank c)
    (hblank : isBlank c = false) (hclose : c ≠ ']') :
    nextItem (',' :: (w ++ c :: s)) = .ok (true, w ++ c :: s) := by
  have hskip : skipBlanks (',' :: (w ++ c :: s)) = ',' :: (w ++ c :: s) := rfl
  unfold nextItem
  simp only [hskip, skipBlanks_append hw hblank]
  split
  · contradiction
  · rename_i h
    exact absurd (List.cons.inj h).1 hclose
  · rfl

theorem nextMember_close {w : List Char} (hw : ∀ c ∈ w, isBlank c) (r : List Char) :
    nextMember (w ++ '\x7d' :: r) = .ok (false, r) := by
  unfold nextMember
  rw [skipBlanks_append hw rfl]
  rfl

theorem skipBlanks_writeString {w : List Char} (hw : ∀ c ∈ w, isBlank c) (key : String)
    (s : List Char) : skipBlanks (w ++ (writeString key ++ s)) = writeString key ++ s :=
  skipBlanks_append hw rfl _

theorem nextMember_comma {w : List Char} (hw : ∀ c ∈ w, isBlank c) (key : String) (s : List Char) :
    nextMember (',' :: (w ++ (writeString key ++ s))) = .ok (true, w ++ (writeString key ++ s)) := by
  have hskip : ∀ t, skipBlanks (',' :: t) = ',' :: t := fun _ => rfl
  unfold nextMember
  simp only [hskip, skipBlanks_writeString hw]
  rfl

theorem setMember_of_not_mem {key : String} {members : List (String × Json)}
    (h : key ∉ members.map Prod.fst) (value : Json) :
    setMember key value members = members ++ [(key, value)] := by
  induction members with
  | nil => rfl
  | cons m members ih =>
      obtain ⟨k, v⟩ := m
      rw [List.map_cons, List.mem_cons, not_or] at h
      rw [setMember, if_neg (Ne.symm h.1), ih h.2, List.cons_append]

/-- Members without a key twice keep their places. -/
theorem collect_of_nodup {members : List (String × Json)} (h : (members.map Prod.fst).Nodup) :
    collect members = members := by
  suffices hfold : ∀ front : List (String × Json), ((front ++ members).map Prod.fst).Nodup →
      members.foldl (fun ms m => setMember m.1 m.2 ms) front = front ++ members from hfold [] h
  clear h
  induction members with
  | nil => simp
  | cons m members ih =>
      intro front h
      have hnew : m.1 ∉ front.map Prod.fst := by
        rw [List.map_append, List.map_cons, List.nodup_append] at h
        intro hm
        exact h.2.2 _ hm _ (.head _) rfl
      rw [List.foldl_cons, setMember_of_not_mem hnew, ih]
      · simp
      · simpa using h

/-! ### Values -/

/-- What is read as a value without parts is read as one behind blanks and at any depth. -/
theorem scanValue_of_readScalar {w s r : List Char} {v : Json} (room : Nat) (hw : ∀ c ∈ w, isBlank c)
    (h : readScalar s = .ok (v, r)) : scanValue room (w ++ s) = .ok (v, r) := by
  cases s with
  | nil => cases h
  | cons c s =>
      have hne : ∀ d : Char, (∀ x, readScalar (d :: s) ≠ .ok x) → c ≠ d := by
        rintro d hd rfl
        exact hd _ h
      have hblank : isBlank c = false := by
        have hspace := hne ' ' (by rintro _ ⟨⟩)
        have htab := hne '\t' (by rintro _ ⟨⟩)
        have hfeed := hne '\n' (by rintro _ ⟨⟩)
        have hreturn := hne '\r' (by rintro _ ⟨⟩)
        simp [isBlank, hspace, htab, hfeed, hreturn]
      have hskip := skipBlanks_append hw hblank s
      rw [scanValue_scalar, hskip, h]
      · intro t ht
        exact hne '[' (by rintro _ ⟨⟩) (List.cons.inj (hskip.symm.trans ht)).1
      · intro t ht
        exact hne '\x7b' (by rintro _ ⟨⟩) (List.cons.inj (hskip.symm.trans ht)).1

theorem endsNumber_writeItems (layout : Layout) (depth outer : Nat) (items : List Json) (r : List Char) :
    EndsNumber (writeItems layout depth items ++ (layout.newline outer ++ ']' :: r)) := by
  cases items with
  | nil => exact endsNumber_newline_append (stops_cons.mpr rfl)
  | cons v vs =>
      rw [writeItems]
      exact stops_cons.mpr rfl

theorem endsNumber_writeMembers (layout : Layout) (depth outer : Nat) (members : List (String × Json))
    (r : List Char) :
    EndsNumber (writeMembers layout depth members ++ (layout.newline outer ++ '\x7d' :: r)) := by
  cases members with
  | nil => exact endsNumber_newline_append (stops_cons.mpr rfl)
  | cons m ms =>
      rw [writeMembers]
      exact stops_cons.mpr rfl

/-- A member is read back when its value is. -/
theorem scanMember_write {layout : Layout} {depth room : Nat} {p : Prop} {w r : List Char} {v : Json}
    (hw : ∀ c ∈ w, isBlank c) (key : String)
    (h : GivesIf p (scanValue room (layout.blank ++ (write layout depth v ++ r))) (v, r)) :
    GivesIf p (scanMember room
      (w ++ (writeString key ++ ':' :: (layout.blank ++ (write layout depth v ++ r))))) ((key, v), r) := by
  rw [scanMember_eq, skipBlanks_writeString hw, readKey_writeString]
  exact h.bind_ok rfl

mutual

/-- The text of a value is read as the value when there is room for its depth, and refused otherwise. -/
theorem scanValue_write (layout : Layout) (depth room : Nat) {w r : List Char}
    (hw : ∀ c ∈ w, isBlank c) (hr : EndsNumber r) :
    ∀ json : Json, Recoverable json →
      GivesIf (json.depth ≤ room) (scanValue room (w ++ (write layout depth json ++ r))) (json, r)
  | .null, _ => .of_ok (Nat.zero_le _) (scanValue_of_readScalar room hw rfl)
  | .bool true, _ => .of_ok (Nat.zero_le _) (scanValue_of_readScalar room hw rfl)
  | .bool false, _ => .of_ok (Nat.zero_le _) (scanValue_of_readScalar room hw rfl)
  | .number (.integer _), h =>
      .of_ok (Nat.zero_le _) (scanValue_of_readScalar room hw (readScalar_integer h hr))
  | .number (.decimal _ _ _), h => absurd h (by simp [Recoverable])
  | .string s, _ =>
      .of_ok (Nat.zero_le _) (scanValue_of_readScalar room hw (readScalar_writeString s r))
  | .array [], _ => by
      have hopen := skipBlanks_append hw (show isBlank '[' = false from rfl) (']' :: r)
      cases room with
      | zero => exact .of_error (by simp [Json.depth]) (scanValue_array_zero hopen)
      | succ room => exact .of_ok (by simp [Json.depth, itemsDepth]) (scanValue_array_nil hopen rfl)
  | .array (v :: vs), h => by
      obtain ⟨c, s, hs, hblank, hclose, -⟩ := write_eq_cons h.1 layout (depth + 1)
      have htext : write layout depth (.array (v :: vs)) ++ r =
          '[' :: (layout.newline (depth + 1) ++ (write layout (depth + 1) v ++
            (writeItems layout (depth + 1) vs ++ (layout.newline depth ++ ']' :: r)))) := by
        simp [write]
      rw [htext]
      have hopen := skipBlanks_append hw (show isBlank '[' = false from rfl)
      cases room with
      | zero => exact .of_error (by simp [Json.depth]) (scanValue_array_zero (hopen _))
      | succ room =>
          have hblanks : ∀ c ∈ layout.newline (depth + 1), isBlank c := fun _ => isBlank_of_mem_newline
          have hitem : ∀ t, skipBlanks (layout.newline (depth + 1) ++ (write layout (depth + 1) v ++ t)) =
              c :: (s ++ t) := fun t => hs ▸ skipBlanks_append hblanks hblank (s ++ t)
          have hv := scanValue_write layout (depth + 1) room hblanks
            (endsNumber_writeItems layout (depth + 1) depth vs r) v h.1
          have hvs := scanItems_writeItems layout (depth + 1) depth room r vs h.2
          rw [scanValue_array_cons (hopen _) (hitem _) hclose]
          refine (hv.bind (hvs.bind_ok (b := (Json.array (v :: vs), r)) rfl)).congr ?_
          simp only [Json.depth, itemsDepth]
          omega
  | .object [], _ => by
      have htext : write layout depth (.object []) ++ r =
          '\x7b' :: (layout.newline depth ++ '\x7d' :: r) := by
        simp [write]
      rw [htext]
      have hopen := skipBlanks_append hw (show isBlank '\x7b' = false from rfl)
      cases room with
      | zero => exact .of_error (by simp [Json.depth]) (scanValue_object_zero (hopen _))
      | succ room =>
          have hblanks : ∀ c ∈ layout.newline depth, isBlank c := fun _ => isBlank_of_mem_newline
          have hclose := skipBlanks_append hblanks (show isBlank '\x7d' = false from rfl) r
          exact .of_ok (by simp [Json.depth, membersDepth]) (scanValue_object_nil (hopen _) hclose)
  | .object ((k, v) :: ms), h => by
      have htext : write layout depth (.object ((k, v) :: ms)) ++ r =
          '\x7b' :: (layout.newline (depth + 1) ++ (writeString k ++ ':' :: (layout.blank ++
            (write layout (depth + 1) v ++
              (writeMembers layout (depth + 1) ms ++ (layout.newline depth ++ '\x7d' :: r)))))) := by
        simp [write]
      rw [htext]
      have hopen := skipBlanks_append hw (show isBlank '\x7b' = false from rfl)
      cases room with
      | zero => exact .of_error (by simp [Json.depth]) (scanValue_object_zero (hopen _))
      | succ room =>
          have hblanks : ∀ c ∈ layout.newline (depth + 1), isBlank c := fun _ => isBlank_of_mem_newline
          have hv := scanValue_write layout (depth + 1) room (w := layout.blank) (fun _ => isBlank_of_mem_blank)
            (endsNumber_writeMembers layout (depth + 1) depth ms r) v h.2.1
          have hms := scanMembers_writeMembers layout (depth + 1) depth room r ms h.2.2
          rw [scanValue_object_cons (hopen _) (skipBlanks_writeString hblanks k _) (by decide)]
          refine ((scanMember_write hblanks k hv).bind (hms.bind_ok ?_)).congr ?_
          · rw [collect_of_nodup h.1]
          · simp only [Json.depth, membersDepth]
            omega

theorem scanItems_writeItems (layout : Layout) (depth outer room : Nat) (r : List Char) :
    ∀ items : List Json, RecoverableItems items →
      GivesIf (itemsDepth items ≤ room)
        (scanItems room (writeItems layout depth items ++ (layout.newline outer ++ ']' :: r))) (items, r)
  | [], _ => by
      refine .of_ok (Nat.zero_le _) ?_
      rw [writeItems, List.nil_append, scanItems_eq, nextItem_close (fun _ => isBlank_of_mem_newline)]
      rfl
  | v :: vs, h => by
      obtain ⟨c, s, hs, hblank, hclose, -⟩ := write_eq_cons h.1 layout depth
      have htext : writeItems layout depth (v :: vs) ++ (layout.newline outer ++ ']' :: r) =
          ',' :: (layout.newline depth ++ (write layout depth v ++
            (writeItems layout depth vs ++ (layout.newline outer ++ ']' :: r)))) := by
        simp [writeItems]
      have hblanks : ∀ c ∈ layout.newline depth, isBlank c := fun _ => isBlank_of_mem_newline
      have hcomma : ∀ t, nextItem (',' :: (layout.newline depth ++ (write layout depth v ++ t))) =
          .ok (true, layout.newline depth ++ (write layout depth v ++ t)) := by
        intro t
        rw [hs]
        exact nextItem_comma hblanks hblank hclose
      have hv := scanValue_write layout depth room hblanks
        (endsNumber_writeItems layout depth outer vs r) v h.1
      have hvs := scanItems_writeItems layout depth outer room r vs h.2
      rw [htext, scanItems_eq, hcomma]
      refine (hv.bind (hvs.bind_ok (b := (v :: vs, r)) rfl)).congr ?_
      simp only [itemsDepth]
      omega

theorem scanMembers_writeMembers (layout : Layout) (depth outer room : Nat) (r : List Char) :
    ∀ members : List (String × Json), RecoverableMembers members →
      GivesIf (membersDepth members ≤ room)
        (scanMembers room (writeMembers layout depth members ++ (layout.newline outer ++ '\x7d' :: r)))
        (members, r)
  | [], _ => by
      refine .of_ok (Nat.zero_le _) ?_
      rw [writeMembers, List.nil_append, scanMembers_eq,
        nextMember_close (fun _ => isBlank_of_mem_newline)]
      rfl
  | (k, v) :: ms, h => by
      have htext : writeMembers layout depth ((k, v) :: ms) ++ (layout.newline outer ++ '\x7d' :: r) =
          ',' :: (layout.newline depth ++ (writeString k ++ ':' :: (layout.blank ++
            (write layout depth v ++
              (writeMembers layout depth ms ++ (layout.newline outer ++ '\x7d' :: r)))))) := by
        simp [writeMembers]
      have hblanks : ∀ c ∈ layout.newline depth, isBlank c := fun _ => isBlank_of_mem_newline
      have hv := scanValue_write layout depth room (w := layout.blank) (fun _ => isBlank_of_mem_blank)
        (endsNumber_writeMembers layout depth outer ms r) v h.1
      have hms := scanMembers_writeMembers layout depth outer room r ms h.2
      rw [htext, scanMembers_eq, nextMember_comma hblanks]
      refine ((scanMember_write hblanks k hv).bind (hms.bind_ok (b := ((k, v) :: ms, r)) rfl)).congr ?_
      simp only [membersDepth]
      omega

end

theorem endsNumber_of_blanks {w : List Char} (hw : ∀ c ∈ w, isBlank c) : EndsNumber w := by
  cases w with
  | nil => exact stops_nil
  | cons c w =>
      have hc := hw c (.head _)
      simp only [isBlank, Bool.or_eq_true, decide_eq_true_eq] at hc
      rcases hc with ((rfl | rfl) | rfl) | rfl <;> exact stops_cons.mpr rfl

/-- A written text, with blanks behind it or without, is read as the value when the value is not nested deeper
than allowed, and refused otherwise. -/
theorem readWithin_render_append (layout : Layout) (limit : Nat) {json : Json} (h : Recoverable json)
    {w : String} (hw : ∀ c ∈ w.toList, isBlank c) :
    GivesIf (json.depth ≤ limit) (readWithin limit (render layout json ++ w)) json := by
  have hvalue := scanValue_write layout 0 limit (w := []) (by simp) (endsNumber_of_blanks hw) json h
  rw [List.nil_append] at hvalue
  rw [readWithin_eq, render, String.toList_append, String.toList_ofList]
  refine hvalue.bind_ok ?_
  have hend : skipBlanks w.toList = [] := List.dropWhile_eq_nil_iff.mpr hw
  simp only [hend]

theorem readWithin_render (layout : Layout) (limit : Nat) {json : Json} (h : Recoverable json) :
    GivesIf (json.depth ≤ limit) (readWithin limit (render layout json)) json := by
  have hread := readWithin_render_append layout limit h (w := "") (by simp)
  rwa [String.append_empty] at hread

theorem read_render (layout : Layout) {json : Json} (h : Recoverable json) :
    GivesIf (json.depth ≤ maxDepth) (read (render layout json)) json :=
  readWithin_render layout maxDepth h

/-- No character is one of the control characters below the space. -/
def NoControl (s : List Char) : Prop :=
  ∀ c ∈ s, 0x20 ≤ c.toNat

@[simp]
theorem noControl_cons {c : Char} {s : List Char} : NoControl (c :: s) ↔ 0x20 ≤ c.toNat ∧ NoControl s :=
  List.forall_mem_cons

@[simp]
theorem noControl_append {s t : List Char} : NoControl (s ++ t) ↔ NoControl s ∧ NoControl t :=
  List.forall_mem_append

@[simp]
theorem noControl_nil : NoControl [] :=
  List.forall_mem_nil _

theorem toNat_digitChar_ge : ∀ n < 16, 0x20 ≤ (Nat.digitChar n).toNat := by
  decide

/-- A control character inside a string is escaped. -/
theorem noControl_escapeChar (c : Char) : NoControl (escapeChar c) := by
  have hdigit : ∀ n, 0x20 ≤ (hexDigit n).toNat := fun n => toNat_digitChar_ge _ (Nat.mod_lt _ (by decide))
  unfold escapeChar
  iterate 7
    split
    · simp
  split
  · simp [hdigit]
  · rename_i h
    simp [Nat.not_lt.mp h]

theorem noControl_writeString (s : String) : NoControl (writeString s) := by
  have hbody : NoControl (s.toList.flatMap escapeChar) := by
    intro c hc
    obtain ⟨d, -, hd⟩ := List.mem_flatMap.mp hc
    exact noControl_escapeChar d c hd
  simp [writeString, hbody]

theorem noControl_toDigits (n : Nat) : NoControl (Nat.toDigits 10 n) := by
  intro c hc
  have hdigit := (Integer.isDigits_toDigits n).isDigit c hc
  have hge : 48 ≤ c.toNat := by
    simp only [Char.isDigit, Bool.and_eq_true, decide_eq_true_eq] at hdigit
    exact hdigit.1
  omega

theorem noControl_repr (n : Int) : NoControl n.repr.toList := by
  cases n with
  | ofNat n =>
      rw [Int.ofNat_eq_natCast, Integer.toList_repr_natCast]
      exact noControl_toDigits n
  | negSucc n =>
      rw [Integer.toList_repr_negSucc]
      simp [noControl_toDigits]

theorem noControl_writeNumber (n : Number) : NoControl (writeNumber n) := by
  cases n with
  | integer n => exact noControl_repr n
  | decimal negative digits exponent =>
      cases negative <;> simp [writeNumber, noControl_repr, Nat.toList_repr, noControl_toDigits]

mutual

/-- On one line no control character is written. -/
theorem noControl_write (depth : Nat) : ∀ json : Json, NoControl (write .compact depth json)
  | .null | .bool true | .bool false => by simp [write]
  | .number n => by
      rw [write]
      exact noControl_writeNumber n
  | .string s => by
      rw [write]
      exact noControl_writeString s
  | .array [] => by simp [write]
  | .array (v :: vs) => by
      simp [write, Layout.newline, noControl_write (depth + 1) v, noControl_writeItems (depth + 1) vs]
  | .object [] => by simp [write, Layout.newline]
  | .object ((k, v) :: ms) => by
      simp [write, Layout.newline, Layout.blank, noControl_writeString k, noControl_write (depth + 1) v,
        noControl_writeMembers (depth + 1) ms]

theorem noControl_writeItems (depth : Nat) : ∀ items : List Json, NoControl (writeItems .compact depth items)
  | [] => by simp [writeItems]
  | v :: vs => by simp [writeItems, Layout.newline, noControl_write depth v, noControl_writeItems depth vs]

theorem noControl_writeMembers (depth : Nat) :
    ∀ members : List (String × Json), NoControl (writeMembers .compact depth members)
  | [] => by simp [writeMembers]
  | (k, v) :: ms => by
      simp [writeMembers, Layout.newline, Layout.blank, noControl_writeString k, noControl_write depth v,
        noControl_writeMembers depth ms]

end

end MessageFormat.Json
