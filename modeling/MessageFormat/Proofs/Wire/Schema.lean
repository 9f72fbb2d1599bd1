import MessageFormat.Proofs.Wire.Report
import Mathlib.Tactic.IntervalCases

/-! The schema of the JSON form. A value is the form of a message exactly if it conforms to the schema; for any
other value the reader reports the first defect in depth-first order, and the place that it names is the place
of the whole value followed by the steps that lead to the part that has the defect. -/

namespace MessageFormat.Wire

/-- The member `type` of a value is the unsigned integer `code`. -/
def HasCode (code : Nat) (json : Json) : Prop :=
  ∃ v, json.get? "type" = some v ∧ v.natural? = some code

/-- The member `value` of a value is a text. -/
def HasText (json : Json) : Prop :=
  ∃ s, json.get? "value" = some (.string s)

mutual

/-- A value that conforms to the schema of a message. -/
inductive Conforms : Json → Prop
  | elements {items : List Json} (hitems : ∀ v ∈ items, ElementConforms v) : Conforms (.array items)

/-- A value that conforms to the schema of an element. -/
inductive ElementConforms : Json → Prop
  | plain {json : Json} {code : Nat} (hcode : HasCode code json) (hplain : code ≤ 4) (htext : HasText json) :
      ElementConforms json
  | selection {json : Json} {code : Nat} {options : List (String × Json)} (hcode : HasCode code json)
      (hselection : code = 5 ∨ code = 6) (htext : HasText json)
      (hget : json.get? "options" = some (.object options))
      (hoptions : ∀ option ∈ options, BranchConforms option.2) : ElementConforms json
  | pound {json : Json} (hcode : HasCode 7 json) : ElementConforms json
  | tag {json children : Json} (hcode : HasCode 8 json) (htext : HasText json)
      (hget : json.get? "children" = some children) (hchildren : Conforms children) : ElementConforms json

/-- A value that conforms to the schema of a branch. -/
inductive BranchConforms : Json → Prop
  | wrapped {json branch : Json} (hget : json.get? "value" = some branch) (hbranch : Conforms branch) :
      BranchConforms json

end

mutual

/-- What is wrong with a value that should be the form of a message. Whatever comes before it, in the order of the
array, conforms. -/
inductive FirstDefect : Json → Mismatch → Prop
  | shape {json : Json} (harray : ∀ items, json ≠ .array items) : FirstDefect json ⟨.shape .elements, []⟩
  | item {front rest : List Json} {v : Json} {m : Mismatch} (hfront : ∀ u ∈ front, ElementConforms u)
      (hv : ElementFirstDefect v m) :
      FirstDefect (.array (front ++ v :: rest)) (m.under (.index front.length))

/-- What is wrong with a value that should be the form of an element. It is an object before its type is looked
at, the type is there, is a number and is known before the text is, and the text is right before the children
or the options are; of the options, those in front of a wrong one conform. -/
inductive ElementFirstDefect : Json → Mismatch → Prop
  | shape {json : Json} (hobject : ∀ members, json ≠ .object members) :
      ElementFirstDefect json ⟨.shape .element, []⟩
  | noCode {members : List (String × Json)} (hget : (Json.object members).get? "type" = none) :
      ElementFirstDefect (.object members) ⟨.missingMember "type", []⟩
  | notCode {json v : Json} (hget : json.get? "type" = some v) (hv : v.natural? = none) :
      ElementFirstDefect json ⟨.shape .kindCode, [.member "type"]⟩
  | unknown {json : Json} {code : Nat} (hcode : HasCode code json) (hunknown : 8 < code) :
      ElementFirstDefect json ⟨.unknownKind code, []⟩
  | noText {json : Json} {code : Nat} (hcode : HasCode code json) (hknown : code ≤ 8) (hpound : code ≠ 7)
      (hget : json.get? "value" = none) : ElementFirstDefect json ⟨.missingMember "value", []⟩
  | notText {json v : Json} {code : Nat} (hcode : HasCode code json) (hknown : code ≤ 8) (hpound : code ≠ 7)
      (hget : json.get? "value" = some v) (hv : ∀ s, v ≠ .string s) :
      ElementFirstDefect json ⟨.shape .text, [.member "value"]⟩
  | noChildren {json : Json} (hcode : HasCode 8 json) (htext : HasText json)
      (hget : json.get? "children" = none) : ElementFirstDefect json ⟨.missingMember "children", []⟩
  | children {json children : Json} {m : Mismatch} (hcode : HasCode 8 json) (htext : HasText json)
      (hget : json.get? "children" = some children) (hchildren : FirstDefect children m) :
      ElementFirstDefect json (m.under (.member "children"))
  | noOptions {json : Json} {code : Nat} (hcode : HasCode code json) (hselection : code = 5 ∨ code = 6)
      (htext : HasText json) (hget : json.get? "options" = none) :
      ElementFirstDefect json ⟨.missingMember "options", []⟩
  | notOptions {json v : Json} {code : Nat} (hcode : HasCode code json) (hselection : code = 5 ∨ code = 6)
      (htext : HasText json) (hget : json.get? "options" = some v) (hv : ∀ options, v ≠ .object options) :
      ElementFirstDefect json ⟨.shape .options, [.member "options"]⟩
  | option {json v : Json} {code : Nat} {front rest : List (String × Json)} {key : String} {m : Mismatch}
      (hcode : HasCode code json) (hselection : code = 5 ∨ code = 6) (htext : HasText json)
      (hget : json.get? "options" = some (.object (front ++ (key, v) :: rest)))
      (hfront : ∀ option ∈ front, BranchConforms option.2) (hv : BranchFirstDefect v m) :
      ElementFirstDefect json ((m.under (.member key)).under (.member "options"))

/-- What is wrong with a value that should wrap a branch. -/
inductive BranchFirstDefect : Json → Mismatch → Prop
  | missing {json : Json} (hget : json.get? "value" = none) :
      BranchFirstDefect json ⟨.missingMember "value", []⟩
  | branch {json branch : Json} {m : Mismatch} (hget : json.get? "value" = some branch)
      (hbranch : FirstDefect branch m) : BranchFirstDefect json (m.under (.member "value"))

end

/-- Where each entry of a list is good or bad, all of them are good, or one is bad and those in front of it are
good. -/
theorem forall_or_first {α : Type} {good bad : α → Prop} {xs : List α} (h : ∀ x ∈ xs, good x ∨ bad x) :
    (∀ x ∈ xs, good x) ∨ ∃ front x rest, xs = front ++ x :: rest ∧ (∀ y ∈ front, good y) ∧ bad x := by
  induction xs with
  | nil => exact Or.inl (List.forall_mem_nil _)
  | cons x xs ih =>
      obtain ⟨hx, hxs⟩ := List.forall_mem_cons.mp h
      rcases hx with hgood | hbad
      · rcases ih hxs with hall | ⟨front, y, rest, rfl, hfront, hy⟩
        · exact Or.inl (List.forall_mem_cons.mpr ⟨hgood, hall⟩)
        · exact Or.inr ⟨x :: front, y, rest, rfl, List.forall_mem_cons.mpr ⟨hgood, hfront⟩, hy⟩
      · exact Or.inr ⟨[], x, xs, rfl, List.forall_mem_nil _, hbad⟩

section Dichotomy

variable {json : Json} (ih : ∀ v : Json, sizeOf v < sizeOf json → Conforms v ∨ ∃ m, FirstDefect v m)

include ih

theorem branch_conforms_or_firstDefect : BranchConforms json ∨ ∃ m, BranchFirstDefect json m := by
  cases hget : json.get? "value" with
  | none => exact Or.inr ⟨_, .missing hget⟩
  | some branch =>
      rcases ih branch (Json.sizeOf_lt_of_get? hget) with hbranch | ⟨m, hm⟩
      · exact Or.inl (.wrapped hget hbranch)
      · exact Or.inr ⟨_, .branch hget hm⟩

theorem tag_conforms_or_firstDefect (hcode : HasCode 8 json) (htext : HasText json) :
    ElementConforms json ∨ ∃ m, ElementFirstDefect json m := by
  cases hget : json.get? "children" with
  | none => exact Or.inr ⟨_, .noChildren hcode htext hget⟩
  | some children =>
      rcases ih children (Json.sizeOf_lt_of_get? hget) with hchildren | ⟨m, hm⟩
      · exact Or.inl (.tag hcode htext hget hchildren)
      · exact Or.inr ⟨_, .children hcode htext hget hm⟩

theorem selection_conforms_or_firstDefect {code : Nat} (hcode : HasCode code json)
    (hselection : code = 5 ∨ code = 6) (htext : HasText json) :
    ElementConforms json ∨ ∃ m, ElementFirstDefect json m := by
  cases hget : json.get? "options" with
  | none => exact Or.inr ⟨_, .noOptions hcode hselection htext hget⟩
  | some v =>
      cases v with
      | object options =>
          have hlt := Json.sizeOf_lt_of_get? hget
          have hbranches : ∀ option ∈ options,
              BranchConforms option.2 ∨ ∃ m, BranchFirstDefect option.2 m := by
            rintro ⟨key, v⟩ hoption
            have hsize := List.sizeOf_lt_of_mem hoption
            simp only [Json.object.sizeOf_spec, Prod.mk.sizeOf_spec] at hlt hsize
            exact branch_conforms_or_firstDefect fun w (hw : sizeOf w < sizeOf v) => ih w (by omega)
          rcases forall_or_first hbranches with hall | ⟨front, ⟨key, v⟩, rest, rfl, hfront, m, hm⟩
          · exact Or.inl (.selection hcode hselection htext hget hall)
          · exact Or.inr ⟨_, .option hcode hselection htext hget hfront hm⟩
      | _ => exact Or.inr ⟨_, .notOptions hcode hselection htext hget (by simp)⟩

theorem element_conforms_or_firstDefect : ElementConforms json ∨ ∃ m, ElementFirstDefect json m := by
  cases hget : json.get? "type" with
  | none =>
      cases json with
      | object members => exact Or.inr ⟨_, .noCode hget⟩
      | _ => exact Or.inr ⟨_, .shape (by simp)⟩
  | some v =>
      cases hv : v.natural? with
      | none => exact Or.inr ⟨_, .notCode hget hv⟩
      | some code =>
          have hcode : HasCode code json := ⟨v, hget, hv⟩
          by_cases hknown : code ≤ 8
          · by_cases hpound : code = 7
            · exact Or.inl (.pound (hpound ▸ hcode))
            · cases hvalue : json.get? "value" with
              | none => exact Or.inr ⟨_, .noText hcode hknown hpound hvalue⟩
              | some value =>
                  cases value with
                  | string s =>
                      have htext : HasText json := ⟨s, hvalue⟩
                      by_cases hplain : code ≤ 4
                      · exact Or.inl (.plain hcode hplain htext)
                      · by_cases htag : code = 8
                        · exact tag_conforms_or_firstDefect ih (htag ▸ hcode) htext
                        · exact selection_conforms_or_firstDefect ih hcode (by omega) htext
                  | _ => exact Or.inr ⟨_, .notText hcode hknown hpound hvalue (by simp)⟩
          · exact Or.inr ⟨_, .unknown hcode (Nat.lt_of_not_le hknown)⟩

end Dichotomy

theorem conforms_or_firstDefect (json : Json) : Conforms json ∨ ∃ m, FirstDefect json m := by
  cases json with
  | array items =>
      have helements : ∀ v ∈ items, ElementConforms v ∨ ∃ m, ElementFirstDefect v m := by
        intro v hv
        have hsize := List.sizeOf_lt_of_mem hv
        refine element_conforms_or_firstDefect fun w hw => ?_
        have : sizeOf w < sizeOf (Json.array items) := by
          simp only [Json.array.sizeOf_spec]
          omega
        exact conforms_or_firstDefect w
      rcases forall_or_first helements with hall | ⟨front, v, rest, rfl, hfront, m, hm⟩
      · exact Or.inl (.elements hall)
      · exact Or.inr ⟨_, .item hfront hm⟩
  | _ => exact Or.inr ⟨_, .shape (by simp)⟩
termination_by sizeOf json

/-! ### Reading what conforms -/

section Kinds

variable {json : Json} {code : Nat}

theorem kindOf_of_hasCode (h : HasCode code json) :
    kindOf json =
      match Kind.ofCode? code with
      | none => refuse (.unknownKind code)
      | some kind => .ok kind := by
  obtain ⟨v, hget, hv⟩ := h
  cases json with
  | object members => cases hkind : Kind.ofCode? code <;> simp only [kindOf, hget, hv, hkind]
  | _ => cases hget

theorem kindOf_eq_ok {kind : Kind} (h : HasCode kind.code json) : kindOf json = .ok kind := by
  rw [kindOf_of_hasCode h, Kind.ofCode?_code]

theorem kindOf_unknown (h : HasCode code json) (hunknown : 8 < code) :
    kindOf json = refuse (.unknownKind code) := by
  have hnone : Kind.ofCode? code = none := by
    unfold Kind.ofCode?
    split <;> first | rfl | omega
  rw [kindOf_of_hasCode h, hnone]

theorem valueText_eq_ok {s : String} (h : json.get? "value" = some (.string s)) : valueText json = .ok s := by
  rw [valueText, h]
  rfl

theorem valueText_notText {v : Json} (hget : json.get? "value" = some v) (hv : ∀ s, v ≠ .string s) :
    valueText json = within (.member "value") (refuse (.shape .text)) := by
  rw [valueText, hget]
  cases v with
  | string s => exact absurd rfl (hv s)
  | _ => rfl

theorem decodeOptions_notObject {v : Json} (hget : json.get? "options" = some v)
    (hv : ∀ options, v ≠ .object options) :
    decodeOptions json = within (.member "options") (refuse (.shape .options)) := by
  rw [decodeOptions_eq, hget]
  cases v with
  | object options => exact absurd rfl (hv options)
  | _ => rfl

theorem exists_kind (hknown : code ≤ 8) : ∃ kind : Kind, kind.code = code := by
  interval_cases code
  exacts [⟨.literal, rfl⟩, ⟨.argument, rfl⟩, ⟨.number, rfl⟩, ⟨.date, rfl⟩, ⟨.time, rfl⟩, ⟨.select, rfl⟩,
    ⟨.plural, rfl⟩, ⟨.pound, rfl⟩, ⟨.tag, rfl⟩]

/-- An element other than a pound sign is read on from its text. -/
theorem decodeElement_text (hcode : HasCode code json) (hknown : code ≤ 8) (hpound : code ≠ 7) :
    ∃ next, decodeElement json = valueText json >>= next := by
  obtain ⟨kind, rfl⟩ := exists_kind hknown
  rw [decodeElement_eq, kindOf_eq_ok hcode]
  cases kind with
  | pound => exact absurd rfl hpound
  | _ => exact ⟨_, rfl⟩

theorem decodeElement_plain (hcode : HasCode code json) (hplain : code ≤ 4) (htext : HasText json) :
    ∃ e, decodeElement json = .ok e := by
  obtain ⟨kind, rfl⟩ := exists_kind (Nat.le_trans hplain (by decide))
  obtain ⟨s, hs⟩ := htext
  rw [decodeElement_eq, kindOf_eq_ok hcode, valueText_eq_ok hs]
  cases kind with
  | literal | argument | number | date | time => exact ⟨_, rfl⟩
  | select | plural | pound | tag => exact absurd hplain (by decide)

theorem decodeElement_pound (hcode : HasCode 7 json) : decodeElement json = .ok .pound := by
  have hkind : kindOf json = .ok .pound := kindOf_eq_ok hcode
  rw [decodeElement_eq, hkind]
  rfl

/-- What is read of a selection behind its text is what is read of its options. -/
theorem decodeElement_selection (hcode : HasCode code json) (hselection : code = 5 ∨ code = 6)
    (htext : HasText json) : ∃ make, decodeElement json = (decodeOptions json).map make := by
  obtain ⟨s, hs⟩ := htext
  rcases hselection with rfl | rfl
  · have hkind : kindOf json = .ok .select := kindOf_eq_ok hcode
    rw [decodeElement_eq, hkind, valueText_eq_ok hs]
    exact ⟨.select s, rfl⟩
  · have hkind : kindOf json = .ok .plural := kindOf_eq_ok hcode
    rw [decodeElement_eq, hkind, valueText_eq_ok hs]
    exact ⟨.plural s (pluralKind json) (pluralOffset json), rfl⟩

/-- What is read of a tag behind its name is what is read of its children. -/
theorem decodeElement_tag (hcode : HasCode 8 json) (htext : HasText json) :
    ∃ make, decodeElement json = (decodeChildren json).map make := by
  obtain ⟨s, hs⟩ := htext
  have hkind : kindOf json = .ok .tag := kindOf_eq_ok hcode
  rw [decodeElement_eq, hkind, valueText_eq_ok hs]
  exact ⟨.tag s, rfl⟩

end Kinds

section Lists

theorem decodeItems_of_forall {items : List Json} (h : ∀ v ∈ items, ∃ e, decodeElement v = .ok e) (i : Nat) :
    ∃ es, decodeItems i items = .ok es := by
  induction items generalizing i with
  | nil => exact ⟨[], by rw [decodeItems]⟩
  | cons v vs ih =>
      obtain ⟨⟨e, he⟩, hvs⟩ := List.forall_mem_cons.mp h
      obtain ⟨es, hes⟩ := ih hvs (i + 1)
      exact ⟨e :: es, by rw [decodeItems, he, hes]; rfl⟩

theorem decodeBranches_of_forall {options : List (String × Json)}
    (h : ∀ option ∈ options, ∃ es, decodeBranch option.2 = .ok es) :
    ∃ branches, decodeBranches options = .ok branches := by
  induction options with
  | nil => exact ⟨[], by rw [decodeBranches]⟩
  | cons option options ih =>
      obtain ⟨key, v⟩ := option
      obtain ⟨⟨es, hes⟩, hoptions⟩ := List.forall_mem_cons.mp h
      obtain ⟨branches, hbranches⟩ := ih hoptions
      exact ⟨(key, es) :: branches, by rw [decodeBranches, hes, hbranches]; rfl⟩

/-- Reading an array stops at the first item that cannot be read. -/
theorem decodeItems_stop {front rest : List Json} {v : Json} {m : Mismatch}
    (hfront : ∀ u ∈ front, ∃ e, decodeElement u = .ok e) (hv : decodeElement v = .error m) (i : Nat) :
    decodeItems i (front ++ v :: rest) = .error (m.under (.index (i + front.length))) := by
  induction front generalizing i with
  | nil =>
      rw [List.nil_append, decodeItems, hv]
      rfl
  | cons u front ih =>
      obtain ⟨⟨e, he⟩, hfront⟩ := List.forall_mem_cons.mp hfront
      rw [List.cons_append, decodeItems, he, ih hfront (i + 1), List.length_cons, Nat.add_right_comm]
      rfl

/-- Reading options stops at the first one that cannot be read. -/
theorem decodeBranches_stop {front rest : List (String × Json)} {key : String} {v : Json} {m : Mismatch}
    (hfront : ∀ option ∈ front, ∃ es, decodeBranch option.2 = .ok es) (hv : decodeBranch v = .error m) :
    decodeBranches (front ++ (key, v) :: rest) = .error (m.under (.member key)) := by
  induction front with
  | nil =>
      rw [List.nil_append, decodeBranches, hv]
      rfl
  | cons option front ih =>
      obtain ⟨name, u⟩ := option
      obtain ⟨⟨es, hes⟩, hfront⟩ := List.forall_mem_cons.mp hfront
      rw [List.cons_append, decodeBranches, hes, ih hfront]
      rfl

end Lists

mutual

/-- What conforms is read. -/
theorem decode_of_conforms {json : Json} : Conforms json → ∃ es, decode json = .ok es
  | .elements hitems => by
      rw [decode]
      exact decodeItems_of_forall (fun v hv => decodeElement_of_conforms (hitems v hv)) 0

theorem decodeElement_of_conforms {json : Json} : ElementConforms json → ∃ e, decodeElement json = .ok e
  | .plain hcode hplain htext => decodeElement_plain hcode hplain htext
  | .selection hcode hselection htext hget hoptions => by
      obtain ⟨branches, hbranches⟩ :=
        decodeBranches_of_forall fun option hoption => decodeBranch_of_conforms (hoptions option hoption)
      obtain ⟨make, hmake⟩ := decodeElement_selection hcode hselection htext
      exact ⟨make branches, by rw [hmake, decodeOptions_object hget, hbranches]; rfl⟩
  | .pound hcode => ⟨.pound, decodeElement_pound hcode⟩
  | .tag hcode htext hget hchildren => by
      obtain ⟨es, hes⟩ := decode_of_conforms hchildren
      obtain ⟨make, hmake⟩ := decodeElement_tag hcode htext
      exact ⟨make es, by rw [hmake, decodeChildren_some hget, hes]; rfl⟩

theorem decodeBranch_of_conforms {json : Json} : BranchConforms json → ∃ es, decodeBranch json = .ok es
  | .wrapped hget hbranch => by
      obtain ⟨es, hes⟩ := decode_of_conforms hbranch
      exact ⟨es, by rw [decodeBranch_some hget, hes]; rfl⟩

end

mutual

/-- The first defect of a value is the one that is reported. -/
theorem decode_of_firstDefect {json : Json} {m : Mismatch} : FirstDefect json m → decode json = .error m
  | .shape harray => by
      cases json with
      | array items => exact absurd rfl (harray items)
      | _ =>
          rw [decode]
          · rfl
          · nofun
  | .item hfront hv => by
      rw [decode, decodeItems_stop (fun u hu => decodeElement_of_conforms (hfront u hu))
        (decodeElement_of_firstDefect hv), Nat.zero_add]

theorem decodeElement_of_firstDefect {json : Json} {m : Mismatch} :
    ElementFirstDefect json m → decodeElement json = .error m
  | .shape hobject => by
      rw [decodeElement_eq]
      cases json with
      | object members => exact absurd rfl (hobject members)
      | _ => rfl
  | .noCode hget => by
      rw [decodeElement_eq, kindOf, hget]
      rfl
  | .notCode hget hv => by
      rw [decodeElement_eq]
      cases json with
      | object members =>
          rw [kindOf]
          simp only [hget, hv]
          rfl
      | _ => cases hget
  | .unknown hcode hunknown => by
      rw [decodeElement_eq, kindOf_unknown hcode hunknown]
      rfl
  | .noText hcode hknown hpound hget => by
      obtain ⟨next, hnext⟩ := decodeElement_text hcode hknown hpound
      rw [hnext, valueText, hget]
      rfl
  | .notText hcode hknown hpound hget hv => by
      obtain ⟨next, hnext⟩ := decodeElement_text hcode hknown hpound
      rw [hnext, valueText_notText hget hv]
      rfl
  | .noChildren hcode htext hget => by
      obtain ⟨make, hmake⟩ := decodeElement_tag hcode htext
      rw [hmake, decodeChildren, hget]
      rfl
  | .children hcode htext hget hchildren => by
      obtain ⟨make, hmake⟩ := decodeElement_tag hcode htext
      rw [hmake, decodeChildren_some hget, decode_of_firstDefect hchildren]
      rfl
  | .noOptions hcode hselection htext hget => by
      obtain ⟨make, hmake⟩ := decodeElement_selection hcode hselection htext
      rw [hmake, decodeOptions_eq, hget]
      rfl
  | .notOptions hcode hselection htext hget hv => by
      obtain ⟨make, hmake⟩ := decodeElement_selection hcode hselection htext
      rw [hmake, decodeOptions_notObject hget hv]
      rfl
  | .option hcode hselection htext hget hfront hv => by
      obtain ⟨make, hmake⟩ := decodeElement_selection hcode hselection htext
      rw [hmake, decodeOptions_object hget,
        decodeBranches_stop (fun option hoption => decodeBranch_of_conforms (hfront option hoption))
          (decodeBranch_of_firstDefect hv)]
      rfl

theorem decodeBranch_of_firstDefect {json : Json} {m : Mismatch} :
    BranchFirstDefect json m → decodeBranch json = .error m
  | .missing hget => by
      rw [decodeBranch_eq, hget]
      rfl
  | .branch hget hbranch => by
      rw [decodeBranch_some hget, decode_of_firstDefect hbranch]
      rfl

end

/-- A path leads from a value to one of its parts. The step to a member goes to any member under the key, of which
an object that was read has one. -/
inductive Leads : Json → List Step → Json → Prop
  | here (json : Json) : Leads json [] json
  | index {items : List Json} {i : Nat} {v part : Json} {path : List Step} (hv : items[i]? = some v)
      (hpath : Leads v path part) : Leads (.array items) (.index i :: path) part
  | member {members : List (String × Json)} {key : String} {v part : Json} {path : List Step}
      (hv : (key, v) ∈ members) (hpath : Leads v path part) : Leads (.object members) (.member key :: path) part

/-- A value has a defect: it is not what it should be, is an element of no known kind, or lacks a member. -/
def Offends : Defect → Json → Prop
  | .shape .elements, v => ∀ items, v ≠ .array items
  | .shape .element, v => ∀ members, v ≠ .object members
  | .shape .kindCode, v => v.natural? = none
  | .shape .text, v => ∀ s, v ≠ .string s
  | .shape .options, v => ∀ members, v ≠ .object members
  | .unknownKind code, v => HasCode code v ∧ 8 < code
  | .missingMember key, v => v.get? key = none

/-- A path leads to a part that has the defect. -/
def Located (json : Json) (m : Mismatch) : Prop :=
  ∃ part, Leads json m.path part ∧ Offends m.defect part

theorem located_here {json : Json} (defect : Defect) (h : Offends defect json) : Located json ⟨defect, []⟩ :=
  ⟨json, .here json, h⟩

theorem Located.member {members : List (String × Json)} {key : String} {v : Json} {m : Mismatch}
    (hv : (key, v) ∈ members) (h : Located v m) : Located (.object members) (m.under (.member key)) := by
  obtain ⟨part, hpath, hpart⟩ := h
  exact ⟨part, .member hv hpath, hpart⟩

theorem Located.of_get? {json v : Json} {key : String} {m : Mismatch} (hget : json.get? key = some v)
    (h : Located v m) : Located json (m.under (.member key)) := by
  cases json with
  | object members => exact h.member (Json.mem_of_get? hget)
  | _ => cases hget

mutual

theorem FirstDefect.located {json : Json} {m : Mismatch} : FirstDefect json m → Located json m
  | .shape harray => located_here _ harray
  | .item hfront hv => by
      obtain ⟨part, hpath, hpart⟩ := hv.located
      exact ⟨part, .index (by simp) hpath, hpart⟩

theorem ElementFirstDefect.located {json : Json} {m : Mismatch} : ElementFirstDefect json m → Located json m
  | .shape hobject => located_here _ hobject
  | .noCode hget | .noText _ _ _ hget | .noChildren _ _ hget | .noOptions _ _ _ hget => located_here _ hget
  | .notCode hget hv => (located_here (.shape .kindCode) hv).of_get? hget
  | .unknown hcode hunknown => located_here _ ⟨hcode, hunknown⟩
  | .notText _ _ _ hget hv => (located_here (.shape .text) hv).of_get? hget
  | .children _ _ hget hchildren => hchildren.located.of_get? hget
  | .notOptions _ _ _ hget hv => (located_here (.shape .options) hv).of_get? hget
  | .option _ _ _ hget _ hv => (hv.located.member (by simp)).of_get? hget

theorem BranchFirstDefect.located {json : Json} {m : Mismatch} : BranchFirstDefect json m → Located json m
  | .missing hget => located_here _ hget
  | .branch hget hbranch => hbranch.located.of_get? hget

end

/-- A value is read exactly if it conforms. -/
theorem decode_eq_ok_iff_conforms (json : Json) : (∃ es, decode json = .ok es) ↔ Conforms json := by
  refine ⟨?_, decode_of_conforms⟩
  rintro ⟨es, hes⟩
  rcases conforms_or_firstDefect json with h | ⟨m, hm⟩
  · exact h
  · cases hes.symm.trans (decode_of_firstDefect hm)

/-- A value is refused for its first defect. -/
theorem decode_eq_error_iff_firstDefect (json : Json) (m : Mismatch) :
    decode json = .error m ↔ FirstDefect json m := by
  refine ⟨fun herror => ?_, decode_of_firstDefect⟩
  rcases conforms_or_firstDefect json with h | ⟨m', hm'⟩
  · obtain ⟨es, hes⟩ := decode_of_conforms h
    cases hes.symm.trans herror
  · cases herror.symm.trans (decode_of_firstDefect hm')
    exact hm'

/-- The words for a defect. -/
def Defect.words : Defect → String
  | .shape expected => "expected " ++ expected.words
  | .unknownKind code => "unknown element type " ++ code.repr
  | .missingMember key => "missing field \"" ++ key ++ "\""

theorem message_eq (report : Report) : report.message = report.defect.words ++ " at " ++ report.place := by
  obtain ⟨defect, place⟩ := report
  cases defect <;> exact String.append_assoc.symm

/-- The reader accepts exactly the values that conform to the schema. Of any other value it reports the first
defect, and for its place the place of the whole value followed by the text of the path to the part that has the
defect. The place of the whole value comes into nothing else. People are told the words for the defect and its
place. -/
theorem decodeAt_agrees_with_schema (json : Json) :
    (∀ place, (∃ es, decodeAt place json = .ok es) ↔ Conforms json) ∧
      (∀ place report, decodeAt place json = .error report ↔
        ∃ m part, FirstDefect json m ∧ Leads json m.path part ∧ Offends m.defect part ∧
          report = ⟨m.defect, place ++ pathText m.path⟩) ∧
      (∀ place, decodeAt place json =
        (decode json).mapError fun m => ⟨m.defect, place ++ pathText m.path⟩) ∧
      ∀ report : Report, report.message = report.defect.words ++ " at " ++ report.place := by
  refine ⟨fun place => ?_, fun place report => ?_, fun place => ?_, message_eq⟩
  · rw [← decode_eq_ok_iff_conforms, decodeAt_eq_reported]
    exact exists_congr fun es => reported_eq_ok
  · rw [decodeAt_eq_reported, reported_eq_error]
    constructor
    · rintro ⟨m, hm, rfl⟩
      have hfirst := (decode_eq_error_iff_firstDefect json m).mp hm
      obtain ⟨part, hpath, hpart⟩ := hfirst.located
      exact ⟨m, part, hfirst, hpath, hpart, report_eq place m⟩
    · rintro ⟨m, part, hfirst, -, -, rfl⟩
      exact ⟨m, decode_of_firstDefect hfirst, report_eq place m⟩
  · rw [decodeAt_eq_reported, reported, funext (report_eq place)]

end MessageFormat.Wire
