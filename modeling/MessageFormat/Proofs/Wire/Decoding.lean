import MessageFormat.Wire.Decode
import MessageFormat.Text.Parsed

/-! The equations by which the reader of the JSON form calls itself, without the proofs that it carries to be
seen to end, and what they say of a value that was read. -/

namespace MessageFormat.Wire

/-- The elements between the ends of the tag that a value is the form of. -/
def decodeChildren (json : Json) : Except Mismatch (List Element) :=
  match json.get? "children" with
  | none => refuse (.missingMember "children")
  | some v => within (.member "children") (decode v)

theorem decodeOptions_eq (json : Json) :
    decodeOptions json =
      match json.get? "options" with
      | none => refuse (.missingMember "options")
      | some (.object members) => within (.member "options") (decodeBranches members)
      | some _ => within (.member "options") (refuse (.shape .options)) := by
  rw [decodeOptions]
  split
  · rename_i h
    simp only [h]
  · rename_i members h
    simp only [h]
  · rename_i v hne h
    simp only [h]

theorem decodeBranch_eq (json : Json) :
    decodeBranch json =
      match json.get? "value" with
      | none => refuse (.missingMember "value")
      | some v => within (.member "value") (decode v) := by
  rw [decodeBranch]
  split
  · rename_i h
    simp only [h]
  · rename_i v h
    simp only [h]

/-- An element is read in three steps: its kind, its text unless it is a pound sign, and what is inside it. -/
theorem decodeElement_eq (json : Json) :
    decodeElement json =
      kindOf json >>= fun kind =>
        match kind with
        | .literal => valueText json >>= fun text => .ok (.literal text)
        | .argument => valueText json >>= fun name => .ok (.argument name)
        | .number => valueText json >>= fun name => .ok (.number name (optionalText? "style" json))
        | .date => valueText json >>= fun name => .ok (.date name (dateStyle? json))
        | .time => valueText json >>= fun name => .ok (.time name (dateStyle? json))
        | .select => valueText json >>= fun name => decodeOptions json >>= fun options =>
            .ok (.select name options)
        | .plural => valueText json >>= fun name => decodeOptions json >>= fun options =>
            .ok (.plural name (pluralKind json) (pluralOffset json) options)
        | .pound => .ok .pound
        | .tag => valueText json >>= fun name => decodeChildren json >>= fun children =>
            .ok (.tag name children) := by
  rw [decodeElement]
  congr 1
  funext kind
  cases kind
  case tag =>
    dsimp only
    congr 1
    funext name
    rw [decodeChildren]
    split
    · rename_i h
      rw [h]
      rfl
    · rename_i v h
      rw [h]
  all_goals rfl

section Members

variable {json v : Json}

theorem decodeChildren_some (hget : json.get? "children" = some v) :
    decodeChildren json = within (.member "children") (decode v) := by
  rw [decodeChildren, hget]

theorem decodeOptions_object {members : List (String × Json)}
    (hget : json.get? "options" = some (.object members)) :
    decodeOptions json = within (.member "options") (decodeBranches members) := by
  rw [decodeOptions_eq, hget]

theorem decodeBranch_some (hget : json.get? "value" = some v) :
    decodeBranch json = within (.member "value") (decode v) := by
  rw [decodeBranch_eq, hget]

end Members

/-! ### What was read -/

theorem within_eq_ok {α : Type} {step : Step} {x : Except Mismatch α} {a : α} :
    within step x = .ok a ↔ x = .ok a := by
  cases x <;> simp [within]

/-- An element is read from an object, and what is inside it from a member of that object. -/
theorem decodeElement_eq_ok {json : Json} {e : Element} (h : decodeElement json = .ok e) :
    (∃ members, json = .object members) ∧
      match e with
      | .select _ options | .plural _ _ _ options => decodeOptions json = .ok options
      | .tag _ children => decodeChildren json = .ok children
      | _ => True := by
  rw [decodeElement_eq] at h
  obtain ⟨kind, hkind, h⟩ := bind_eq_ok.mp h
  constructor
  · cases json with
    | object members => exact ⟨members, rfl⟩
    | _ => cases hkind
  · cases kind with
    | pound =>
        cases h
        trivial
    | literal | argument | number | date | time =>
        obtain ⟨name, -, h⟩ := bind_eq_ok.mp h
        cases h
        trivial
    | select | plural =>
        obtain ⟨name, -, h⟩ := bind_eq_ok.mp h
        obtain ⟨options, hoptions, h⟩ := bind_eq_ok.mp h
        cases h
        exact hoptions
    | tag =>
        obtain ⟨name, -, h⟩ := bind_eq_ok.mp h
        obtain ⟨children, hchildren, h⟩ := bind_eq_ok.mp h
        cases h
        exact hchildren

theorem decodeChildren_eq_ok {json : Json} {children : List Element} (h : decodeChildren json = .ok children) :
    ∃ v, json.get? "children" = some v ∧ decode v = .ok children := by
  unfold decodeChildren at h
  split at h
  · cases h
  · rename_i v hget
    exact ⟨v, hget, within_eq_ok.mp h⟩

theorem decodeBranch_eq_ok {json : Json} {branch : List Element} (h : decodeBranch json = .ok branch) :
    ∃ v, json.get? "value" = some v ∧ decode v = .ok branch := by
  rw [decodeBranch_eq] at h
  split at h
  · cases h
  · rename_i v hget
    exact ⟨v, hget, within_eq_ok.mp h⟩

theorem decodeOptions_eq_ok {json : Json} {options : Options} (h : decodeOptions json = .ok options) :
    ∃ members, json.get? "options" = some (.object members) ∧ decodeBranches members = .ok options := by
  rw [decodeOptions_eq] at h
  split at h
  · cases h
  · rename_i members hget
    exact ⟨members, hget, within_eq_ok.mp h⟩
  · cases h

end MessageFormat.Wire
