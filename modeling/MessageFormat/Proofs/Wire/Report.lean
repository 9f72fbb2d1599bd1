import MessageFormat.Proofs.Wire.Decoding
import MessageFormat.Wire.Report
import MessageFormat.Wire.Text

/-! The text of a place and the path to it. A reader that is given the text of the place of each value reports
the same defects as the reader that builds up the path, with the text of that path behind the text of the place
it began at, and reads the same messages wherever it begins. -/

namespace MessageFormat.Wire

/-- The text of a path. -/
def pathText : List Step → String
  | [] => ""
  | .index i :: path => "[" ++ i.repr ++ "]" ++ pathText path
  | .member key :: path => "." ++ key ++ pathText path

theorem join_map_render (path : List Step) : String.join (path.map Step.render) = pathText path := by
  induction path with
  | nil => rfl
  | cons step path ih =>
      rw [List.map_cons, String.join_cons, ih]
      cases step <;> rfl

theorem report_eq (root : String) (m : Mismatch) : m.report root = ⟨m.defect, root ++ pathText m.path⟩ := by
  rw [Mismatch.report, join_map_render]

theorem report_here (root : String) (defect : Defect) : Mismatch.report root ⟨defect, []⟩ = ⟨defect, root⟩ := by
  rw [report_eq, pathText, String.append_empty]

theorem report_under_index (root : String) (i : Nat) (m : Mismatch) :
    (m.under (.index i)).report root = m.report (root ++ "[" ++ i.repr ++ "]") := by
  simp only [report_eq, Mismatch.under, pathText, String.append_assoc]

theorem report_under_member (root key : String) (m : Mismatch) :
    (m.under (.member key)).report root = m.report (root ++ "." ++ key) := by
  simp only [report_eq, Mismatch.under, pathText, String.append_assoc]

section Reported

variable {α β : Type} (place : String)

/-- What was read, with its defect reported for the place it was read at. -/
def reported (read : Except Mismatch α) : Except Report α :=
  read.mapError (Mismatch.report place)

theorem reported_ok (a : α) : reported place (.ok a) = .ok a := rfl

theorem reported_error (m : Mismatch) : reported place (.error m : Except Mismatch α) = .error (m.report place) := rfl

variable {place}

theorem reported_eq_ok {read : Except Mismatch α} {a : α} : reported place read = .ok a ↔ read = .ok a := by
  cases read with
  | ok b => rw [reported_ok, Except.ok.injEq, Except.ok.injEq]
  | error m => simp [reported_error]

theorem reported_eq_error {read : Except Mismatch α} {report : Report} :
    reported place read = .error report ↔ ∃ m, read = .error m ∧ m.report place = report := by
  cases read with
  | ok a => simp [reported_ok]
  | error m => simp [reported_error]

variable (place)

theorem reported_refuse (defect : Defect) :
    reported place (refuse defect : Except Mismatch α) = refuseAt place defect :=
  congrArg Except.error (report_here place defect)

theorem reported_bind (read : Except Mismatch α) (next : α → Except Mismatch β) :
    reported place (read >>= next) = reported place read >>= fun a => reported place (next a) := by
  cases read <;> rfl

theorem reported_index (i : Nat) (read : Except Mismatch α) :
    reported place (within (.index i) read) = reported (place ++ "[" ++ i.repr ++ "]") read := by
  cases read with
  | ok a => rfl
  | error m => exact congrArg Except.error (report_under_index place i m)

theorem reported_member (key : String) (read : Except Mismatch α) :
    reported place (within (.member key) read) = reported (place ++ "." ++ key) read := by
  cases read with
  | ok a => rfl
  | error m => exact congrArg Except.error (report_under_member place key m)

theorem reported_known {key text : String} (htext : "." ++ key = text) (read : Except Mismatch α) :
    reported place (within (.member key) read) = reported (place ++ text) read := by
  rw [reported_member, String.append_assoc, htext]

end Reported

section Steps

variable (place : String) (json : Json)

theorem valueTextAt_eq : valueTextAt place json = reported place (valueText json) := by
  unfold valueTextAt valueText
  cases json.get? "value" with
  | none => exact (reported_refuse place _).symm
  | some v =>
      cases h : v.text? with
      | none => simp only [h, reported_known place (show "." ++ "value" = ".value" from rfl), reported_refuse]
      | some s => simp only [h, reported_ok]

theorem kindAt_eq : kindAt place json = reported place (kindOf json) := by
  unfold kindAt kindOf
  cases json with
  | object members =>
      cases (Json.object members).get? "type" with
      | none => exact (reported_refuse place _).symm
      | some v =>
          cases h : v.natural? with
          | none => simp only [h, reported_known place (show "." ++ "type" = ".type" from rfl), reported_refuse]
          | some code => cases hkind : Kind.ofCode? code <;> simp only [h, hkind, reported_refuse, reported_ok]
  | _ => exact (reported_refuse place _).symm

/-- The elements between the ends of the tag at a place. -/
def decodeChildrenAt : Except Report (List Element) :=
  match json.get? "children" with
  | none => refuseAt place (.missingMember "children")
  | some v => decodeAt (place ++ ".children") v

theorem decodeOptionsAt_eq :
    decodeOptionsAt place json =
      match json.get? "options" with
      | none => refuseAt place (.missingMember "options")
      | some (.object members) => decodeBranchesAt (place ++ ".options") members
      | some _ => refuseAt (place ++ ".options") (.shape .options) := by
  rw [decodeOptionsAt]
  split
  · rename_i h
    simp only [h]
  · rename_i members h
    simp only [h]
  · rename_i v hne h
    simp only [h]

theorem decodeBranchAt_eq :
    decodeBranchAt place json =
      match json.get? "value" with
      | none => refuseAt place (.missingMember "value")
      | some v => decodeAt (place ++ ".value") v := by
  rw [decodeBranchAt]
  split
  · rename_i h
    simp only [h]
  · rename_i v h
    simp only [h]

/-- The same three steps as those of the reader that builds up the path. -/
theorem decodeElementAt_eq :
    decodeElementAt place json =
      kindAt place json >>= fun kind =>
        match kind with
        | .literal => valueTextAt place json >>= fun text => .ok (.literal text)
        | .argument => valueTextAt place json >>= fun name => .ok (.argument name)
        | .number => valueTextAt place json >>= fun name => .ok (.number name (optionalText? "style" json))
        | .date => valueTextAt place json >>= fun name => .ok (.date name (dateStyle? json))
        | .time => valueTextAt place json >>= fun name => .ok (.time name (dateStyle? json))
        | .select => valueTextAt place json >>= fun name => decodeOptionsAt place json >>= fun options =>
            .ok (.select name options)
        | .plural => valueTextAt place json >>= fun name => decodeOptionsAt place json >>= fun options =>
            .ok (.plural name (pluralKind json) (pluralOffset json) options)
        | .pound => .ok .pound
        | .tag => valueTextAt place json >>= fun name => decodeChildrenAt place json >>= fun children =>
            .ok (.tag name children) := by
  rw [decodeElementAt]
  congr 1
  funext kind
  cases kind
  case tag =>
    dsimp only
    congr 1
    funext name
    rw [decodeChildrenAt]
    split
    · rename_i h
      rw [h]
      rfl
    · rename_i v h
      rw [h]
  all_goals rfl

end Steps

theorem decodeItemsAt_eq_reported {items : List Json}
    (h : ∀ v ∈ items, ∀ place, decodeElementAt place v = reported place (decodeElement v)) (place : String)
    (i : Nat) : decodeItemsAt place i items = reported place (decodeItems i items) := by
  induction items generalizing i with
  | nil => rw [decodeItemsAt, decodeItems, reported_ok]
  | cons v vs ih =>
      obtain ⟨hv, hvs⟩ := List.forall_mem_cons.mp h
      simp only [decodeItemsAt, decodeItems, hv, ih hvs, reported_bind, reported_index, reported_ok]

theorem decodeBranchesAt_eq_reported {members : List (String × Json)}
    (h : ∀ member ∈ members, ∀ place, decodeBranchAt place member.2 = reported place (decodeBranch member.2))
    (place : String) : decodeBranchesAt place members = reported place (decodeBranches members) := by
  induction members with
  | nil => rw [decodeBranchesAt, decodeBranches, reported_ok]
  | cons member members ih =>
      obtain ⟨key, v⟩ := member
      obtain ⟨hv, hmembers⟩ := List.forall_mem_cons.mp h
      simp only [decodeBranchesAt, decodeBranches, hv, ih hmembers, reported_bind, reported_member, reported_ok]

section Inside

variable {json : Json}
  (ih : ∀ v : Json, sizeOf v < sizeOf json → ∀ place, decodeAt place v = reported place (decode v))

include ih

theorem decodeBranchAt_eq_reported (place : String) :
    decodeBranchAt place json = reported place (decodeBranch json) := by
  rw [decodeBranchAt_eq, decodeBranch_eq]
  cases hget : json.get? "value" with
  | none => exact (reported_refuse place _).symm
  | some v =>
      simp only [reported_known place (show "." ++ "value" = ".value" from rfl),
        ih v (Json.sizeOf_lt_of_get? hget)]

theorem decodeChildrenAt_eq_reported (place : String) :
    decodeChildrenAt place json = reported place (decodeChildren json) := by
  rw [decodeChildrenAt, decodeChildren]
  cases hget : json.get? "children" with
  | none => exact (reported_refuse place _).symm
  | some v =>
      simp only [reported_known place (show "." ++ "children" = ".children" from rfl),
        ih v (Json.sizeOf_lt_of_get? hget)]

theorem decodeOptionsAt_eq_reported (place : String) :
    decodeOptionsAt place json = reported place (decodeOptions json) := by
  rw [decodeOptionsAt_eq, decodeOptions_eq]
  cases hget : json.get? "options" with
  | none => exact (reported_refuse place _).symm
  | some v =>
      cases v with
      | object members =>
          have hlt := Json.sizeOf_lt_of_get? hget
          have hbranches : ∀ member ∈ members, ∀ place,
              decodeBranchAt place member.2 = reported place (decodeBranch member.2) := by
            rintro ⟨key, v⟩ hmember
            have hsize := List.sizeOf_lt_of_mem hmember
            simp only [Json.object.sizeOf_spec, Prod.mk.sizeOf_spec] at hlt hsize
            exact decodeBranchAt_eq_reported fun w (hw : sizeOf w < sizeOf v) => ih w (by omega)
          simp only [reported_known place (show "." ++ "options" = ".options" from rfl),
            decodeBranchesAt_eq_reported hbranches]
      | _ => simp only [reported_known place (show "." ++ "options" = ".options" from rfl), reported_refuse]

theorem decodeElementAt_eq_reported (place : String) :
    decodeElementAt place json = reported place (decodeElement json) := by
  rw [decodeElementAt_eq, decodeElement_eq, reported_bind, kindAt_eq]
  congr 1
  funext kind
  cases kind with
  | literal | argument | number | date | time => simp only [valueTextAt_eq, reported_bind, reported_ok]
  | select | plural =>
      simp only [valueTextAt_eq, decodeOptionsAt_eq_reported ih, reported_bind, reported_ok]
  | pound => rfl
  | tag => simp only [valueTextAt_eq, decodeChildrenAt_eq_reported ih, reported_bind, reported_ok]

end Inside

/-- The place at which a value is read comes into nothing but the text of the places that are reported. -/
theorem decodeAt_eq_reported (place : String) (json : Json) :
    decodeAt place json = reported place (decode json) := by
  cases json with
  | array items =>
      rw [decodeAt, decode]
      refine decodeItemsAt_eq_reported (fun v hv => ?_) place 0
      have hsize := List.sizeOf_lt_of_mem hv
      refine decodeElementAt_eq_reported fun w hw place => ?_
      have : sizeOf w < sizeOf (Json.array items) := by
        simp only [Json.array.sizeOf_spec]
        omega
      exact decodeAt_eq_reported place w
  | _ =>
      rw [decodeAt, decode, reported_refuse]
      all_goals simp
termination_by sizeOf json

/-- What is told of a JSON text that is no message is what the reader reports that begins at the name of the whole
value. -/
theorem mapError_read (root text : String) :
    (read text).mapError (Error.message text root) =
      match Json.read text with
      | .error e => .error ("invalid JSON: " ++ e.message text.toList)
      | .ok json => (decodeAt root json).mapError Report.message := by
  unfold read
  cases Json.read text with
  | error e => rfl
  | ok json =>
      simp only [decodeAt_eq_reported]
      cases decode json with
      | error m => rfl
      | ok es => rfl

end MessageFormat.Wire
