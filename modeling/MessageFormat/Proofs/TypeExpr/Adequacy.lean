import MessageFormat.Message
import MessageFormat.Proofs.Pattern.WellFormed
import MessageFormat.Proofs.TypeExpr.ReadBack
import MessageFormat.Proofs.TypeExpr.Requirement

/-! The type of the arguments of a message, read from its text, admits exactly the records that have what
the message needs. What the type leaves out makes no difference: a union of branches that need nothing, the
parentheses around a single key, and the type of every record. -/

namespace MessageFormat

variable {Content : Type}

namespace TypeTerm

variable {fields : String → Datum Content}

theorem admits_joined_intersection (types : List TypeTerm) :
    (joined .intersection types).Admits (.record fields) ↔ ∀ type ∈ types, type.Admits (.record fields) := by
  induction types with
  | nil => simp [joined, Admits]
  | cons type types ih =>
      by_cases hnil : types = []
      · subst hnil
        simp [joined]
      · rw [joined_cons _ _ hnil, Admits, ih, List.forall_mem_cons]

theorem admits_joined_union {types : List TypeTerm} (hne : types ≠ []) {d : Datum Content} :
    (joined .union types).Admits d ↔ ∃ type ∈ types, type.Admits d := by
  induction types with
  | nil => exact absurd rfl hne
  | cons type types ih =>
      by_cases hnil : types = []
      · subst hnil
        simp [joined]
      · rw [joined_cons _ _ hnil, Admits, ih hnil, List.exists_mem_cons_iff]

end TypeTerm

theorem ValueType.admits_oneOf (keys : List String) (d : Datum Content) :
    (ValueType.oneOf keys).term.Admits d ↔ d.IsText := by
  rw [term, TypeTerm.admits_joined_union (by simp)]
  constructor
  · rintro ⟨type, hmem, h⟩
    rcases List.mem_append.mp hmem with hkey | hany
    · obtain ⟨key, -, rfl⟩ := List.mem_map.mp hkey
      exact ⟨key, h⟩
    · obtain rfl := List.mem_singleton.mp hany
      exact h.1
  · rintro ⟨s, rfl⟩
    exact ⟨_, List.mem_append_right _ (.head _), ⟨s, rfl⟩, nofun⟩

namespace TypeExpr

variable {fields : String → Datum Content}

/-- Every one of the parts admits the record. -/
def Holds (fields : String → Datum Content) (parts : List TypeExpr) : Prop :=
  ∀ p ∈ parts, p.term.Admits (.record fields)

theorem termAll_eq_map (parts : List TypeExpr) : termAll parts = parts.map term := by
  induction parts with
  | nil => rfl
  | cons p parts ih => rw [termAll, ih, List.map_cons]

theorem admits_property (name : String) (type : ValueType) :
    (term (.property name type)).Admits (.record fields) ↔ type.term.Admits (fields name) := by
  rw [term, TypeTerm.Admits]
  constructor
  · rintro ⟨fields, h, htype⟩
    cases h
    exact htype
  · intro h
    exact ⟨fields, rfl, h⟩

theorem admits_intersection (parts : List TypeExpr) :
    (term (.intersection parts)).Admits (.record fields) ↔ Holds fields parts := by
  rw [term, termAll_eq_map, TypeTerm.admits_joined_intersection, List.forall_mem_map]
  rfl

theorem admits_union {members : List TypeExpr} (hne : members ≠ []) {d : Datum Content} :
    (term (.union members)).Admits d ↔ ∃ p ∈ members, p.term.Admits d := by
  rw [term, termAll_eq_map, TypeTerm.admits_joined_union (by simpa using hne)]
  simp only [List.mem_map, exists_exists_and_eq_and]

theorem holds_nil : Holds fields [] := by
  simp [Holds]

theorem holds_cons {p : TypeExpr} {parts : List TypeExpr} :
    Holds fields (p :: parts) ↔ p.term.Admits (.record fields) ∧ Holds fields parts :=
  List.forall_mem_cons

theorem holds_singleton {p : TypeExpr} : Holds fields [p] ↔ p.term.Admits (.record fields) := by
  simp [Holds]

theorem holds_append {parts parts' : List TypeExpr} :
    Holds fields (parts ++ parts') ↔ Holds fields parts ∧ Holds fields parts' :=
  List.forall_mem_append

/-- A branch that needs nothing is the type of every record, and any other one an intersection. -/
theorem admits_branch (parts : List TypeExpr) :
    (term (if parts.isEmpty then .anything else .parens (.intersection parts))).Admits (.record fields) ↔
      Holds fields parts := by
  by_cases hnil : parts = []
  · subst hnil
    simp [term, TypeTerm.Admits, holds_nil]
  · rw [if_neg (by simpa using hnil), term, admits_intersection]

theorem holds_ofBranches {branches : BranchTypes} (hne : branches ≠ []) :
    Holds fields (ofBranches branches) ↔ ∃ branch ∈ branches, Holds fields branch.2 := by
  unfold ofBranches
  split
  · rename_i hempty
    obtain ⟨branch, branches, rfl⟩ := List.exists_cons_of_ne_nil hne
    have hbranch : branch.2 = [] := by
      simpa using List.all_eq_true.mp hempty branch (.head _)
    refine iff_of_true holds_nil ⟨branch, .head _, ?_⟩
    rw [hbranch]
    exact holds_nil
  · rw [holds_singleton, term, admits_union (by simpa using hne)]
    simp only [List.mem_map, exists_exists_and_eq_and, admits_branch]

theorem admits_closedMember (name key : String) (parts : List TypeExpr) :
    (closedMember name key parts).term.Admits (.record fields) ↔
      fields name = .text key ∧ Holds fields parts := by
  have hown : (term (.property name (.exactly key))).Admits (.record fields) ↔ fields name = .text key := by
    rw [admits_property, ValueType.term, TypeTerm.Admits]
  unfold closedMember
  by_cases hnil : parts = []
  · subst hnil
    simpa [holds_nil] using hown
  · rw [if_neg (by simpa using hnil), term, admits_intersection, holds_cons, holds_singleton, hown, term,
      admits_intersection]

theorem admits_ofClosed (name : String) {branches : BranchTypes} (hne : branches ≠ []) :
    (ofClosed name branches).term.Admits (.record fields) ↔
      ∃ branch ∈ branches, fields name = .text branch.1 ∧ Holds fields branch.2 := by
  unfold ofClosed
  split
  · rw [admits_closedMember]
    simp
  · rw [term, admits_union (by simpa using hne)]
    simp only [List.mem_map, exists_exists_and_eq_and, admits_closedMember]

theorem holds_ofSelect (name : String) {branches : BranchTypes} (hne : branches ≠ []) :
    Holds fields (ofSelect name branches) ↔
      if otherKey ∈ branches.map Prod.fst then
        (fields name).IsText ∧ ∃ branch ∈ branches, Holds fields branch.2
      else ∃ branch ∈ branches, fields name = .text branch.1 ∧ Holds fields branch.2 := by
  unfold ofSelect
  dsimp only
  by_cases hother : otherKey ∈ branches.map Prod.fst
  · rw [if_pos (by simpa using hother), if_pos hother, holds_cons, admits_property, ValueType.admits_oneOf,
      holds_ofBranches hne]
  · rw [if_neg (by simpa using hother), if_neg hother, holds_singleton, admits_ofClosed name hne]

/-! ### Messages -/

theorem map_fst_ofOptions (options : Options) : (ofOptions options).map Prod.fst = options.map Prod.fst := by
  induction options with
  | nil => rfl
  | cons option options ih =>
      rw [ofOptions, List.map_cons, ih, List.map_cons]

/-- What stands between two tags adds nothing if it needs nothing. -/
theorem holds_inside (parts : List TypeExpr) :
    Holds fields (if parts.isEmpty then [] else [.parens (.intersection parts)]) ↔ Holds fields parts := by
  by_cases hnil : parts = []
  · subst hnil
    exact Iff.rfl
  · rw [if_neg (by simpa using hnil), holds_singleton, term, admits_intersection]

mutual

/-- The parts of the type of an element admit the records that have what it needs. -/
theorem holds_ofElement_iff : ∀ e : Element, e.Branched →
    (Holds fields (ofElement e) ↔ Requirement.ofElement fields e)
  | .literal _, _ | .pound, _ => by
      rw [ofElement, Requirement.ofElement]
      exact iff_of_true holds_nil trivial
  | .argument name, _ | .number name _, _ | .date name _, _ | .time name _, _ => by
      rw [ofElement, holds_singleton, admits_property, Requirement.ofElement]
      exact Iff.rfl
  | .select name options, h => by
      rw [ofElement, holds_ofSelect name (ofOptions_ne_nil h.1), map_fst_ofOptions, Requirement.ofElement,
        ← exists_ofOptions_iff _ options h.2, ← exists_ofOptions_iff _ options h.2]
      simp only [true_and]
  | .plural name _ _ options, h => by
      rw [ofElement, holds_cons, admits_property, holds_ofBranches (ofOptions_ne_nil h.1),
        Requirement.ofElement, ← exists_ofOptions_iff _ options h.2]
      simp only [true_and]
      exact Iff.rfl
  | .tag name children, h => by
      rw [ofElement, holds_cons, admits_property, holds_inside, holds_ofList_iff children h,
        Requirement.ofElement]
      exact Iff.rfl

theorem holds_ofList_iff : ∀ es : List Element, Element.listBranched es →
    (Holds fields (ofList es) ↔ Requirement.ofElements fields es)
  | [], _ => by
      rw [ofList, Requirement.ofElements]
      exact iff_of_true holds_nil trivial
  | e :: es, h => by
      rw [ofList, holds_append, holds_ofElement_iff e h.1, holds_ofList_iff es h.2, Requirement.ofElements]

theorem exists_ofOptions_iff (allowed : String → Prop) : ∀ options : Options, Element.optionsBranched options →
    ((∃ branch ∈ ofOptions options, allowed branch.1 ∧ Holds fields branch.2) ↔
      Requirement.ofSomeBranch fields allowed options)
  | [], _ => by
      rw [ofOptions, Requirement.ofSomeBranch]
      simp
  | (key, branch) :: options, h => by
      rw [ofOptions, List.exists_mem_cons_iff, holds_ofList_iff branch h.1,
        exists_ofOptions_iff allowed options h.2, Requirement.ofSomeBranch]

end

theorem admits_ofElements_iff {es : List Element} (h : Element.listBranched es)
    (fields : String → Datum Content) :
    (ofElements es).term.Admits (.record fields) ↔ Requirement.ofElements fields es := by
  rw [← holds_ofList_iff es h]
  unfold ofElements
  split
  · rename_i hnil
    rw [hnil, term, TypeTerm.Admits]
    exact iff_of_true (by simp) holds_nil
  · exact admits_intersection _

end TypeExpr

namespace Pattern

variable {d : Dialect}

theorem ne_nil_of_keysWellFormed {plural : Bool} {options : Options}
    (h : KeysWellFormed d plural (options.map Prod.fst)) : options ≠ [] := by
  rintro rfl
  exact h.ne_nil rfl

mutual

theorem branched_of_elementWellFormed {inPlural : Bool} :
    ∀ e : Element, ElementWellFormed d inPlural e → e.Branched
  | .literal _, _ | .argument _, _ | .number _ _, _ | .date _ _, _ | .time _ _, _ | .pound, _ => trivial
  | .select _ options, ⟨_, hkeys, hoptions⟩ =>
    ⟨ne_nil_of_keysWellFormed hkeys, optionsBranched_of_branchesWellFormed options hoptions⟩
  | .plural _ _ _ options, ⟨_, hkeys, hoptions⟩ =>
    ⟨ne_nil_of_keysWellFormed hkeys, optionsBranched_of_branchesWellFormed options hoptions⟩
  | .tag _ children, ⟨_, _, hchildren⟩ => listBranched_of_wellFormed children hchildren

theorem listBranched_of_wellFormed {inPlural : Bool} :
    ∀ es : List Element, WellFormed d inPlural es → Element.listBranched es
  | [], _ => trivial
  | e :: es, ⟨he, _, hes⟩ => ⟨branched_of_elementWellFormed e he, listBranched_of_wellFormed es hes⟩

theorem optionsBranched_of_branchesWellFormed {inPlural : Bool} :
    ∀ options : Options, BranchesWellFormed d inPlural options → Element.optionsBranched options
  | [], _ => trivial
  | (_, branch) :: options, ⟨hbranch, hoptions⟩ =>
    ⟨listBranched_of_wellFormed branch hbranch, optionsBranched_of_branchesWellFormed options hoptions⟩

end
end Pattern

namespace Message

/-- In a message that was read every selection has a branch. If every selection of a message has one, the
text of the type of its arguments is the text of a type, and that type admits exactly the records that have
what the message needs. -/
theorem typeOfElements_admits_iff_requirement :
    (∀ d pattern es, Pattern.parse d pattern = .ok es → Element.listBranched es) ∧
      ∀ es, Element.listBranched es → ∃ type, TypeTerm.read (typeOfElements es) = some type ∧
        ∀ {Content : Type} (fields : String → Datum Content),
          type.Admits (.record fields) ↔ Requirement.ofElements fields es := by
  constructor
  · intro d pattern es hparse
    obtain ⟨r, hreads⟩ := Pattern.reads_of_parse hparse
    exact Pattern.listBranched_of_wellFormed es hreads.wellFormed
  · intro es h
    exact ⟨_, TypeExpr.read_render_ofElements h, TypeExpr.admits_ofElements_iff h⟩

theorem typeOfElements_admits_iff_requirement_closed :
    ∃ type, TypeTerm.read
        "\x7b b: string \x7d & (((\x7b \"g-1\": \"\\\"\" \x7d & (\x7b x: number \x7d)) | \x7b \"g-1\": \"|\" \x7d))" = some type ∧
      ∀ {Content : Type} (fields : String → Datum Content), type.Admits (.record fields) ↔
        (fields "b").IsText ∧
          (fields "g-1" = .text "\"" ∧ (fields "x").IsNumber ∨ fields "g-1" = .text "|") := by
  obtain ⟨type, hread, hadmits⟩ := typeOfElements_admits_iff_requirement.2
    [.tag "b" [.select "g-1" [("\"", [.number "x" none]), ("|", [.literal "&"])]]]
    (by simp [Element.listBranched, Element.Branched, Element.optionsBranched])
  refine ⟨type, hread, fun fields => ?_⟩
  rw [hadmits]
  simp [Requirement.ofElements, Requirement.ofElement, Requirement.ofSomeBranch, otherKey]

end Message
end MessageFormat
