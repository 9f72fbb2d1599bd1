import MessageFormat.Proofs.Pattern.Parts
import MessageFormat.Proofs.Script.Meaning
import MessageFormat.Proofs.Script.PoundScope
import MessageFormat.Proofs.TypeExpr.Adequacy

/-! Rendering a message with a record that the type of its arguments admits. Rendering is done with care here:
an argument that is read must be there and be of the kind that its reader expects, and a selection without a
branch for all other keys must have one for the value. Where branches that need arguments are only taken for
their own key, nothing of this can go wrong with an admitted record, and what comes out is the text that the
message stands for. -/

namespace MessageFormat

/-- What an element expects of the argument that it reads. -/
inductive Expectation where
  | textOrNumber
  | number
  | date
  | text
  deriving DecidableEq, Repr

/-- Whether a value is what is expected. -/
def Expectation.meets {Content : Type} : Expectation → Datum Content → Bool
  | .textOrNumber, .text _ | .textOrNumber, .number _ => true
  | .number, .number _ => true
  | .date, .date _ => true
  | .text, .text _ => true
  | _, _ => false

section Meeting

variable {Content : Type} {d : Datum Content}

theorem Expectation.meets_text (h : d.IsText) : text.meets d = true := by
  obtain ⟨s, rfl⟩ := h
  rfl

theorem Expectation.meets_number (h : d.IsNumber) : number.meets d = true := by
  obtain ⟨n, rfl⟩ := h
  rfl

theorem Expectation.meets_date (h : d.IsDate) : date.meets d = true := by
  obtain ⟨n, rfl⟩ := h
  rfl

theorem Expectation.meets_textOrNumber (h : d.IsText ∨ d.IsNumber) : textOrNumber.meets d = true := by
  rcases h with ⟨s, rfl⟩ | ⟨n, rfl⟩
  · rfl
  · rfl

end Meeting

/-- How the values of a record are handed over to a host. Texts are handed over as they are. -/
structure Handover (Content : Type) (host : Host) where
  value : Datum Content → Value host.Object
  value_text : ∀ s, value (.text s) = .text s

/-- The arguments that a host is given. -/
def Handover.record {Content : Type} {host : Host} (handover : Handover Content host)
    (fields : String → Datum Content) (x : String) : Value host.Object :=
  handover.value (fields x)

/-- The text of a day, of which there may be none. -/
def dayText : Option Nat → String
  | none => "no day"
  | some day => "day " ++ day.repr

/-- A host whose objects are days and whose facilities are the same for all locales: `one` is the category of the
number one, and everything is formatted as it stands in a template. -/
def dayHost : Host where
  Object := Option Nat
  display := dayText
  same day day' := day == day'
  coincide _ _ := false
  subtract v _ := v
  intl constructor _ _ _
    | .integer n => .text (if constructor = "PluralRules" then if n = 1 then "one" else "other" else n.repr)
    | .object day => .text (dayText day)
    | .text s => .text s

/-- Numbers are handed over to the host of days as integers and dates as days, and what is neither as no day. -/
def dayHandover : Handover Nat dayHost where
  value
    | .text s => .text s
    | .number n => .integer n
    | .date day => .object (some day)
    | .record _ | .other _ | .absent => .object none
  value_text _ := rfl

namespace Rendering

/-- What can go wrong when a message is rendered. -/
inductive Fault where
  /-- An argument is not there, or is not of the kind that its reader expects. -/
  | unexpected (name : String)
  /-- No branch of a selection by text is for the value. -/
  | noBranch (name : String)
  /-- No plural is around a pound sign. -/
  | strayPound
  deriving DecidableEq, Repr

/-- What the branches of a selection are rendered to. Only the one that is picked matters. -/
abbrev Branches := List (String × Except Fault String)

/-- The first of the branches whose key is of a class. -/
def pick (p : String → Bool) (branches : Branches) : Option (Except Fault String) :=
  (branches.find? fun branch => p branch.1).map Prod.snd

section Choices

variable (host : Host) (locale : String)

/-- The branch for the value of the argument `name`, or else the one for all other keys. -/
def select (name : String) (v : Value host.Object) (branches : Branches) : Except Fault String :=
  (pick (fun key => host.identical v (.text key)) branches).getD
    ((pick (fun key => key = otherKey) branches).getD (.error (.noBranch name)))

/-- The branch with the exact key of the value, or else the one for the category of the value less the
offset, or else the one for all other keys, or else nothing. -/
def plural (kind : PluralKind) (v : Value host.Object) (offset : Int64) (branches : Branches) :
    Except Fault String :=
  (pick (Meaning.isExactKeyOf host v) branches).getD
    ((pick (Meaning.isCategoryOf host locale kind (Meaning.lessOffset host v offset)) branches).getD
      ((pick (fun key => key = otherKey) branches).getD (.ok "")))

end Choices

variable {Content : Type} {host : Host} (locale : String) (handover : Handover Content host)
  (fields : String → Datum Content)

/-- Reads an argument of which something is expected. -/
def read (expected : Expectation) (name : String) : Except Fault (Value host.Object) :=
  if expected.meets (fields name) then .ok (handover.record fields name) else .error (.unexpected name)

mutual

/-- Renders an element; `pound` is what the nearest plural around it has chosen its category by. -/
def ofElement (pound : Option (Value host.Object)) : Element → Except Fault String
  | .literal text => .ok text
  | .argument name => do
    let v ← read handover fields .textOrNumber name
    .ok (host.toText v)
  | .number name style => do
    let v ← read handover fields .number name
    .ok (Meaning.formatted host locale "NumberFormat" (Meaning.numberSetting style) v)
  | .date name style => do
    let v ← read handover fields .date name
    .ok (Meaning.formatted host locale "DateTimeFormat" (Meaning.dateSetting "dateStyle" style) v)
  | .time name style => do
    let v ← read handover fields .date name
    .ok (Meaning.formatted host locale "DateTimeFormat" (Meaning.dateSetting "timeStyle" style) v)
  | .select name options => do
    let v ← read handover fields .text name
    select host name v (ofOptions pound options)
  | .plural name kind offset options => do
    let v ← read handover fields .number name
    plural host locale kind v offset (ofOptions (some (Meaning.lessOffset host v offset)) options)
  | .pound =>
    match pound with
    | none => .error .strayPound
    | some v => .ok (Meaning.formatted host locale "NumberFormat" none v)
  | .tag name children => do
    let v ← read handover fields .text name
    let inside ← ofElements pound children
    .ok ("<" ++ host.toText v ++ ">" ++ inside ++ "</" ++ host.toText v ++ ">")

/-- Renders a list of elements. -/
def ofElements (pound : Option (Value host.Object)) : List Element → Except Fault String
  | [] => .ok ""
  | e :: es => do
    let text ← ofElement pound e
    let rest ← ofElements pound es
    .ok (text ++ rest)

/-- Renders the branches of a selection, each for itself. -/
def ofOptions (pound : Option (Value host.Object)) : List (String × List Element) → Branches
  | [] => []
  | (key, branch) :: options => (key, ofElements pound branch) :: ofOptions pound options

end

theorem pick_cons (p : String → Bool) (key : String) (result : Except Fault String) (branches : Branches) :
    pick p ((key, result) :: branches) = if p key then some result else pick p branches := by
  by_cases hkey : p key <;> simp [pick, hkey]

/-- If anything comes out, it is the text. -/
def Gives (result : Except Fault String) (text : String) : Prop :=
  ∀ text', result = .ok text' → text' = text

theorem gives_ok (text : String) : Gives (.ok text) text := by
  rintro _ ⟨⟩
  rfl

theorem gives_error (fault : Fault) (text : String) : Gives (.error fault) text :=
  nofun

section Agreement

variable {locale : String} {handover : Handover Content host} {fields : String → Datum Content}

theorem Gives.bind {result : Except Fault String} {text whole : String} {f : String → Except Fault String}
    (h : Gives result text) (hf : Gives (f text) whole) : Gives (result >>= f) whole := by
  cases result with
  | error fault => exact gives_error fault whole
  | ok text' =>
      obtain rfl := h text' rfl
      exact hf

/-- An argument that is read has its value in the record. -/
theorem Gives.read_bind {expected : Expectation} {name whole : String}
    {f : Value host.Object → Except Fault String} (hf : Gives (f (handover.record fields name)) whole) :
    Gives (read handover fields expected name >>= f) whole := by
  unfold read
  split
  · exact hf
  · exact gives_error _ _

/-- A branch gives a text under the same key. -/
def BranchGives (branch : String × Except Fault String) (text : String × String) : Prop :=
  branch.1 = text.1 ∧ Gives branch.2 text.2

variable {branches : Branches} {texts : Meaning.Branches}

theorem rel_pick (p : String → Bool) (h : List.Forall₂ BranchGives branches texts) :
    Option.Rel Gives (pick p branches) (Meaning.branch? p texts) := by
  induction h with
  | nil => exact .none
  | @cons branch text branches texts hbranch _ ih =>
      obtain ⟨key, result⟩ := branch
      obtain ⟨_, text⟩ := text
      obtain ⟨rfl, hresult⟩ := hbranch
      rw [pick_cons, Meaning.branch?_cons]
      split
      · exact .some hresult
      · exact ih

theorem Gives.getD {result : Except Fault String} {text : String} {picked : Option (Except Fault String)}
    {text? : Option String} (hpicked : Option.Rel Gives picked text?) (h : Gives result text) :
    Gives (picked.getD result) (text?.getD text) := by
  cases hpicked with
  | none => exact h
  | some hpicked => exact hpicked

theorem gives_select (h : List.Forall₂ BranchGives branches texts) (name : String) (v : Value host.Object) :
    Gives (select host name v branches) (Meaning.select host v texts) :=
  .getD (rel_pick _ h) (.getD (rel_pick _ h) (gives_error _ _))

theorem gives_plural (h : List.Forall₂ BranchGives branches texts) (kind : PluralKind)
    (v : Value host.Object) (offset : Int64) :
    Gives (plural host locale kind v offset branches) (Meaning.plural host locale kind v offset texts) :=
  .getD (rel_pick _ h) (.getD (rel_pick _ h) (.getD (rel_pick _ h) (gives_ok _)))

mutual

theorem gives_ofElement (pound : Option (Value host.Object)) : ∀ e : Element,
    Gives (ofElement locale handover fields pound e)
      (Meaning.ofElement host locale (handover.record fields) pound e)
  | .literal text => gives_ok text
  | .argument _ | .number _ _ | .date _ _ | .time _ _ => .read_bind (gives_ok _)
  | .select name options => .read_bind (gives_select (gives_ofOptions pound options) name _)
  | .plural _ kind offset options => .read_bind (gives_plural (gives_ofOptions _ options) kind _ offset)
  | .pound =>
    match pound with
    | none => gives_error _ _
    | some _ => gives_ok _
  | .tag _ children => .read_bind (.bind (gives_ofElements pound children) (gives_ok _))

/-- What a list of elements is rendered to is the text that it stands for. -/
theorem gives_ofElements (pound : Option (Value host.Object)) : ∀ es : List Element,
    Gives (ofElements locale handover fields pound es)
      (Meaning.ofElements host locale (handover.record fields) pound es)
  | [] => gives_ok ""
  | e :: es => .bind (gives_ofElement pound e) (.bind (gives_ofElements pound es) (gives_ok _))

theorem gives_ofOptions (pound : Option (Value host.Object)) : ∀ options : Options,
    List.Forall₂ BranchGives (ofOptions locale handover fields pound options)
      (Meaning.ofOptions host locale (handover.record fields) pound options)
  | [] => .nil
  | (_, branch) :: options => .cons ⟨rfl, gives_ofElements pound branch⟩ (gives_ofOptions pound options)

end
end Agreement
end Rendering

/-! ### Messages whose branches are pinned -/

/-- No element of a branch reads an argument: there are literals and pound signs only. -/
def Element.Bare (branch : List Element) : Prop :=
  ∀ e ∈ branch, e.argumentName? = none

mutual

/-- The branches of a plural, and those of a selection by text with a branch for all other keys, are bare. -/
def Element.Pinned : Element → Prop
  | .literal _ | .argument _ | .number _ _ | .date _ _ | .time _ _ | .pound => True
  | .select _ options =>
    if otherKey ∈ options.map Prod.fst then ∀ option ∈ options, Bare option.2 else optionsPinned options
  | .plural _ _ _ options => ∀ option ∈ options, Bare option.2
  | .tag _ children => listPinned children

/-- All of the elements are pinned. -/
def Element.listPinned : List Element → Prop
  | [] => True
  | e :: es => e.Pinned ∧ listPinned es

/-- The elements of all of the branches are pinned. -/
def Element.optionsPinned : List (String × List Element) → Prop
  | [] => True
  | (_, branch) :: options => listPinned branch ∧ optionsPinned options

end

/-- One of the keys is allowed if the record has what a branch with an allowed key needs. -/
theorem Requirement.exists_key {Content : Type} {fields : String → Datum Content} {allowed : String → Prop}
    {options : Options} (h : ofSomeBranch fields allowed options) :
    ∃ key ∈ options.map Prod.fst, allowed key := by
  induction options with
  | nil => exact h.elim
  | cons option options ih =>
      rcases h with ⟨hkey, -⟩ | h
      · exact ⟨option.1, .head _, hkey⟩
      · obtain ⟨key, hmem, hkey⟩ := ih h
        exact ⟨key, .tail _ hmem, hkey⟩

namespace Rendering

open Pattern (WellFormed ElementWellFormed BranchesWellFormed)

variable {Content : Type} {host : Host} {locale : String} {handover : Handover Content host}
  {fields : String → Datum Content}

/-- Something comes out. -/
def Succeeds (result : Except Fault String) : Prop :=
  ∃ text, result = .ok text

theorem succeeds_ok (text : String) : Succeeds (.ok text) :=
  ⟨text, rfl⟩

theorem Succeeds.bind {result : Except Fault String} {f : String → Except Fault String}
    (h : Succeeds result) (hf : ∀ text, Succeeds (f text)) : Succeeds (result >>= f) := by
  obtain ⟨text, rfl⟩ := h
  exact hf text

theorem Succeeds.read_bind {expected : Expectation} {name : String}
    {f : Value host.Object → Except Fault String} (h : expected.meets (fields name) = true)
    (hf : Succeeds (f (handover.record fields name))) : Succeeds (read handover fields expected name >>= f) := by
  rw [read, if_pos h]
  exact hf

theorem Succeeds.getD {picked : Option (Except Fault String)} {result : Except Fault String}
    (hpicked : ∀ result ∈ picked, Succeeds result) (h : Succeeds result) : Succeeds (picked.getD result) := by
  cases picked with
  | none => exact h
  | some picked => exact hpicked picked rfl

/-- Every one of the branches is rendered. -/
def AllSucceed (branches : Branches) : Prop :=
  ∀ branch ∈ branches, Succeeds branch.2

variable {branches : Branches}

theorem AllSucceed.of_mem_pick (h : AllSucceed branches) {p : String → Bool} {result : Except Fault String}
    (hresult : result ∈ pick p branches) : Succeeds result := by
  obtain ⟨branch, hbranch, rfl⟩ := Option.map_eq_some_iff.mp hresult
  exact h branch (List.mem_of_find?_eq_some hbranch)

theorem AllSucceed.select (h : AllSucceed branches) (hother : otherKey ∈ branches.map Prod.fst) (name : String)
    (v : Value host.Object) : Succeeds (select host name v branches) := by
  obtain ⟨⟨_, result⟩, hmem, rfl⟩ := List.mem_map.mp hother
  have hpick : (pick (fun key => key = otherKey) branches).isSome := by
    rw [pick, Option.isSome_map, List.find?_isSome]
    exact ⟨_, hmem, decide_eq_true rfl⟩
  obtain ⟨result, hresult⟩ := Option.isSome_iff_exists.mp hpick
  rw [Rendering.select, hresult]
  exact .getD (fun _ => h.of_mem_pick) (h.of_mem_pick hresult)

theorem AllSucceed.plural (h : AllSucceed branches) (kind : PluralKind) (v : Value host.Object)
    (offset : Int64) : Succeeds (plural host locale kind v offset branches) :=
  .getD (fun _ => h.of_mem_pick)
    (.getD (fun _ => h.of_mem_pick) (.getD (fun _ => h.of_mem_pick) (succeeds_ok "")))

section Bare

variable {d : Pattern.Dialect} {inPlural : Bool} {pound : Option (Value host.Object)}

theorem succeeds_bare (hpound : inPlural = true → pound.isSome) : ∀ es : List Element,
    WellFormed d inPlural es → Element.Bare es → Succeeds (ofElements locale handover fields pound es)
  | [], _, _ => succeeds_ok ""
  | e :: es, hwf, hbare => by
      obtain ⟨he, hes⟩ := List.forall_mem_cons.mp hbare
      have hrest := succeeds_bare hpound es hwf.2.2 hes
      refine .bind ?_ fun text => hrest.bind fun rest => succeeds_ok (text ++ rest)
      cases e with
      | literal text => exact succeeds_ok text
      | pound =>
          obtain ⟨v, rfl⟩ := Option.isSome_iff_exists.mp (hpound hwf.1)
          exact succeeds_ok _
      | _ => cases he

theorem allSucceed_bare (hpound : inPlural = true → pound.isSome) : ∀ options : Options,
    BranchesWellFormed d inPlural options → (∀ option ∈ options, Element.Bare option.2) →
      AllSucceed (ofOptions locale handover fields pound options)
  | [], _, _ => nofun
  | (_, branch) :: options, hwf, hbare => by
      obtain ⟨hbranch, hoptions⟩ := List.forall_mem_cons.mp hbare
      refine List.forall_mem_cons.mpr ⟨succeeds_bare hpound branch hwf.1 hbranch, ?_⟩
      exact allSucceed_bare hpound options hwf.2 hoptions

theorem map_fst_ofOptions (options : Options) :
    (ofOptions locale handover fields pound options).map Prod.fst = options.map Prod.fst := by
  induction options with
  | nil => rfl
  | cons option options ih => rw [ofOptions, List.map_cons, ih, List.map_cons]

end Bare

/-- One of the branches is for the value of the argument, and it is rendered. -/
def PicksBranch (handover : Handover Content host) (fields : String → Datum Content) (name : String)
    (branches : Branches) : Prop :=
  ∃ result, pick (fun key => host.identical (handover.record fields name) (.text key)) branches = some result ∧
    Succeeds result

theorem identical_record_iff {name key s : String} (h : fields name = .text s) :
    host.identical (handover.record fields name) (.text key) = true ↔ fields name = .text key := by
  rw [Handover.record, h, handover.value_text]
  simp [Host.identical]

theorem PicksBranch.select {name : String} (h : PicksBranch handover fields name branches) :
    Succeeds (Rendering.select host name (handover.record fields name) branches) := by
  obtain ⟨result, hpick, hresult⟩ := h
  rw [Rendering.select, hpick]
  exact hresult

variable {d : Pattern.Dialect}

mutual

theorem succeeds_ofElement {inPlural : Bool} {pound : Option (Value host.Object)}
    (hpound : inPlural = true → pound.isSome) : ∀ e : Element, ElementWellFormed d inPlural e → e.Pinned →
      Requirement.ofElement fields e → Succeeds (ofElement locale handover fields pound e)
  | .literal text, _, _, _ => succeeds_ok text
  | .argument _, _, _, h => by
      rw [Requirement.ofElement] at h
      exact .read_bind (Expectation.meets_textOrNumber h) (succeeds_ok _)
  | .number _ _, _, _, h => .read_bind (Expectation.meets_number h) (succeeds_ok _)
  | .date _ _, _, _, h | .time _ _, _, _, h => .read_bind (Expectation.meets_date h) (succeeds_ok _)
  | .select name options, hwf, hpinned, h => by
      obtain ⟨-, hkeys, hwf⟩ := hwf
      rw [Element.Pinned] at hpinned
      rw [Requirement.ofElement] at h
      split at h
      · rename_i hother
        rw [if_pos hother] at hpinned
        refine .read_bind (Expectation.meets_text h.1) (AllSucceed.select ?_ ?_ name _)
        · exact allSucceed_bare (absurd · Bool.false_ne_true) options hwf hpinned
        · rw [map_fst_ofOptions]
          exact hother
      · rename_i hother
        rw [if_neg hother] at hpinned
        obtain ⟨key, -, hkey⟩ := Requirement.exists_key h
        refine .read_bind (Expectation.meets_text ⟨key, hkey⟩) (PicksBranch.select ?_)
        exact picksBranch_ofOptions (absurd · Bool.false_ne_true) options hwf hpinned hkeys.nodup h
  | .plural _ kind offset options, hwf, hpinned, h => by
      obtain ⟨-, -, hwf⟩ := hwf
      refine .read_bind (Expectation.meets_number h.1) (AllSucceed.plural ?_ kind _ offset)
      exact allSucceed_bare (fun _ => rfl) options hwf hpinned
  | .pound, hwf, _, _ => by
      obtain ⟨v, rfl⟩ := Option.isSome_iff_exists.mp (hpound hwf)
      exact succeeds_ok _
  | .tag _ children, hwf, hpinned, h => by
      obtain ⟨-, -, hwf⟩ := hwf
      have hinside := succeeds_ofElements hpound children hwf hpinned h.2
      exact .read_bind (Expectation.meets_text h.1) (hinside.bind fun _ => succeeds_ok _)

theorem succeeds_ofElements {inPlural : Bool} {pound : Option (Value host.Object)}
    (hpound : inPlural = true → pound.isSome) : ∀ es : List Element, WellFormed d inPlural es →
      Element.listPinned es → Requirement.ofElements fields es →
        Succeeds (ofElements locale handover fields pound es)
  | [], _, _, _ => succeeds_ok ""
  | e :: es, hwf, hpinned, h => by
      have hhead := succeeds_ofElement hpound e hwf.1 hpinned.1 h.1
      have htail := succeeds_ofElements hpound es hwf.2.2 hpinned.2 h.2
      exact hhead.bind fun text => htail.bind fun rest => succeeds_ok (text ++ rest)

theorem picksBranch_ofOptions {inPlural : Bool} {pound : Option (Value host.Object)} {name : String}
    (hpound : inPlural = true → pound.isSome) : ∀ options : Options, BranchesWellFormed d inPlural options →
      Element.optionsPinned options → (options.map Prod.fst).Nodup →
        Requirement.ofSomeBranch fields (fun key => fields name = .text key) options →
          PicksBranch handover fields name (ofOptions locale handover fields pound options)
  | [], _, _, _, h => h.elim
  | (key, branch) :: options, hwf, hpinned, hnodup, h => by
      obtain ⟨hfresh, hnodup⟩ := List.nodup_cons.mp hnodup
      rw [PicksBranch, ofOptions, pick_cons]
      rcases h with ⟨hkey, hbranch⟩ | h
      · rw [if_pos ((identical_record_iff hkey).mpr hkey)]
        exact ⟨_, rfl, succeeds_ofElements hpound branch hwf.1 hpinned.1 hbranch⟩
      · obtain ⟨key', hmem, hkey'⟩ := Requirement.exists_key h
        -- The value is the key of a later branch, so it is not the key of this one.
        have hne : ¬ host.identical (handover.record fields name) (.text key) = true := by
          rw [identical_record_iff hkey', hkey']
          rintro ⟨⟩
          exact hfresh hmem
        rw [if_neg hne]
        exact picksBranch_ofOptions hpound options hwf.2 hpinned.2 hnodup h

end
end Rendering

namespace Message

/-- The type of the arguments is sound for messages whose branches are pinned. Let the branches of every
plural, and of every selection by text with a branch for all other keys, hold nothing but literals and pound
signs. Then the text of the type is the text of a type, and with every record that the type admits the message
is rendered without fault: each argument that is read is there and of the kind that its reader expects, and
each selection without a branch for all other keys that is reached has one for the value. What comes out is
the text that the message stands for. -/
theorem rendering_ok_of_admits {d : Pattern.Dialect} {pattern : String} {es : List Element}
    (hparse : Pattern.parse d pattern = .ok es) (hpinned : Element.listPinned es) :
    ∃ type, TypeTerm.read (typeOfElements es) = some type ∧
      ∀ {Content : Type} (fields : String → Datum Content), type.Admits (.record fields) →
        ∀ (host : Host) (handover : Handover Content host) (locale : String),
          Rendering.ofElements locale handover fields none es =
            .ok (Meaning.ofElements host locale (handover.record fields) none es) := by
  obtain ⟨r, hreads⟩ := Pattern.reads_of_parse hparse
  have hwf : Pattern.WellFormed d false es := hreads.wellFormed
  have hbranched := Pattern.listBranched_of_wellFormed es hwf
  refine ⟨_, TypeExpr.read_render_ofElements hbranched, ?_⟩
  intro Content fields hadmits host handover locale
  have hneeds := (TypeExpr.admits_ofElements_iff hbranched fields).mp hadmits
  obtain ⟨text, htext⟩ : Rendering.Succeeds (Rendering.ofElements locale handover fields none es) :=
    Rendering.succeeds_ofElements (absurd · Bool.false_ne_true) es hwf hpinned hneeds
  rw [htext, Rendering.gives_ofElements none es text htext]

/-- A selection by text without a branch for all other keys, whose second branch has a plural between tags and
reads the argument of the selection again. -/
def pinned : List Element :=
  [.select "g" [("m", [.number "n" none]),
    ("f", [.tag "b" [.plural "k" .cardinal 0 [("one", [.pound]), ("other", [.literal "x"])]], .argument "g"])]]

/-- The pattern of that message. -/
def pinnedPattern : String :=
  "\x7bg, select, m \x7b\x7bn, number\x7d\x7d f \x7b<b>\x7bk, plural, one \x7b#\x7d other \x7bx\x7d\x7d</b>\x7bg\x7d\x7d\x7d"

theorem parse_pinnedPattern : Pattern.parse .lenient pinnedPattern = .ok pinned := by
  apply Pattern.parse_eq_ok_of_reads (r := [])
  simp only [pinnedPattern, String.reduceToList]
  refine .select rfl rfl (.branch rfl (.whole rfl rfl (.stop rfl)) ?_) .nil
  refine .branch rfl (.tag rfl (Pattern.tagHead_letter rfl rfl) (.plural rfl rfl (.branch rfl
    (.pound rfl (.stop rfl)) (.branch rfl (.literal rfl rfl (.stop rfl) rfl) (.done rfl))) (.stop rfl))
    (Pattern.closingTag_letter _ rfl rfl) (.whole rfl rfl (.stop rfl))) (.done rfl)

/-- A record without the argument that only the first branch reads. -/
def pinnedFields (x : String) : Datum Nat :=
  if x = "g" then .text "f" else if x = "b" then .text "i" else if x = "k" then .number 1 else .absent

theorem rendering_ok_of_admits_pinned : Pattern.parse .lenient pinnedPattern = .ok pinned ∧
    ∃ type, TypeTerm.read (typeOfElements pinned) = some type ∧ type.Admits (.record pinnedFields) ∧
      (∀ (host : Host) (handover : Handover Nat host) (locale : String),
        Rendering.ofElements locale handover pinnedFields none pinned =
          .ok (Meaning.ofElements host locale (handover.record pinnedFields) none pinned)) ∧
      Rendering.ofElements "en" dayHandover pinnedFields none pinned = .ok "<i>1</i>f" := by
  have hpinned : Element.listPinned pinned := by
    simp [pinned, Element.listPinned, Element.Pinned, Element.optionsPinned, Element.Bare, otherKey,
      Element.argumentName?]
  have hbranched : Element.listBranched pinned := by
    simp [pinned, Element.listBranched, Element.Branched, Element.optionsBranched]
  obtain ⟨type, hread, hrendering⟩ := rendering_ok_of_admits parse_pinnedPattern hpinned
  have hadmits : type.Admits (.record pinnedFields) := by
    obtain rfl := Option.some.inj (hread.symm.trans (TypeExpr.read_render_ofElements hbranched))
    rw [TypeExpr.admits_ofElements_iff hbranched]
    simp [pinned, pinnedFields, Requirement.ofElements, Requirement.ofElement, Requirement.ofSomeBranch, otherKey,
      Datum.IsText, Datum.IsNumber]
  have hmeaning := hrendering pinnedFields hadmits
  exact ⟨parse_pinnedPattern, type, hread, hadmits, hmeaning, hmeaning dayHost dayHandover "en"⟩

end Message
end MessageFormat
