import MessageFormat.Element
import MessageFormat.Proofs.TypeExpr.Reader

/-! Which values a type admits, and what a message needs of the record of its arguments: the type of the
arguments is to admit exactly the records that have what the message needs. A message needs what each of its
elements needs. -/

namespace MessageFormat

/-- A value that an argument can have. No type looks into the contents of a number or of a date. -/
inductive Datum (Content : Type) where
  | text (s : String)
  | number (content : Content)
  | date (content : Content)
  /-- Values under keys. -/
  | record (fields : String → Datum Content)
  /-- A value of any other kind. -/
  | other (content : Content)
  /-- No value, which a record has under the keys that it does not hold. -/
  | absent

namespace Datum

variable {Content : Type}

def IsText (d : Datum Content) : Prop :=
  ∃ s, d = .text s

def IsNumber (d : Datum Content) : Prop :=
  ∃ content, d = .number content

def IsDate (d : Datum Content) : Prop :=
  ∃ content, d = .date content

end Datum

variable {Content : Type}

/-- The values of a type. The object type without properties admits every value that is there, texts and
numbers among them, and so every record. -/
def TypeTerm.Admits : TypeTerm → Datum Content → Prop
  | .present, d => d ≠ .absent
  | .string, d => d.IsText
  | .number, d => d.IsNumber
  | .date, d => d.IsDate
  | .literal text, d => d = .text text
  | .property key type, d => ∃ fields, d = .record fields ∧ type.Admits (fields key)
  | .combined .union left right, d => left.Admits d ∨ right.Admits d
  | .combined .intersection left right, d => left.Admits d ∧ right.Admits d

/-! ### What a message needs -/

namespace Requirement

mutual

/-- The record has what an element needs. -/
def ofElement (fields : String → Datum Content) : Element → Prop
  | .literal _ | .pound => True
  | .argument name => (fields name).IsText ∨ (fields name).IsNumber
  | .number name _ => (fields name).IsNumber
  | .date name _ | .time name _ => (fields name).IsDate
  | .select name options =>
    if otherKey ∈ options.map Prod.fst then
      (fields name).IsText ∧ ofSomeBranch fields (fun _ => True) options
    else ofSomeBranch fields (fun key => fields name = .text key) options
  | .plural name _ _ options => (fields name).IsNumber ∧ ofSomeBranch fields (fun _ => True) options
  | .tag name children => (fields name).IsText ∧ ofElements fields children

/-- The record has what all of the elements need. -/
def ofElements (fields : String → Datum Content) : List Element → Prop
  | [] => True
  | e :: es => ofElement fields e ∧ ofElements fields es

/-- The record has what one of the branches needs whose keys are allowed. -/
def ofSomeBranch (fields : String → Datum Content) (allowed : String → Prop) :
    List (String × List Element) → Prop
  | [] => False
  | (key, branch) :: options =>
    allowed key ∧ ofElements fields branch ∨ ofSomeBranch fields allowed options

end
end Requirement

mutual

/-- Every selection in the element has a branch. -/
def Element.Branched : Element → Prop
  | .literal _ | .argument _ | .number _ _ | .date _ _ | .time _ _ | .pound => True
  | .select _ options => options ≠ [] ∧ optionsBranched options
  | .plural _ _ _ options => options ≠ [] ∧ optionsBranched options
  | .tag _ children => listBranched children

/-- Every selection in the elements has a branch. -/
def Element.listBranched : List Element → Prop
  | [] => True
  | e :: es => e.Branched ∧ listBranched es

/-- Every selection in the branches has a branch. -/
def Element.optionsBranched : List (String × List Element) → Prop
  | [] => True
  | (_, branch) :: options => listBranched branch ∧ optionsBranched options

end

mutual

/-- Every selection by text in the element has a branch. A plural may be without. -/
def Element.TextBranched : Element → Prop
  | .literal _ | .argument _ | .number _ _ | .date _ _ | .time _ _ | .pound => True
  | .select _ options => options ≠ [] ∧ optionsTextBranched options
  | .plural _ _ _ options => optionsTextBranched options
  | .tag _ children => listTextBranched children

/-- Every selection by text in the elements has a branch. -/
def Element.listTextBranched : List Element → Prop
  | [] => True
  | e :: es => e.TextBranched ∧ listTextBranched es

/-- Every selection by text in the branches has a branch. -/
def Element.optionsTextBranched : List (String × List Element) → Prop
  | [] => True
  | (_, branch) :: options => listTextBranched branch ∧ optionsTextBranched options

end

mutual

theorem Element.textBranched_of_branched : ∀ e : Element, e.Branched → e.TextBranched
  | .literal _, _ | .argument _, _ | .number _ _, _ | .date _ _, _ | .time _ _, _ | .pound, _ => trivial
  | .select _ options, h => ⟨h.1, optionsTextBranched_of_optionsBranched options h.2⟩
  | .plural _ _ _ options, h => optionsTextBranched_of_optionsBranched options h.2
  | .tag _ children, h => listTextBranched_of_listBranched children h

theorem Element.listTextBranched_of_listBranched :
    ∀ es : List Element, listBranched es → listTextBranched es
  | [], _ => trivial
  | e :: es, h => ⟨textBranched_of_branched e h.1, listTextBranched_of_listBranched es h.2⟩

theorem Element.optionsTextBranched_of_optionsBranched :
    ∀ options : List (String × List Element), optionsBranched options → optionsTextBranched options
  | [], _ => trivial
  | (_, branch) :: options, h =>
    ⟨listTextBranched_of_listBranched branch h.1, optionsTextBranched_of_optionsBranched options h.2⟩

end

end MessageFormat
