import MessageFormat.Numeral.Integer
import MessageFormat.Proofs.Script.Program

/-! The text that a message stands for, given the values of its arguments: what a compiled message is to
compute, said without programs. It depends on the host only through the facilities for a locale and through
what the host does with values that are neither texts nor integers. -/

namespace MessageFormat.Meaning

/-- The texts of the branches of a selection under their keys. -/
abbrev Branches := List (String × String)

/-- The text of the first branch whose key is of a class. -/
def branch? (p : String → Bool) (branches : Branches) : Option String :=
  (branches.find? fun branch => p branch.1).map Prod.snd

theorem branch?_cons (p : String → Bool) (key text : String) (branches : Branches) :
    branch? p ((key, text) :: branches) = if p key then some text else branch? p branches := by
  by_cases hkey : p key <;> simp [branch?, hkey]

/-- The text of the branch taken when no other one is. -/
def otherBranch (branches : Branches) : String :=
  (branch? (fun key => key = otherKey) branches).getD ""

/-- The integer of an exact key, which stands behind an equality sign. -/
def exactValue? (key : String) : Option Int :=
  if key.toList.head? = some '=' then Integer.value? key.toList.tail else none

/-- The settings for a number in a style; a style that is not known has none. -/
def numberSetting : Option String → Option (String × Program.Constant)
  | some "percent" => some ("style", .text "percent")
  | some "integer" => some ("maximumFractionDigits", .integer 0)
  | _ => none

/-- The settings for a date or a time of a length, under the key for the one or the other. -/
def dateSetting (key : String) (style : Option DateStyle) : Option (String × Program.Constant) :=
  style.map fun s => (key, .text s.name)

section Values

variable (host : Host)

/-- A value less an offset. Without an offset the value is left as it is, be it an integer or not. -/
def lessOffset (v : Value host.Object) (offset : Int64) : Value host.Object :=
  if offset = 0 then v else host.minus v offset.toInt

variable (locale : String)

/-- The text that a formatter makes of a value. -/
def formatted (constructor : String) (setting : Option (String × Program.Constant))
    (v : Value host.Object) : String :=
  host.toText (host.intl constructor locale setting "format" v)

/-- The plural category of a value. -/
def category (kind : PluralKind) (v : Value host.Object) : Value host.Object :=
  host.intl "PluralRules" locale (some ("type", .text kind.name)) "select" v

/-- Whether a key is exact and its integer equals a value. -/
def isExactKeyOf (v : Value host.Object) (key : String) : Bool :=
  (exactValue? key).any fun n => host.equal v (.integer n)

/-- Whether a key is not exact and names the plural category of a value. -/
def isCategoryOf (kind : PluralKind) (v : Value host.Object) (key : String) : Bool :=
  (exactValue? key).isNone && host.identical (category host locale kind v) (.text key)

/-- The branch whose key is the value, or else the one for all other keys, or else nothing. -/
def select (v : Value host.Object) (branches : Branches) : String :=
  (branch? (fun key => host.identical v (.text key)) branches).getD (otherBranch branches)

/-- The branch with the exact key of the value, or else the one for the category of the value less the
offset, or else the one for all other keys, or else nothing. -/
def plural (kind : PluralKind) (v : Value host.Object) (offset : Int64) (branches : Branches) : String :=
  (branch? (isExactKeyOf host v) branches).getD
    ((branch? (isCategoryOf host locale kind (lessOffset host v offset)) branches).getD
      (otherBranch branches))

end Values

variable (host : Host) (locale : String) (record : String → Value host.Object)

mutual

/-- The text of an element; `pound` is what the nearest plural around it has chosen its category by. A
pound sign without one, which no message that was read has, stands for nothing. -/
def ofElement (pound : Option (Value host.Object)) : Element → String
  | .literal text => text
  | .argument name => host.toText (record name)
  | .number name style => formatted host locale "NumberFormat" (numberSetting style) (record name)
  | .date name style =>
    formatted host locale "DateTimeFormat" (dateSetting "dateStyle" style) (record name)
  | .time name style =>
    formatted host locale "DateTimeFormat" (dateSetting "timeStyle" style) (record name)
  | .select name options => select host (record name) (ofOptions pound options)
  | .plural name kind offset options =>
    plural host locale kind (record name) offset
      (ofOptions (some (lessOffset host (record name) offset)) options)
  | .pound => (pound.map (formatted host locale "NumberFormat" none)).getD ""
  | .tag name children =>
    "<" ++ host.toText (record name) ++ ">" ++ ofElements pound children ++
      "</" ++ host.toText (record name) ++ ">"

/-- The text of a list of elements. -/
def ofElements (pound : Option (Value host.Object)) : List Element → String
  | [] => ""
  | e :: es => ofElement pound e ++ ofElements pound es

/-- The texts of the branches of a selection. -/
def ofOptions (pound : Option (Value host.Object)) : List (String × List Element) → Branches
  | [] => []
  | (key, branch) :: options => (key, ofElements pound branch) :: ofOptions pound options

end

end MessageFormat.Meaning
