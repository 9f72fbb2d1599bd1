import MessageFormat.Element

/-! The programs that messages are compiled to, as trees, and what they evaluate to. A program is an arrow
function with named parameters and a template for its body. The values of arguments are texts, integers,
which are exact, and objects of the host; what the host does with objects is a parameter, and so are its
facilities for the conventions of a locale. -/

namespace MessageFormat

/-- A value of a program whose host has the objects `Object`. -/
inductive Value (Object : Type) where
  | text (s : String)
  | integer (n : Int)
  | object (o : Object)

namespace Program

/-- A literal for a text or an integer. -/
inductive Constant where
  | text (s : String)
  | integer (n : Int)
  deriving DecidableEq, Repr

/-- A parameter, or a parameter less an integer. -/
inductive Reference where
  | name (x : String)
  | difference (x : String) (k : Int)
  deriving DecidableEq, Repr

/-- A call of a method of a new formatter: `new Intl.C("locale", {key: constant}).m(argument)`, in which
the settings may be missing. -/
structure Call where
  constructor : String
  locale : String
  setting : Option (String × Constant)
  method : String
  argument : Reference
  deriving DecidableEq, Repr

/-- An expression without parts that are expressions. -/
inductive Atom where
  | constant (c : Constant)
  | reference (r : Reference)
  | call (c : Call)
  deriving DecidableEq, Repr

mutual

/-- An expression. -/
inductive Expr where
  | atom (a : Atom)
  | template (parts : List Part)
  /-- `left === right ? yes : no`, or with `==` for a comparison that is not strict. -/
  | conditional (strict : Bool) (left right : Atom) (yes no : Expr)

/-- A part of a template. -/
inductive Part where
  | char (c : Char)
  | hole (e : Expr)

end

end Program

/-- A function of the parameters, given by name, to the text of a template. -/
structure Program where
  parameters : List String
  body : List Program.Part

/-- What a program is run in. -/
structure Host where
  /-- The values that are neither texts nor integers. -/
  Object : Type
  /-- The text of an object in a template. -/
  display : Object → String
  /-- Whether two objects are the same one. -/
  same : Object → Object → Bool
  /-- The comparison `==` of two values that are not of one kind. -/
  coincide : Value Object → Value Object → Bool
  /-- The difference of a value that is no integer and an integer. -/
  subtract : Value Object → Int → Value Object
  /-- What the method of a formatter gives, from the constructor, the locale, the settings and the name of
  the method. -/
  intl : String → String → Option (String × Program.Constant) → String → Value Object → Value Object

namespace Host

variable (host : Host)

/-- The text of a value in a template. -/
def toText : Value host.Object → String
  | .text s => s
  | .integer n => n.repr
  | .object o => host.display o

/-- The comparison `===`. -/
def identical : Value host.Object → Value host.Object → Bool
  | .text s, .text t => s = t
  | .integer m, .integer n => m = n
  | .object o, .object p => host.same o p
  | _, _ => false

/-- The comparison `==`. -/
def equal : Value host.Object → Value host.Object → Bool
  | .text s, .text t => s = t
  | .integer m, .integer n => m = n
  | .object o, .object p => host.same o p
  | v, w => host.coincide v w

/-- A value less an integer. -/
def minus : Value host.Object → Int → Value host.Object
  | .integer n, k => .integer (n - k)
  | v, k => host.subtract v k

end Host

namespace Program

variable (host : Host)

/-- The values of names; a name without a value cannot be evaluated. -/
abbrev Environment : Type := String → Option (Value host.Object)

/-- The name of the facility of the host for the conventions of a locale. -/
def facility : String := "Intl"

/-- The value of a literal. -/
def Constant.value : Constant → Value host.Object
  | .text s => .text s
  | .integer n => .integer n

variable (env : Environment host)

/-- The value of a reference. -/
def Reference.eval : Reference → Option (Value host.Object)
  | .name x => env x
  | .difference x k => (env x).map fun v => host.minus v k

/-- The value of a call. A parameter of the name of the facility would hide it. -/
def Call.eval (c : Call) : Option (Value host.Object) :=
  if (env facility).isSome then none
  else (c.argument.eval host env).map (host.intl c.constructor c.locale c.setting c.method)

/-- The value of an atom. -/
def Atom.eval : Atom → Option (Value host.Object)
  | .constant c => some (c.value host)
  | .reference r => r.eval host env
  | .call c => c.eval host env

mutual

/-- The value of an expression. -/
def evalExpr : Expr → Option (Value host.Object)
  | .atom a => a.eval host env
  | .template parts => (evalParts parts).map .text
  | .conditional strict left right yes no => do
    let v ← left.eval host env
    let w ← right.eval host env
    if (if strict then host.identical v w else host.equal v w) then evalExpr yes else evalExpr no

/-- The text of the parts of a template. -/
def evalParts : List Part → Option String
  | [] => some ""
  | .char c :: parts => do
    let rest ← evalParts parts
    some (String.singleton c ++ rest)
  | .hole e :: parts => do
    let v ← evalExpr e
    let rest ← evalParts parts
    some (host.toText v ++ rest)

end

/-- The environment in which the parameters have the values of a record. -/
def binding (parameters : List String) (record : String → Value host.Object) : Environment host :=
  fun x => if x ∈ parameters then some (record x) else none

/-- The text that a program gives for a record of arguments. -/
def run (program : Program) (record : String → Value host.Object) : Option String :=
  evalParts host (binding host program.parameters record) program.body

end Program
end MessageFormat
