import MessageFormat.Proofs.TypeExpr.Adequacy

/-! The keys of the type of a message, read from its text from left to right, are the arguments of the message,
each at its first mention. The type mentions them in its own way: a selection without a branch for all other
keys names its argument once for every key, and branches that ask for nothing are left out. Neither changes
which names come first. -/

namespace MessageFormat

/-- Whatever stands before and behind the names, the names at their first mention are the same. -/
def SameFirsts (names names' : List String) : Prop :=
  ∀ before behind, (before ++ names ++ behind).eraseDups = (before ++ names' ++ behind).eraseDups

namespace SameFirsts

variable {a a' b b' c : List String}

theorem refl (a : List String) : SameFirsts a a :=
  fun _ _ => rfl

theorem trans (h : SameFirsts a b) (h' : SameFirsts b c) : SameFirsts a c :=
  fun before behind => (h before behind).trans (h' before behind)

theorem append (ha : SameFirsts a a') (hb : SameFirsts b b') : SameFirsts (a ++ b) (a' ++ b') := by
  intro before behind
  calc
    (before ++ (a ++ b) ++ behind).eraseDups = (before ++ a ++ (b ++ behind)).eraseDups := by
      simp only [List.append_assoc]
    _ = (before ++ a' ++ b ++ behind).eraseDups := by
      rw [ha, List.append_assoc (before ++ a')]
    _ = (before ++ (a' ++ b') ++ behind).eraseDups := by
      rw [hb, List.append_assoc before]

theorem cons (name : String) (h : SameFirsts a a') : SameFirsts (name :: a) (name :: a') :=
  append (refl [name]) h

/-- A name that was mentioned before may be mentioned again. -/
theorem again {name : String} (h : name ∈ a) (b : List String) : SameFirsts (a ++ name :: b) (a ++ b) := by
  intro before behind
  have hmem : name ∈ before ++ a := List.mem_append_right before h
  have hremove : (name :: (b ++ behind)).removeAll (before ++ a) = (b ++ behind).removeAll (before ++ a) := by
    apply List.filter_cons_of_neg
    rw [List.elem_iff.mpr hmem]
    exact Bool.false_ne_true
  calc
    (before ++ (a ++ name :: b) ++ behind).eraseDups =
        ((before ++ a) ++ name :: (b ++ behind)).eraseDups := by
      simp
    _ = ((before ++ a) ++ (b ++ behind)).eraseDups := by
      rw [List.eraseDups_append, hremove, ← List.eraseDups_append]
    _ = (before ++ (a ++ b) ++ behind).eraseDups := by
      simp only [List.append_assoc]

theorem eraseDups_eq (h : SameFirsts a b) : a.eraseDups = b.eraseDups := by
  simpa using h [] []

/-- A name that was mentioned before may be mentioned again in front of every group of names. -/
theorem flatMap_again {name : String} (h : name ∈ a) {α : Type} (f : α → List String) (groups : List α) :
    SameFirsts (a ++ groups.flatMap fun x => name :: f x) (a ++ groups.flatMap f) := by
  induction groups generalizing a with
  | nil => exact refl _
  | cons x groups ih =>
      rw [List.flatMap_cons, List.flatMap_cons, List.cons_append]
      apply (again h _).trans
      rw [← List.append_assoc, ← List.append_assoc]
      exact ih (List.mem_append_left _ h)

end SameFirsts

/-- The keys of the properties in a type, from left to right. -/
def TypeTerm.keys : TypeTerm → List String
  | .present | .string | .number | .date | .literal _ => []
  | .property key type => key :: type.keys
  | .combined _ left right => left.keys ++ right.keys

theorem TypeTerm.keys_joined (op : Operator) (types : List TypeTerm) :
    (joined op types).keys = types.flatMap keys := by
  induction types with
  | nil => rfl
  | cons type types ih =>
      by_cases hnil : types = []
      · subst hnil
        simp [joined]
      · rw [joined_cons op type hnil, keys, ih, List.flatMap_cons]

theorem ValueType.keys_term (type : ValueType) : type.term.keys = [] := by
  cases type with
  | oneOf keys => simp [term, TypeTerm.keys_joined, TypeTerm.keys]
  | _ => rfl

namespace TypeExpr

/-- The keys of the properties in a list of types. -/
def keysOf (parts : List TypeExpr) : List String :=
  parts.flatMap fun p => p.term.keys

theorem keys_property (name : String) (type : ValueType) : (term (.property name type)).keys = [name] := by
  rw [term, TypeTerm.keys, ValueType.keys_term]

theorem keys_intersection (parts : List TypeExpr) : (term (.intersection parts)).keys = keysOf parts := by
  rw [term, TypeTerm.keys_joined, termAll_eq_map, List.flatMap_map]
  rfl

theorem keys_union (members : List TypeExpr) : (term (.union members)).keys = keysOf members := by
  rw [term, TypeTerm.keys_joined, termAll_eq_map, List.flatMap_map]
  rfl

theorem keysOf_cons (p : TypeExpr) (parts : List TypeExpr) :
    keysOf (p :: parts) = p.term.keys ++ keysOf parts :=
  List.flatMap_cons

theorem keysOf_append (parts parts' : List TypeExpr) :
    keysOf (parts ++ parts') = keysOf parts ++ keysOf parts' :=
  List.flatMap_append

theorem keysOf_singleton (p : TypeExpr) : keysOf [p] = p.term.keys :=
  List.flatMap_singleton _ _

/-! ### The keys of the type of a message -/

/-- Leaving out a list of types that is empty leaves out no key. -/
theorem keysOf_inside (parts : List TypeExpr) :
    keysOf (if parts.isEmpty then [] else [.parens (.intersection parts)]) = keysOf parts := by
  by_cases hnil : parts = []
  · subst hnil
    rfl
  · rw [if_neg (by simpa using hnil), keysOf_singleton, term, keys_intersection]

theorem keys_branch (parts : List TypeExpr) :
    (term (if parts.isEmpty then .anything else .parens (.intersection parts))).keys = keysOf parts := by
  by_cases hnil : parts = []
  · subst hnil
    simp [term, keysOf, TypeTerm.keys]
  · rw [if_neg (by simpa using hnil), term, keys_intersection]

/-- The keys of the types of branches, from the first branch to the last. -/
def branchKeys (branches : BranchTypes) : List String :=
  branches.flatMap fun branch => keysOf branch.2

theorem keysOf_ofBranches (branches : BranchTypes) : keysOf (ofBranches branches) = branchKeys branches := by
  unfold ofBranches branchKeys
  split
  · rename_i hempty
    symm
    apply List.flatMap_eq_nil_iff.mpr
    intro branch hbranch
    have hnil : branch.2 = [] := by
      simpa using List.all_eq_true.mp hempty branch hbranch
    rw [hnil]
    rfl
  · rw [keysOf_singleton, term, keys_union, keysOf, List.flatMap_map]
    simp only [keys_branch]

theorem keys_closedMember (name key : String) (parts : List TypeExpr) :
    (closedMember name key parts).term.keys = name :: keysOf parts := by
  unfold closedMember
  by_cases hnil : parts = []
  · subst hnil
    exact keys_property name _
  · rw [if_neg (by simpa using hnil), term, keys_intersection, keysOf_cons, keysOf_singleton,
      keys_property, term, keys_intersection]
    rfl

theorem keys_ofClosed (name : String) (branches : BranchTypes) :
    (ofClosed name branches).term.keys = branches.flatMap fun branch => name :: keysOf branch.2 := by
  unfold ofClosed
  split
  · rw [keys_closedMember, List.flatMap_singleton]
  · rw [term, keys_union, keysOf, List.flatMap_map]
    simp only [keys_closedMember]

theorem sameFirsts_ofSelect (name : String) {branches : BranchTypes} (hne : branches ≠ []) :
    SameFirsts (keysOf (ofSelect name branches)) (name :: branchKeys branches) := by
  unfold ofSelect
  dsimp only
  split
  · rw [keysOf_cons, keys_property, keysOf_ofBranches]
    exact .refl _
  · obtain ⟨branch, branches, rfl⟩ := List.exists_cons_of_ne_nil hne
    rw [keysOf_singleton, keys_ofClosed, branchKeys, List.flatMap_cons, List.flatMap_cons]
    exact .flatMap_again (.head _) _ branches

mutual

theorem sameFirsts_ofElement : ∀ e : Element, e.TextBranched → SameFirsts (keysOf (ofElement e)) e.mentions
  | .literal _, _ | .pound, _ => .refl _
  | .argument name, _ | .number name _, _ | .date name _, _ | .time name _, _ => by
      rw [ofElement, keysOf_singleton, keys_property, Element.mentions]
      exact .refl _
  | .select name options, h => by
      rw [ofElement, Element.mentions]
      apply (sameFirsts_ofSelect name (ofOptions_ne_nil h.1)).trans
      exact (sameFirsts_ofOptions options h.2).cons name
  | .plural name _ _ options, h => by
      rw [ofElement, keysOf_cons, keys_property, keysOf_ofBranches, Element.mentions]
      exact (sameFirsts_ofOptions options h).cons name
  | .tag name children, h => by
      rw [ofElement, keysOf_cons, keys_property, keysOf_inside, Element.mentions]
      exact (sameFirsts_ofList children h).cons name

/-- The types that a list of elements asks for mention the names that the elements mention, in the same
order of first mention. -/
theorem sameFirsts_ofList : ∀ es : List Element, Element.listTextBranched es →
    SameFirsts (keysOf (ofList es)) (Element.listMentions es)
  | [], _ => .refl _
  | e :: es, h => by
      rw [ofList, keysOf_append, Element.listMentions]
      exact (sameFirsts_ofElement e h.1).append (sameFirsts_ofList es h.2)

theorem sameFirsts_ofOptions : ∀ options : Options, Element.optionsTextBranched options →
    SameFirsts (branchKeys (ofOptions options)) (Element.optionMentions options)
  | [], _ => .refl _
  | (_, branch) :: options, h => by
      rw [ofOptions, branchKeys, List.flatMap_cons, Element.optionMentions]
      exact (sameFirsts_ofList branch h.1).append (sameFirsts_ofOptions options h.2)

end

theorem keys_ofElements (es : List Element) : (ofElements es).term.keys = keysOf (ofList es) := by
  unfold ofElements
  split
  · rename_i hnil
    rw [hnil]
    rfl
  · exact keys_intersection _

/-- An element that mentions no name asks for nothing. -/
theorem ofList_eq_nil_of_listMentions : ∀ es : List Element, Element.listMentions es = [] → ofList es = []
  | [], _ => rfl
  | e :: es, h => by
      obtain ⟨he, hes⟩ := List.append_eq_nil_iff.mp h
      have hnil : ofElement e = [] := by
        cases e with
        | literal text => rfl
        | pound => rfl
        | _ => cases he
      rw [ofList, hnil, ofList_eq_nil_of_listMentions es hes]
      rfl

end TypeExpr

namespace Message

theorem eraseDups_keys_ofElements {es : List Element} (h : Element.listTextBranched es) :
    (TypeExpr.ofElements es).term.keys.eraseDups = Element.names es := by
  rw [TypeExpr.keys_ofElements, Element.names_eq_eraseDups]
  exact (TypeExpr.sameFirsts_ofList es h).eraseDups_eq

theorem typeOfElements_eq_anything_iff {es : List Element} (h : Element.listTextBranched es) :
    typeOfElements es = "\x7b\x7d" ↔ Element.names es = [] := by
  constructor
  · intro htext
    have hread := TypeExpr.read_render_of_textBranched h
    rw [show (TypeExpr.ofElements es).render = TypeExpr.render .anything from htext,
      TypeExpr.bracketed_anything.readsType.read] at hread
    rw [← eraseDups_keys_ofElements h, ← Option.some.inj hread]
    rfl
  · intro hnames
    have hmentions := Element.names_eq_nil_iff_listMentions.mp hnames
    rw [typeOfElements, TypeExpr.ofElements, TypeExpr.ofList_eq_nil_of_listMentions es hmentions]
    rfl

/-- In a message that was read every selection by text has a branch. If every selection by text of a message
has one, the keys in the text of its type, each at its first place, are the arguments of the message, each at
its first mention; and the type is that of every record exactly when the message has no arguments. -/
theorem keys_typeOfElements_eq_names :
    (∀ d pattern es, Pattern.parse d pattern = .ok es → Element.listTextBranched es) ∧
      ∀ es, Element.listTextBranched es →
        (∃ type, TypeTerm.read (typeOfElements es) = some type ∧ type.keys.eraseDups = Element.names es) ∧
          (typeOfElements es = "\x7b\x7d" ↔ Element.names es = []) := by
  constructor
  · intro d pattern es hparse
    obtain ⟨r, hreads⟩ := Pattern.reads_of_parse hparse
    exact Element.listTextBranched_of_listBranched es (Pattern.listBranched_of_wellFormed es hreads.wellFormed)
  · intro es h
    refine ⟨⟨_, TypeExpr.read_render_of_textBranched h, ?_⟩, typeOfElements_eq_anything_iff h⟩
    exact eraseDups_keys_ofElements h

/-- A selection with two keys that names its argument twice, and a plural without branches. -/
theorem keys_typeOfElements_eq_names_closed :
    ∃ type, TypeTerm.read
        "(\x7b \"g 1\": \"a\" \x7d | (\x7b \"g 1\": \"b\" \x7d & (\x7b x: number \x7d & \x7b \"g 1\": Date \x7d))) & \x7b n: number \x7d" =
          some type ∧ type.keys.eraseDups = ["g 1", "x", "n"] := by
  obtain ⟨⟨type, hread, hkeys⟩, -⟩ := keys_typeOfElements_eq_names.2
    [.select "g 1" [("a", []), ("b", [.number "x" none, .date "g 1" none])], .plural "n" .cardinal 0 []]
    (by simp [Element.listTextBranched, Element.TextBranched, Element.optionsTextBranched])
  exact ⟨type, hread, hkeys⟩

end Message
end MessageFormat
