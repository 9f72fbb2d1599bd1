import MessageFormat.Proofs.Script.Compilable
import MessageFormat.Proofs.Script.Shape

/-! The parameters of the function of a message. They are the arguments that the elements read, at every depth
and from left to right, each at its first mention, and they are written as they are. A function without
parameters is one template of text, because the only elements without an argument are literals and pound
signs, and a pound sign needs a plural around it. -/

namespace MessageFormat

namespace Element

mutual

/-- The elements inside an element at every depth, each before those inside it, from left to right. -/
def descendants : Element → List Element
  | .literal _ | .argument _ | .number _ _ | .date _ _ | .time _ _ | .pound => []
  | .select _ options | .plural _ _ _ options => optionDescendants options
  | .tag _ children => listDescendants children

/-- The elements of a list, each followed by the elements inside it. -/
def listDescendants : List Element → List Element
  | [] => []
  | e :: es => e :: (descendants e ++ listDescendants es)

/-- The elements of the branches of a selection, branch by branch. -/
def optionDescendants : List (String × List Element) → List Element
  | [] => []
  | (_, branch) :: options => listDescendants branch ++ optionDescendants options

end

mutual

/-- An element mentions what it reads itself, and then what the elements inside it read. -/
theorem mentions_eq_filterMap : ∀ e : Element, e.mentions = (e :: e.descendants).filterMap argumentName?
  | .literal _ | .pound | .argument _ | .number _ _ | .date _ _ | .time _ _ => rfl
  | .select name options | .plural name _ _ options => by
      rw [mentions, descendants, optionMentions_eq_filterMap options]
      rfl
  | .tag name children => by
      rw [mentions, descendants, listMentions_eq_filterMap children]
      rfl

theorem listMentions_eq_filterMap : ∀ es : List Element,
    listMentions es = (listDescendants es).filterMap argumentName?
  | [] => rfl
  | e :: es => by
      rw [listMentions, mentions_eq_filterMap e, listMentions_eq_filterMap es, listDescendants,
        ← List.cons_append, List.filterMap_append]

theorem optionMentions_eq_filterMap : ∀ options : List (String × List Element),
    optionMentions options = (optionDescendants options).filterMap argumentName?
  | [] => rfl
  | (_, branch) :: options => by
      rw [optionMentions, listMentions_eq_filterMap branch, optionMentions_eq_filterMap options,
        optionDescendants, List.filterMap_append]

end

theorem names_eq_nil_iff (es : List Element) :
    names es = [] ↔ ∀ e ∈ listDescendants es, e.argumentName? = none := by
  rw [names_eq_nil_iff_listMentions, listMentions_eq_filterMap, List.filterMap_eq_nil_iff]

end Element

/-! ### The text of a function before its template -/

namespace Script

/-- Names with commas between them are no text at all only if there is one name, and that is empty. -/
theorem intercalate_comma_eq_empty_iff {names : List String} (h : names ≠ []) :
    ",".intercalate names = "" ↔ names = [""] := by
  obtain ⟨name, names, rfl⟩ := List.exists_cons_of_ne_nil h
  by_cases hnil : names = []
  · subst hnil
    rw [String.intercalate_singleton]
    simp
  · rw [String.intercalate_cons_of_ne_nil hnil]
    simp [hnil]

end Script

/-- The text begins with `front`. -/
def Opens (front text : String) : Prop :=
  ∃ rest, text = front ++ rest

theorem opens_iff_toList {front text : String} : Opens front text ↔ front.toList <+: text.toList := by
  constructor
  · rintro ⟨rest, rfl⟩
    exact ⟨rest.toList, by rw [String.toList_append]⟩
  · rintro ⟨rest, hrest⟩
    refine ⟨.ofList rest, ?_⟩
    rw [← String.toList_inj, String.toList_append, String.toList_ofList, hrest]

namespace Script

theorem opens_constant_iff (names : List String) (text : String) :
    Opens "()=>" (signature names ++ text) ↔ names = [] := by
  constructor
  · intro h
    by_contra hne
    rw [opens_iff_toList, signature_of_ne_nil hne] at h
    simp at h
  · rintro rfl
    exact ⟨text, rfl⟩

/-- Nothing stands between the braces if the only name is empty; otherwise the braces can seem to be empty only
because of a brace in the names. -/
theorem opens_emptyBraces_iff (names : List String) (text : String) :
    Opens "(\x7b\x7d) =>" (signature names ++ text) ↔
      names = [""] ∨ Opens "\x7d) =>" (",".intercalate names) := by
  by_cases hne : names = []
  · subst hne
    simp [opens_iff_toList, signature]
  rw [← intercalate_comma_eq_empty_iff hne, signature_of_ne_nil hne, opens_iff_toList, opens_iff_toList,
    ← String.toList_eq_nil_iff]
  generalize ",".intercalate names = joined
  simp only [String.toList_append, String.reduceToList, List.cons_append, List.nil_append, List.append_assoc,
    List.cons_prefix_cons, true_and]
  generalize joined.toList = braced
  constructor
  · rintro ⟨rest, hrest⟩
    rcases List.append_eq_append_iff.mp hrest with ⟨inside, hinside, -⟩ | ⟨outside, hfront, houtside⟩
    · exact Or.inr ⟨inside, hinside.symm⟩
    · -- The names end in front of the brace that is written behind them, and are the front of what is sought.
      cases outside with
      | nil => exact Or.inr ⟨[], by simpa using hfront⟩
      | cons c outside =>
          obtain ⟨rfl, -⟩ := List.cons.inj houtside
          cases braced with
          | nil => exact Or.inl rfl
          | cons c braced =>
              obtain ⟨-, hbehind⟩ := List.cons.inj hfront
              have hmem : '\x7d' ∈ [')', ' ', '=', '>'] := hbehind ▸ List.mem_append_right braced (.head outside)
              simp at hmem
  · rintro (rfl | ⟨rest, rfl⟩)
    · exact ⟨_, rfl⟩
    · exact ⟨_, (List.append_assoc _ _ _).symm⟩

end Script

namespace Pattern

section WellFormed

variable {d : Dialect}

mutual

theorem isName_or_isTagName_of_mem_mentions : ∀ {inPlural} (e : Element), ElementWellFormed d inPlural e →
    ∀ name ∈ e.mentions, IsName name ∨ IsTagName name
  | _, .literal _, _ | _, .pound, _ => fun _ h => absurd h List.not_mem_nil
  | _, .argument _, h | _, .date _ _, h | _, .time _ _, h | _, .number _ _, ⟨h, _⟩ =>
      List.forall_mem_singleton.mpr (Or.inl h)
  | _, .select _ options, ⟨hname, _, hbranches⟩
  | _, .plural _ _ _ options, ⟨hname, _, hbranches⟩ =>
      List.forall_mem_cons.mpr ⟨Or.inl hname, isName_or_isTagName_of_mem_optionMentions options hbranches⟩
  | _, .tag _ children, ⟨_, hname, hchildren⟩ =>
      List.forall_mem_cons.mpr ⟨Or.inr hname, isName_or_isTagName_of_mem_listMentions children hchildren⟩

theorem isName_or_isTagName_of_mem_listMentions : ∀ {inPlural} (es : List Element), WellFormed d inPlural es →
    ∀ name ∈ Element.listMentions es, IsName name ∨ IsTagName name
  | _, [], _ => fun _ h => absurd h List.not_mem_nil
  | _, e :: es, ⟨he, _, hes⟩ =>
      List.forall_mem_append.mpr
        ⟨isName_or_isTagName_of_mem_mentions e he, isName_or_isTagName_of_mem_listMentions es hes⟩

theorem isName_or_isTagName_of_mem_optionMentions : ∀ {inPlural} (options : Options),
    BranchesWellFormed d inPlural options →
      ∀ name ∈ Element.optionMentions options, IsName name ∨ IsTagName name
  | _, [], _ => fun _ h => absurd h List.not_mem_nil
  | _, (_, branch) :: options, ⟨hbranch, hoptions⟩ =>
      List.forall_mem_append.mpr ⟨isName_or_isTagName_of_mem_listMentions branch hbranch,
        isName_or_isTagName_of_mem_optionMentions options hoptions⟩

end

end WellFormed

theorem not_isName_or_isTagName_empty : ¬ (IsName "" ∨ IsTagName "") := by
  simp [IsName, IsTagName]

/-- No name of a message that was read has a brace in it. -/
theorem ne_brace_of_mem_name {name : String} (h : IsName name ∨ IsTagName name) : ∀ c ∈ name.toList, c ≠ '\x7d' := by
  rintro c hc rfl
  rcases h with h | h
  · cases (h.2 _ hc).2
  · exact absurd (h.2 _ hc) (by decide +kernel)

end Pattern

namespace Message

theorem exists_body_of_compileElements {es : List Element} {locale source : String}
    (h : compileElements es locale = .ok source) :
    ∃ body, Script.ofElements? es = some ⟨Element.names es, body⟩ ∧
      source = Script.signature (Element.names es) ++ Script.template (Script.piecesSource locale body) := by
  rw [compileElements_eq] at h
  split at h
  · cases h
  · rename_i script hscript
    cases h
    obtain ⟨body, hbody, rfl⟩ := Option.map_eq_some_iff.mp hscript
    exact ⟨body, hscript, Script.source_eq_signature_append locale _⟩

/-- A function without parameters is one template, and in that there is only text. -/
theorem source_of_names_eq_nil {es : List Element} {locale source : String}
    (h : compileElements es locale = .ok source) (hnames : Element.names es = []) :
    ∃ text, source = "()=>" ++ Script.template (Script.escapeTemplate text) := by
  obtain ⟨body, hscript, -⟩ := exists_body_of_compileElements h
  obtain ⟨_, hbody, -⟩ := Option.map_eq_some_iff.mp hscript
  have hmentions := Element.names_eq_nil_iff_listMentions.mp hnames
  obtain ⟨texts, rfl⟩ := Element.all_isLiteral_iff.mp (Script.all_isLiteral_of_compileList hbody hmentions)
  rw [compileElements_literals] at h
  exact ⟨_, (Except.ok.inj h).symm⟩

theorem not_opens_emptyBraces_of_parse {d : Pattern.Dialect} {pattern : String} {es : List Element}
    (h : Pattern.parse d pattern = .ok es) (text : String) :
    ¬ Opens "(\x7b\x7d) =>" (Script.signature (Element.names es) ++ text) := by
  obtain ⟨r, hreads⟩ := Pattern.reads_of_parse h
  have hnames : ∀ name ∈ Element.names es, Pattern.IsName name ∨ Pattern.IsTagName name := by
    intro name hname
    exact Pattern.isName_or_isTagName_of_mem_listMentions es hreads.wellFormed name (Element.mem_names.mp hname)
  rw [Script.opens_emptyBraces_iff]
  rintro (hempty | hbrace)
  · exact Pattern.not_isName_or_isTagName_empty (hnames "" (hempty ▸ .head _))
  · obtain ⟨rest, hrest⟩ := opens_iff_toList.mp hbrace
    have hmem : '\x7d' ∈ (",".intercalate (Element.names es)).toList := hrest ▸ .head _
    exact forall_mem_intercalate (p := (· ≠ '\x7d')) (by simp)
      (fun name hname => Pattern.ne_brace_of_mem_name (hnames name hname)) _ hmem rfl

/-- The arguments of a message are what its elements read, at every depth and from left to right, without the
later mentions, and no argument is there twice. Where there are none, the function is one template behind
`()=>`, and otherwise it begins with the arguments between braces. Its braces are empty only where the one
argument has the empty name or where the names have a brace in them, and neither is so for a message that was read
from a pattern. It begins with `()=>` exactly when no element reads an argument. -/
theorem names_eq_and_source_opens (es : List Element) :
    Element.names es = ((Element.listDescendants es).filterMap Element.argumentName?).eraseDups ∧
    (Element.names es).Nodup ∧
    ∀ locale source, compileElements es locale = .ok source →
      (Element.names es = [] → ∃ text, source = "()=>" ++ Script.template (Script.escapeTemplate text)) ∧
      (Element.names es ≠ [] →
        Opens ("(\x7b" ++ ",".intercalate (Element.names es) ++ "\x7d) => \x60") source) ∧
      (Opens "(\x7b\x7d) =>" source ↔
        Element.names es = [""] ∨ Opens "\x7d) =>" (",".intercalate (Element.names es))) ∧
      (∀ d pattern, Pattern.parse d pattern = .ok es → ¬ Opens "(\x7b\x7d) =>" source) ∧
      (Opens "()=>" source ↔ ∀ e ∈ Element.listDescendants es, e.argumentName? = none) := by
  refine ⟨?_, Element.nodup_names es, fun locale source h => ?_⟩
  · rw [Element.names_eq_eraseDups, Element.listMentions_eq_filterMap]
  · obtain ⟨body, -, rfl⟩ := exists_body_of_compileElements h
    refine ⟨source_of_names_eq_nil h, fun hne => ?_, Script.opens_emptyBraces_iff _ _, fun d pattern hparse => ?_, ?_⟩
    · refine ⟨Script.piecesSource locale body ++ "\x60", ?_⟩
      rw [Script.signature_of_ne_nil hne, Script.template]
      apply String.toList_injective
      simp
    · exact not_opens_emptyBraces_of_parse hparse _
    · rw [Script.opens_constant_iff, Element.names_eq_nil_iff]

/-- Arguments in a tag and in a branch, two of them mentioned again further on. -/
def repeatedNames : List Element :=
  [.tag "b" [.argument "x"],
    .plural "n" .cardinal 0 [("one", [.argument "x", .number "b" none]), ("other", [.select "g" [], .pound])]]

theorem names_eq_and_source_opens_repeated :
    ∃ source, compileElements repeatedNames "en" = .ok source ∧ Element.names repeatedNames = ["b", "x", "n", "g"] ∧
      Opens "(\x7bb,x,n,g\x7d) => \x60" source ∧ ¬ Opens "()=>" source := by
  have hnames : Element.names repeatedNames = ["b", "x", "n", "g"] := by decide
  have hmem : .argument "x" ∈ Element.listDescendants repeatedNames := .tail _ (.head _)
  obtain ⟨-, -, hsource⟩ := names_eq_and_source_opens repeatedNames
  obtain ⟨-, hopens, -, -, hconstant⟩ := hsource "en" _ rfl
  refine ⟨_, rfl, hnames, hopens (by simp [hnames]), fun h => ?_⟩
  cases hconstant.mp h _ hmem

/-- The empty name stands between the braces as it is. -/
theorem emptyBraces_of_emptyName :
    Element.names [.argument ""] = [""] ∧
      compileElements [.argument ""] "en" = .ok "(\x7b\x7d) => \x60$\x7b\x7d\x60" ∧
      Opens "(\x7b\x7d) =>" "(\x7b\x7d) => \x60$\x7b\x7d\x60" :=
  ⟨rfl, rfl, " \x60$\x7b\x7d\x60", rfl⟩

end Message
end MessageFormat
