import MessageFormat.Proofs.Script.Compilable
import MessageFormat.Proofs.Script.Shape

/-! The stretches of what is written for a message. The source text of its function and the text of the type of its
arguments are written as stretches, each of which is code or a text that is put between quotation marks. Such a text
is a key of a selection of the message or, in the type, a name that is no identifier. -/

namespace MessageFormat

/-- A stretch of a written text: code, or a text that is put between quotation marks. -/
inductive Fragment where
  | code (text : String)
  | quoted (text : String)
  deriving DecidableEq, Repr

namespace Fragment

/-- A stretch as it is written. -/
def source : Fragment → String
  | .code text => text
  | .quoted text => Script.quote text

/-- Stretches as they are written one behind the other. -/
def join : List Fragment → String
  | [] => ""
  | f :: fs => f.source ++ join fs

theorem join_cons_code (text : String) (fs : List Fragment) : join (.code text :: fs) = text ++ join fs := rfl

theorem join_append (fs gs : List Fragment) : join (fs ++ gs) = join fs ++ join gs := by
  induction fs with
  | nil => rw [List.nil_append, join, String.empty_append]
  | cons f fs ih => rw [List.cons_append, join, join, ih, String.append_assoc]

theorem join_singleton (f : Fragment) : join [f] = f.source :=
  String.append_empty

/-- Code between lists of stretches is a separator between their texts. -/
theorem join_intercalate (separator : String) (parts : List (List Fragment)) :
    join ([.code separator].intercalate parts) = separator.intercalate (parts.map join) := by
  induction parts with
  | nil => rfl
  | cons part parts ih =>
      by_cases hnil : parts = []
      · subst hnil
        rw [List.intercalate_singleton, List.map_singleton, String.intercalate_singleton]
      · rw [List.intercalate_cons_of_ne_nil hnil, join_append, join_append, ih, List.map_cons,
          String.intercalate_cons_of_ne_nil (by simpa using hnil), join_singleton, source, String.append_assoc]

/-- The texts between quotation marks all have the property `P`. -/
def Quotes (P : String → Prop) (fs : List Fragment) : Prop :=
  ∀ text, .quoted text ∈ fs → P text

section Quotes

variable {P : String → Prop} {fs gs : List Fragment} {text : String}

@[simp] theorem quotes_nil : Quotes P [] :=
  fun _ h => absurd h List.not_mem_nil

@[simp] theorem quotes_cons_code : Quotes P (.code text :: fs) ↔ Quotes P fs := by
  simp [Quotes]

@[simp] theorem quotes_cons_quoted : Quotes P (.quoted text :: fs) ↔ P text ∧ Quotes P fs := by
  simp [Quotes]

@[simp] theorem quotes_append : Quotes P (fs ++ gs) ↔ Quotes P fs ∧ Quotes P gs := by
  simp only [Quotes, List.mem_append, or_imp, forall_and]

theorem quotes_intercalate {separator : String} {parts : List (List Fragment)} (h : ∀ part ∈ parts, Quotes P part) :
    Quotes P ([.code separator].intercalate parts) := by
  induction parts with
  | nil => exact quotes_nil
  | cons part parts ih =>
      rw [List.forall_mem_cons] at h
      by_cases hnil : parts = []
      · subst hnil
        rw [List.intercalate_singleton]
        exact h.1
      · rw [List.intercalate_cons_of_ne_nil hnil]
        simp [h.1, ih h.2]

end Quotes
end Fragment

open Fragment

namespace Script

/-- A test. The text that it compares with is put between quotation marks. -/
def Test.fragments (locale : String) : Test → List Fragment
  | .identical name key => [.code (name ++ " === "), .quoted key]
  | .equal name value => [.code (name ++ " == " ++ value.literal)]
  | .category kind subject key =>
    [.code ("new Intl.PluralRules(\"" ++ locale ++ "\", \x7btype: \"" ++ kind.name ++ "\"\x7d).select(" ++
      subject.source ++ ") === "), .quoted key]

/-- A template around what is in it. -/
def templateFragments (inside : List Fragment) : List Fragment :=
  .code "\x60" :: inside ++ [.code "\x60"]

/-- A placeholder around its expression. -/
def placeholderFragments (expression : List Fragment) : List Fragment :=
  .code "$\x7b" :: expression ++ [.code "\x7d"]

mutual

/-- A piece in a template. -/
def pieceFragments (locale : String) : Piece → List Fragment
  | .text s => [.code (escapeTemplate s)]
  | .value name => [.code (placeholder name)]
  | .formatted formatter subject => [.code (placeholder (formatter.source locale subject))]
  | .choice arms none => placeholderFragments (armsFragments locale arms ++ [.code "\"\""])
  | .choice arms (some body) =>
    placeholderFragments (armsFragments locale arms ++ templateFragments (piecesFragments locale body))

/-- Pieces in a template. -/
def piecesFragments (locale : String) : List Piece → List Fragment
  | [] => []
  | p :: ps => pieceFragments locale p ++ piecesFragments locale ps

/-- The arms of a choice. -/
def armsFragments (locale : String) : List (Test × List Piece) → List Fragment
  | [] => []
  | (test, body) :: arms =>
    test.fragments locale ++ .code " ? " :: templateFragments (piecesFragments locale body) ++
      .code " : " :: armsFragments locale arms

end

/-- A function. -/
def fragments (locale : String) (script : Script) : List Fragment :=
  let body := templateFragments (piecesFragments locale script.body)
  match script.parameters with
  | [] => .code "()=>" :: body
  | names => .code ("(\x7b" ++ ",".intercalate names ++ "\x7d) => ") :: body

theorem Test.join_fragments (locale : String) (test : Test) : join (test.fragments locale) = test.source locale := by
  cases test with
  | identical name key =>
      rw [Test.source_identical, Test.fragments, join_cons_code, join_singleton]
      rfl
  | equal name value =>
      rw [Test.source_equal, Test.fragments, join_singleton]
      rfl
  | category kind subject key =>
      rw [Test.source_category, Test.fragments, join_cons_code, join_singleton]
      rfl

theorem join_templateFragments (inside : List Fragment) :
    join (templateFragments inside) = template (join inside) := by
  rw [templateFragments, List.cons_append, join_cons_code, join_append, join_singleton, ← String.append_assoc]
  rfl

theorem join_placeholderFragments (expression : List Fragment) :
    join (placeholderFragments expression) = placeholder (join expression) := by
  rw [placeholderFragments, List.cons_append, join_cons_code, join_append, join_singleton, ← String.append_assoc]
  rfl

mutual

theorem join_pieceFragments (locale : String) : ∀ p, join (pieceFragments locale p) = pieceSource locale p
  | .text s => by
      rw [pieceFragments, pieceSource, join_singleton]
      rfl
  | .value name => by
      rw [pieceFragments, pieceSource, join_singleton]
      rfl
  | .formatted formatter subject => by
      rw [pieceFragments, pieceSource, join_singleton]
      rfl
  | .choice arms none => by
      rw [pieceFragments, pieceSource, join_placeholderFragments, join_append, join_armsFragments locale arms,
        join_singleton]
      rfl
  | .choice arms (some body) => by
      rw [pieceFragments, pieceSource, join_placeholderFragments, join_append, join_armsFragments locale arms,
        join_templateFragments, join_piecesFragments locale body]

theorem join_piecesFragments (locale : String) : ∀ ps, join (piecesFragments locale ps) = piecesSource locale ps
  | [] => by
      rw [piecesFragments, piecesSource]
      rfl
  | p :: ps => by
      rw [piecesFragments, piecesSource, join_append, join_pieceFragments locale p, join_piecesFragments locale ps]

theorem join_armsFragments (locale : String) : ∀ arms, join (armsFragments locale arms) = armsSource locale arms
  | [] => by
      rw [armsFragments, armsSource]
      rfl
  | (test, body) :: arms => by
      rw [armsFragments, armsSource, join_append, join_append, Test.join_fragments, join_cons_code, join_cons_code,
        join_templateFragments, join_piecesFragments locale body, join_armsFragments locale arms]
      simp only [String.append_assoc]

end

/-- The source text of a function is what its stretches are written as. -/
theorem join_fragments (locale : String) (script : Script) : join (script.fragments locale) = script.source locale := by
  obtain ⟨parameters, body⟩ := script
  rw [fragments, source]
  cases parameters with
  | nil | cons name names =>
      dsimp only
      rw [join_cons_code, join_templateFragments, join_piecesFragments]

end Script

namespace Element

mutual

/-- The keys of the selections in an element, from left to right. -/
def keys : Element → List String
  | .literal _ | .pound | .argument _ | .number _ _ | .date _ _ | .time _ _ => []
  | .select _ options => optionKeys options
  | .plural _ _ _ options => optionKeys options
  | .tag _ children => listKeys children

/-- The keys of the selections in a list of elements. -/
def listKeys : List Element → List String
  | [] => []
  | e :: es => keys e ++ listKeys es

/-- The keys of some branches and of the selections in them. -/
def optionKeys : List (String × List Element) → List String
  | [] => []
  | (key, branch) :: options => key :: (listKeys branch ++ optionKeys options)

end

end Element

namespace Script

section Compiled

variable {P : String → Prop} {locale : String}

theorem quotes_templateFragments {inside : List Fragment} : Quotes P (templateFragments inside) ↔ Quotes P inside := by
  simp [templateFragments]

theorem quotes_placeholderFragments {expression : List Fragment} :
    Quotes P (placeholderFragments expression) ↔ Quotes P expression := by
  simp [placeholderFragments]

theorem quotes_piecesFragments_append {ps qs : List Piece} :
    Quotes P (piecesFragments locale (ps ++ qs)) ↔
      Quotes P (piecesFragments locale ps) ∧ Quotes P (piecesFragments locale qs) := by
  induction ps with
  | nil => simp [piecesFragments]
  | cons p ps ih => simp [piecesFragments, ih, and_assoc]

theorem quotes_armsFragments {arms : List (Test × List Piece)} :
    Quotes P (armsFragments locale arms) ↔
      ∀ arm ∈ arms, Quotes P (arm.1.fragments locale) ∧ Quotes P (piecesFragments locale arm.2) := by
  induction arms with
  | nil => simp [armsFragments]
  | cons arm arms ih => simp [armsFragments, quotes_templateFragments, ih, and_assoc]

theorem quotes_choice {arms : List (Test × List Piece)} {fallback : Option (List Piece)} :
    Quotes P (piecesFragments locale [.choice arms fallback]) ↔
      Quotes P (armsFragments locale arms) ∧ ∀ body ∈ fallback, Quotes P (piecesFragments locale body) := by
  cases fallback <;>
    simp [piecesFragments, pieceFragments, quotes_placeholderFragments, quotes_templateFragments]

/-- Branches of which the keys, and all that is quoted inside them, have the property `P`. -/
def BranchesQuote (P : String → Prop) (locale : String) (branches : Branches) : Prop :=
  ∀ branch ∈ branches, P branch.1 ∧ Quotes P (piecesFragments locale branch.2)

theorem BranchesQuote.lookup {branches : Branches} (h : BranchesQuote P locale branches) (key : String) :
    ∀ body ∈ branches.lookup key, Quotes P (piecesFragments locale body) :=
  fun body hbody => (h (key, body) (mem_of_lookup hbody)).2

theorem quotes_selectPiece (name : String) {branches : Branches} (h : BranchesQuote P locale branches) :
    Quotes P (piecesFragments locale [selectPiece name branches]) := by
  refine quotes_choice.mpr ⟨quotes_armsFragments.mpr fun arm harm => ?_, h.lookup otherKey⟩
  obtain ⟨⟨key, body⟩, hbranch, harm⟩ := List.mem_filterMap.mp harm
  dsimp only at harm
  split at harm
  · cases harm
  · cases harm
    simpa [Test.fragments] using h _ hbranch

theorem quotes_pluralPiece (kind : PluralKind) (subject : Subject) {branches : Branches}
    (h : BranchesQuote P locale branches) :
    Quotes P (piecesFragments locale [pluralPiece kind subject branches]) := by
  refine quotes_choice.mpr ⟨quotes_armsFragments.mpr fun arm harm => ?_, h.lookup otherKey⟩
  rcases List.mem_append.mp harm with harm | harm
  · obtain ⟨⟨key, body⟩, hbranch, harm⟩ := List.mem_filterMap.mp harm
    obtain ⟨text, -, harm⟩ := Option.map_eq_some_iff.mp harm
    cases harm
    simpa [Test.fragments] using (h _ hbranch).2
  · obtain ⟨⟨key, body⟩, hbranch, harm⟩ := List.mem_filterMap.mp harm
    dsimp only at harm
    split at harm
    · cases harm
    · cases harm
      simpa [Test.fragments] using h _ hbranch

mutual

theorem quotes_compileElement : ∀ {e : Element} {pound : Option Subject} {pieces : List Piece},
    compileElement pound e = some pieces → (∀ key ∈ e.keys, P key) → Quotes P (piecesFragments locale pieces)
  | .literal _, _, _, h, _ | .argument _, _, _, h, _ | .number _ _, _, _, h, _ | .date _ _, _, _, h, _
  | .time _ _, _, _, h, _ => by
      cases h
      simp [piecesFragments, pieceFragments]
  | .select name options, pound, pieces, h, hkeys => by
      obtain ⟨branches, hbranches, h⟩ := Option.bind_eq_some_iff.mp h
      cases h
      exact quotes_selectPiece name (quotes_compileOptions hbranches hkeys)
  | .plural name kind offset options, pound, pieces, h, hkeys => by
      obtain ⟨branches, hbranches, h⟩ := Option.bind_eq_some_iff.mp h
      cases h
      exact quotes_pluralPiece kind _ (quotes_compileOptions hbranches hkeys)
  | .pound, pound, pieces, h, _ => by
      obtain ⟨subject, -, h⟩ := Option.bind_eq_some_iff.mp h
      cases h
      simp [piecesFragments, pieceFragments]
  | .tag name children, pound, pieces, h, hkeys => by
      obtain ⟨inside, hinside, h⟩ := Option.bind_eq_some_iff.mp h
      cases h
      simp [tagPieces, piecesFragments, pieceFragments, quotes_piecesFragments_append,
        quotes_compileList hinside hkeys]

theorem quotes_compileList : ∀ {es : List Element} {pound : Option Subject} {pieces : List Piece},
    compileList pound es = some pieces → (∀ key ∈ Element.listKeys es, P key) →
      Quotes P (piecesFragments locale pieces)
  | [], pound, pieces, h, _ => by
      cases h
      simp [piecesFragments]
  | e :: es, pound, pieces, h, hkeys => by
      obtain ⟨first, hfirst, h⟩ := Option.bind_eq_some_iff.mp h
      obtain ⟨rest, hrest, h⟩ := Option.bind_eq_some_iff.mp h
      cases h
      rw [Element.listKeys, List.forall_mem_append] at hkeys
      exact quotes_piecesFragments_append.mpr
        ⟨quotes_compileElement hfirst hkeys.1, quotes_compileList hrest hkeys.2⟩

theorem quotes_compileOptions : ∀ {options : Options} {pound : Option Subject} {branches : Branches},
    compileOptions pound options = some branches → (∀ key ∈ Element.optionKeys options, P key) →
      BranchesQuote P locale branches
  | [], pound, branches, h, _ => by
      cases h
      exact fun _ hbranch => absurd hbranch List.not_mem_nil
  | (key, branch) :: options, pound, branches, h, hkeys => by
      obtain ⟨body, hbody, h⟩ := Option.bind_eq_some_iff.mp h
      obtain ⟨rest, hrest, h⟩ := Option.bind_eq_some_iff.mp h
      cases h
      rw [Element.optionKeys, List.forall_mem_cons, List.forall_mem_append] at hkeys
      obtain ⟨hkey, hbranch, hoptions⟩ := hkeys
      exact List.forall_mem_cons.mpr
        ⟨⟨hkey, quotes_compileList hbody hbranch⟩, quotes_compileOptions hrest hoptions⟩

end

/-- All that the function of a message quotes are keys of the message. -/
theorem quotes_fragments {es : List Element} {script : Script} (h : ofElements? es = some script) :
    Quotes (· ∈ Element.listKeys es) (script.fragments locale) := by
  obtain ⟨body, hbody, rfl⟩ := Option.map_eq_some_iff.mp h
  have hquotes : Quotes (· ∈ Element.listKeys es) (piecesFragments locale body) :=
    quotes_compileList hbody fun key hkey => hkey
  unfold fragments
  dsimp only
  split <;> simpa [quotes_templateFragments] using hquotes

end Compiled

end Script

/-! ### Types -/

/-- The type of one argument. -/
def ValueType.fragments : ValueType → List Fragment
  | .oneOf keys => [.code " | "].intercalate (keys.map (fun key => [.quoted key]) ++ [[.code "(string & \x7b\x7d)"]])
  | .exactly key => [.quoted key]
  | type => [.code type.render]

theorem ValueType.join_fragments (type : ValueType) : join type.fragments = type.render := by
  cases type with
  | oneOf keys =>
      rw [fragments, render, join_intercalate, List.map_append, List.map_map, List.map_singleton, join_singleton]
      have hquote : join ∘ (fun key => [.quoted key]) = Script.quote := funext fun key => join_singleton _
      rw [hquote]
      rfl
  | stringOrNumber | number | date | string | exactly key => exact join_singleton _

theorem ValueType.quotes_oneOf {P : String → Prop} {keys : List String} (h : ∀ key ∈ keys, P key) :
    Quotes P (ValueType.oneOf keys).fragments := by
  apply quotes_intercalate
  rw [List.forall_mem_append, List.forall_mem_map, List.forall_mem_singleton]
  exact ⟨fun key hkey => by simpa using h key hkey, by simp⟩

namespace TypeExpr

/-- The key of a property. -/
def keyFragment (name : String) : Fragment :=
  if isIdentifier name then .code name else .quoted name

mutual

/-- A type. -/
def fragments : TypeExpr → List Fragment
  | .anything => [.code "\x7b\x7d"]
  | .property name type =>
    .code "\x7b " :: keyFragment name :: .code ": " :: (type.fragments ++ [.code " \x7d"])
  | .intersection parts => [.code " & "].intercalate (fragmentsAll parts)
  | .union members => [.code " | "].intercalate (fragmentsAll members)
  | .parens inside => .code "(" :: (fragments inside ++ [.code ")"])

/-- The types of a list. -/
def fragmentsAll : List TypeExpr → List (List Fragment)
  | [] => []
  | t :: ts => fragments t :: fragmentsAll ts

end

theorem source_keyFragment (name : String) : (keyFragment name).source = propertyKey name := by
  unfold keyFragment propertyKey
  split <;> rfl

mutual

/-- The text of a type is what its stretches are written as. -/
theorem join_fragments : ∀ t : TypeExpr, join t.fragments = t.render
  | .anything => by
      rw [fragments, join_singleton, render]
      rfl
  | .property name type => by
      rw [fragments, join_cons_code, join, source_keyFragment, join_cons_code, join_append,
        ValueType.join_fragments, join_singleton, render]
      simp only [String.append_assoc]
      rfl
  | .intersection parts => by
      rw [fragments, join_intercalate, map_join_fragmentsAll parts, render]
  | .union members => by
      rw [fragments, join_intercalate, map_join_fragmentsAll members, render]
  | .parens inside => by
      rw [fragments, join_cons_code, join_append, join_fragments inside, join_singleton, render,
        String.append_assoc]
      rfl

theorem map_join_fragmentsAll : ∀ ts : List TypeExpr, (fragmentsAll ts).map join = renderAll ts
  | [] => by
      rw [fragmentsAll, renderAll]
      rfl
  | t :: ts => by
      rw [fragmentsAll, renderAll, List.map_cons, join_fragments t, map_join_fragmentsAll ts]

end

section Quoted

variable {P : String → Prop}

theorem quotes_property {name : String} {type : ValueType} (hname : isIdentifier name = false → P name)
    (htype : Quotes P type.fragments) : Quotes P (fragments (.property name type)) := by
  rw [fragments, quotes_cons_code, keyFragment]
  split
  · simpa using htype
  · simpa [htype] using hname (Bool.eq_false_iff.mpr ‹_›)

theorem forall_mem_fragmentsAll {parts : List TypeExpr} (h : ∀ p ∈ parts, Quotes P p.fragments) :
    ∀ fs ∈ fragmentsAll parts, Quotes P fs := by
  induction parts with
  | nil => simp [fragmentsAll]
  | cons p parts ih =>
      rw [List.forall_mem_cons] at h
      rw [fragmentsAll, List.forall_mem_cons]
      exact ⟨h.1, ih h.2⟩

theorem quotes_intersection {parts : List TypeExpr} (h : ∀ p ∈ parts, Quotes P p.fragments) :
    Quotes P (fragments (.intersection parts)) := by
  rw [fragments]
  exact quotes_intercalate (forall_mem_fragmentsAll h)

theorem quotes_union {members : List TypeExpr} (h : ∀ p ∈ members, Quotes P p.fragments) :
    Quotes P (fragments (.union members)) := by
  rw [fragments]
  exact quotes_intercalate (forall_mem_fragmentsAll h)

theorem quotes_parens {t : TypeExpr} : Quotes P (fragments (.parens t)) ↔ Quotes P t.fragments := by
  simp [fragments]

/-- Branches of which the keys, and all that is quoted in what they ask for, have the property `P`. -/
def BranchesQuote (P : String → Prop) (branches : BranchTypes) : Prop :=
  ∀ branch ∈ branches, P branch.1 ∧ ∀ p ∈ branch.2, Quotes P p.fragments

variable {branches : BranchTypes}

theorem quotes_of_mem_ofBranches (h : BranchesQuote P branches) :
    ∀ p ∈ ofBranches branches, Quotes P p.fragments := by
  unfold ofBranches
  split
  · simp
  · rw [List.forall_mem_singleton, quotes_parens]
    apply quotes_union
    rw [List.forall_mem_map]
    rintro ⟨key, parts⟩ hbranch
    dsimp only
    split
    · simp [fragments]
    · exact quotes_parens.mpr (quotes_intersection (h _ hbranch).2)

theorem quotes_closedMember {name key : String} {parts : List TypeExpr} (hname : isIdentifier name = false → P name)
    (hkey : P key) (h : ∀ p ∈ parts, Quotes P p.fragments) : Quotes P (closedMember name key parts).fragments := by
  have hown : Quotes P (fragments (.property name (.exactly key))) :=
    quotes_property hname (by simpa [ValueType.fragments] using hkey)
  unfold closedMember
  dsimp only
  split
  · exact hown
  · rw [quotes_parens]
    apply quotes_intersection
    rw [List.forall_mem_cons, List.forall_mem_singleton, quotes_parens]
    exact ⟨hown, quotes_intersection h⟩

theorem quotes_ofClosed {name : String} (hname : isIdentifier name = false → P name) (h : BranchesQuote P branches) :
    Quotes P (ofClosed name branches).fragments := by
  unfold ofClosed
  split
  · obtain ⟨hkey, hparts⟩ := h _ (.head _)
    exact quotes_closedMember hname hkey hparts
  · rw [quotes_parens]
    apply quotes_union
    rw [List.forall_mem_map]
    intro branch hbranch
    obtain ⟨hkey, hparts⟩ := h branch hbranch
    exact quotes_closedMember hname hkey hparts

theorem quotes_of_mem_ofSelect {name : String} (hname : isIdentifier name = false → P name)
    (h : BranchesQuote P branches) : ∀ p ∈ ofSelect name branches, Quotes P p.fragments := by
  unfold ofSelect
  dsimp only
  split
  · rw [List.forall_mem_cons]
    refine ⟨quotes_property hname (ValueType.quotes_oneOf fun key hkey => ?_), quotes_of_mem_ofBranches h⟩
    obtain ⟨branch, hbranch, rfl⟩ := List.mem_map.mp (List.mem_filter.mp hkey).1
    exact (h branch hbranch).1
  · rw [List.forall_mem_singleton]
    exact quotes_ofClosed hname h

mutual

theorem quotes_of_mem_ofElement : ∀ e : Element, (∀ key ∈ e.keys, P key) →
    (∀ name ∈ e.mentions, isIdentifier name = false → P name) → ∀ p ∈ ofElement e, Quotes P p.fragments
  | .literal _, _, _ | .pound, _, _ => by simp [ofElement]
  | .argument name, _, hnames | .number name _, _, hnames | .date name _, _, hnames | .time name _, _, hnames => by
      rw [ofElement, List.forall_mem_singleton]
      exact quotes_property (hnames name (.head _)) (by simp [ValueType.fragments])
  | .select name options, hkeys, hnames => by
      rw [ofElement]
      exact quotes_of_mem_ofSelect (hnames name (.head _))
        (quotes_ofOptions options hkeys fun x hx => hnames x (.tail _ hx))
  | .plural name kind offset options, hkeys, hnames => by
      rw [ofElement, List.forall_mem_cons]
      exact ⟨quotes_property (hnames name (.head _)) (by simp [ValueType.fragments]),
        quotes_of_mem_ofBranches (quotes_ofOptions options hkeys fun x hx => hnames x (.tail _ hx))⟩
  | .tag name children, hkeys, hnames => by
      rw [ofElement, List.forall_mem_cons]
      refine ⟨quotes_property (hnames name (.head _)) (by simp [ValueType.fragments]), ?_⟩
      split
      · simp
      · rw [List.forall_mem_singleton, quotes_parens]
        exact quotes_intersection (quotes_of_mem_ofList children hkeys fun x hx => hnames x (.tail _ hx))

theorem quotes_of_mem_ofList : ∀ es : List Element, (∀ key ∈ Element.listKeys es, P key) →
    (∀ name ∈ Element.listMentions es, isIdentifier name = false → P name) → ∀ p ∈ ofList es, Quotes P p.fragments
  | [], _, _ => by simp [ofList]
  | e :: es, hkeys, hnames => by
      rw [Element.listKeys, List.forall_mem_append] at hkeys
      rw [Element.listMentions, List.forall_mem_append] at hnames
      rw [ofList, List.forall_mem_append]
      exact ⟨quotes_of_mem_ofElement e hkeys.1 hnames.1, quotes_of_mem_ofList es hkeys.2 hnames.2⟩

theorem quotes_ofOptions : ∀ options : Options, (∀ key ∈ Element.optionKeys options, P key) →
    (∀ name ∈ Element.optionMentions options, isIdentifier name = false → P name) →
      BranchesQuote P (ofOptions options)
  | [], _, _ => fun _ h => absurd h List.not_mem_nil
  | (key, branch) :: options, hkeys, hnames => by
      rw [Element.optionKeys, List.forall_mem_cons, List.forall_mem_append] at hkeys
      rw [Element.optionMentions, List.forall_mem_append] at hnames
      obtain ⟨hkey, hbranch, hoptions⟩ := hkeys
      rw [ofOptions]
      exact List.forall_mem_cons.mpr
        ⟨⟨hkey, quotes_of_mem_ofList branch hbranch hnames.1⟩, quotes_ofOptions options hoptions hnames.2⟩

end

end Quoted

/-- All that the type of a message quotes are keys of the message, and names of it that are no identifiers. -/
theorem quotes_fragments (es : List Element) :
    Quotes (fun text => text ∈ Element.listKeys es ∨ text ∈ Element.listMentions es ∧ isIdentifier text = false)
      (ofElements es).fragments := by
  have hkeys : ∀ key ∈ Element.listKeys es,
      key ∈ Element.listKeys es ∨ key ∈ Element.listMentions es ∧ isIdentifier key = false :=
    fun key hkey => Or.inl hkey
  have hparts := quotes_of_mem_ofList es hkeys fun name hname hquoted => Or.inr ⟨hname, hquoted⟩
  unfold ofElements
  split
  · simp [fragments]
  · exact quotes_intersection hparts

end TypeExpr

end MessageFormat
