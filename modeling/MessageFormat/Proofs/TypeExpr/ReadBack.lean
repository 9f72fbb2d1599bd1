import MessageFormat.Proofs.Script.ReadBack
import MessageFormat.Proofs.TypeExpr.Requirement
import MessageFormat.TypeExpr.OfElements
import Mathlib.Data.List.Forall2

/-! The text of the type of a message is read as the term that the type is. Every part of the type stands in
brackets of some kind, so that it is read up to its end and no further, whatever operator comes behind it. -/

namespace MessageFormat

open Program (skipSpaces token IsSpaces isSpaces_nil isSpaces_space)

namespace TypeTerm

theorem readQuoted_cons {c : Char} (hquote : c ≠ '"') (hslash : c ≠ '\\') (s : List Char) :
    readQuoted (c :: s) = (readQuoted s).map fun body => (c :: body.1, body.2) := by
  rw [readQuoted]
  · rintro rfl
    exact hquote rfl
  · rintro d t rfl
    exact absurd rfl hslash

theorem readQuoted_escape (s r : List Char) :
    readQuoted (s.flatMap Script.escapeQuotedChar ++ '"' :: r) = some (s, r) := by
  induction s with
  | nil => rfl
  | cons c s ih =>
      rw [List.flatMap_cons, List.append_assoc, Script.escapeQuotedChar]
      split
      · show (readQuoted (s.flatMap Script.escapeQuotedChar ++ '"' :: r)).map _ = _
        rw [ih]
        rfl
      · rename_i hc
        simp only [Bool.or_eq_true, decide_eq_true_eq, not_or] at hc
        rw [List.singleton_append, readQuoted_cons hc.2 hc.1, ih]
        rfl

theorem quote_append (text : String) (r : List Char) : (Script.quote text).toList ++ r =
    '"' :: (text.toList.flatMap Script.escapeQuotedChar ++ '"' :: r) := by
  simp [Script.quote]

theorem skipSpaces_identifier {name : String} (hname : TypeExpr.isIdentifier name) (w : List Char)
    (hw : IsSpaces w) (r : List Char) : skipSpaces (w ++ (name.toList ++ r)) = name.toList ++ r := by
  obtain ⟨c, t, ht, hc, -⟩ := TypeExpr.exists_cons_of_isIdentifier hname
  have hspace : c ≠ ' ' := by
    rintro rfl
    cases hc
  rw [ht]
  exact hw.skipSpaces hspace _

theorem readKey_propertyKey (name : String) {r : List Char} (hr : Stops TypeExpr.isIdentifierPart r) :
    readKey (' ' :: ((TypeExpr.propertyKey name).toList ++ r)) = some (name, r) := by
  unfold readKey TypeExpr.propertyKey
  by_cases hname : TypeExpr.isIdentifier name
  · have hskip : skipSpaces (' ' :: (name.toList ++ r)) = name.toList ++ r :=
      skipSpaces_identifier hname [' '] isSpaces_space r
    obtain ⟨c, t, ht, hc, -⟩ := TypeExpr.exists_cons_of_isIdentifier hname
    rw [if_pos hname, hskip]
    split
    · rename_i hquote
      rw [ht] at hquote
      cases hquote
      cases hc
    · have hparts : ∀ c ∈ name.toList, TypeExpr.isIdentifierPart c :=
        fun _ => TypeExpr.isIdentifierPart_of_mem hname
      rw [takeWhile_run_append hparts hr, dropWhile_run_append hparts hr, String.ofList_toList]
      exact if_pos hname
  · rw [if_neg hname, quote_append]
    show (readQuoted _).map _ = _
    rw [readQuoted_escape]
    simp

theorem token_brace_propertyKey (name : String) (r : List Char) :
    token ['\x7d'] (' ' :: ((TypeExpr.propertyKey name).toList ++ r)) = none := by
  unfold TypeExpr.propertyKey
  by_cases hname : TypeExpr.isIdentifier name
  · have hskip : skipSpaces (' ' :: (name.toList ++ r)) = name.toList ++ r :=
      skipSpaces_identifier hname [' '] isSpaces_space r
    rw [if_pos hname, token, hskip]
    obtain ⟨c, t, ht, hc, -⟩ := TypeExpr.exists_cons_of_isIdentifier hname
    have hbrace : c ≠ '\x7d' := by
      rintro rfl
      cases hc
    rw [ht]
    exact if_neg hbrace
  · rw [if_neg hname, quote_append]
    rfl

/-- The text is read as the type, with spaces before it and whatever behind it that does not go on with its
last word. -/
def ReadsPrimary (text : String) (type : TypeTerm) : Prop :=
  ∀ ⦃w r : List Char⦄, IsSpaces w → Stops TypeExpr.isIdentifierPart r →
    readPrimary (w ++ (text.toList ++ r)) = some (type, r)

theorem readsPrimary_word {word : String} {type : TypeTerm} (hword : TypeExpr.isIdentifier word)
    (htype : ofWord? word = some type) : ReadsPrimary word type := by
  intro w r hw hr
  have hskip := skipSpaces_identifier hword w hw r
  have hparts : ∀ c ∈ word.toList, TypeExpr.isIdentifierPart c :=
    fun _ => TypeExpr.isIdentifierPart_of_mem hword
  have hread : readWord (word.toList ++ r) = some (type, r) := by
    rw [readWord, takeWhile_run_append hparts hr, dropWhile_run_append hparts hr, String.ofList_toList, htype]
    rfl
  obtain ⟨c, t, ht, hc, -⟩ := TypeExpr.exists_cons_of_isIdentifier hword
  rw [ht] at hskip hread
  rw [ht]
  exact readPrimary_word hskip hc hread

theorem readsPrimary_quote (text : String) : ReadsPrimary (Script.quote text) (.literal text) := by
  intro w r hw _
  rw [quote_append]
  have h := readPrimary_literal (hw.skipSpaces (by decide) _) (readQuoted_escape text.toList r)
  rwa [String.ofList_toList] at h

theorem readsPrimary_present : ReadsPrimary "\x7b\x7d" .present := by
  intro w r hw _
  exact readPrimary_present (hw.skipSpaces (by decide) _) (Program.token_singleton (by decide) r)

/-- An operator as it is written between two types. -/
def Operator.separator : Operator → String
  | .union => " | "
  | .intersection => " & "

theorem Operator.toList_separator (op : Operator) : op.separator.toList = [' ', op.sign, ' '] := by
  cases op <;> rfl

theorem token_sign (op op' : Operator) (s : List Char) :
    token [op'.sign] (' ' :: op.sign :: s) = if op' = op then some s else none := by
  cases op <;> cases op' <;> rfl

/-- A text that can follow types with the operator between them: it begins with no operator that binds as
tightly, and it does not go on with a word. -/
structure Ends (op : Operator) (r : List Char) : Prop where
  word : Stops TypeExpr.isIdentifierPart r
  sign : ∀ op' : Operator, op'.rank ≤ op.rank → token [op'.sign] r = none

theorem readOperand_append (op : Operator) {text : String} {type : TypeTerm} (h : ReadsPrimary text type)
    {w r : List Char} (hw : IsSpaces w) (hr : Stops TypeExpr.isIdentifierPart r)
    (hsign : ∀ op' : Operator, op'.rank < op.rank → token [op'.sign] r = none) :
    readOperand op (w ++ (text.toList ++ r)) = some (type, r) := by
  have hprimary := h hw hr
  rw [← readOperand_intersection] at hprimary
  cases op with
  | union =>
      rw [readOperand_union]
      exact readOperands_single .intersection hprimary (hsign .intersection (by decide))
  | intersection => exact hprimary

/-- Types with an operator between each two of them. Of no types, which no text stands for, it is an
arbitrary one. -/
def joined (op : Operator) : List TypeTerm → TypeTerm
  | [] => .present
  | [type] => type
  | type :: types => .combined op type (joined op types)

theorem joined_cons (op : Operator) (type : TypeTerm) {types : List TypeTerm} (h : types ≠ []) :
    joined op (type :: types) = .combined op type (joined op types) := by
  cases types with
  | nil => exact absurd rfl h
  | cons => rfl

theorem readOperands_intercalate (op : Operator) {texts : List String} {types : List TypeTerm}
    (h : List.Forall₂ ReadsPrimary texts types) (hne : texts ≠ []) {r : List Char} (hr : Ends op r) :
    ∀ {w : List Char}, IsSpaces w →
      readOperands op (w ++ ((op.separator.intercalate texts).toList ++ r)) = some (joined op types, r) := by
  induction h with
  | nil => exact absurd rfl hne
  | @cons text type texts types hhead htail ih =>
      intro w hw
      by_cases hnil : texts = []
      · subst hnil
        cases htail
        rw [String.intercalate_singleton]
        exact readOperands_single op (readOperand_append op hhead hw hr.word fun op' h => hr.sign op' h.le)
          (hr.sign op le_rfl)
      · have htypes : types ≠ [] := by
          rintro rfl
          cases htail
          exact hnil rfl
        have htext : (op.separator.intercalate (text :: texts)).toList ++ r =
            text.toList ++ ' ' :: op.sign :: ([' '] ++ ((op.separator.intercalate texts).toList ++ r)) := by
          rw [String.intercalate_cons_of_ne_nil hnil]
          simp [Operator.toList_separator]
        rw [htext, joined_cons op type htypes]
        -- The operator behind the first operand binds no tighter than itself, so that the operand ends there.
        refine readOperands_combined op (readOperand_append op hhead hw (stops_cons.mpr rfl) ?_)
          ((token_sign op op _).trans (if_pos rfl)) ?_ (ih hnil isSpaces_space)
        · intro op' hlt
          rw [token_sign, if_neg]
          rintro rfl
          exact absurd hlt (lt_irrefl _)
        · simp only [List.length_append, List.length_cons]
          omega

/-- The text is read as the type up to where no operator follows. -/
def ReadsType (text : String) (type : TypeTerm) : Prop :=
  ∀ ⦃w r : List Char⦄, IsSpaces w → Ends .union r →
    readOperands .union (w ++ (text.toList ++ r)) = some (type, r)

theorem readsType_intercalate (op : Operator) {texts : List String} {types : List TypeTerm}
    (h : List.Forall₂ ReadsPrimary texts types) (hne : texts ≠ []) :
    ReadsType (op.separator.intercalate texts) (joined op types) := by
  intro w r hw hr
  cases op with
  | union => exact readOperands_intercalate .union h hne hr hw
  | intersection =>
      have hends : Ends .intersection r := ⟨hr.word, fun op' hle => hr.sign op' (hle.trans (by decide))⟩
      refine readOperands_single .union ?_ (hr.sign .union le_rfl)
      rw [readOperand_union]
      exact readOperands_intercalate .intersection h hne hends hw

namespace ReadsType

variable {text : String} {type : TypeTerm}

theorem parens (h : ReadsType text type) : ReadsPrimary ("(" ++ text ++ ")") type := by
  intro w r hw _
  have htext : w ++ (("(" ++ text ++ ")").toList ++ r) = w ++ '(' :: ([] ++ (text.toList ++ ')' :: r)) := by
    simp
  have hends : Ends .union (')' :: r) := ⟨stops_cons.mpr rfl, fun op' _ => by cases op' <;> rfl⟩
  rw [htext]
  exact readPrimary_parens (hw.skipSpaces (by decide) _) (h isSpaces_nil hends)
    (Program.token_singleton (by decide) r)

theorem property (name : String) (h : ReadsType text type) :
    ReadsPrimary ("\x7b " ++ TypeExpr.propertyKey name ++ ": " ++ text ++ " \x7d") (.property name type) := by
  intro w r hw _
  have htext : w ++ (("\x7b " ++ TypeExpr.propertyKey name ++ ": " ++ text ++ " \x7d").toList ++ r) =
      w ++ '\x7b' :: (' ' :: ((TypeExpr.propertyKey name).toList ++
        ':' :: ([' '] ++ (text.toList ++ ' ' :: '\x7d' :: r)))) := by
    simp
  have hends : Ends .union (' ' :: '\x7d' :: r) := ⟨stops_cons.mpr rfl, fun op' _ => by cases op' <;> rfl⟩
  rw [htext]
  refine readPrimary_property (hw.skipSpaces (by decide) _) ?_
    (readKey_propertyKey name (stops_cons.mpr rfl)) (Program.token_singleton (by decide) _) ?_
    (h isSpaces_space hends) ?_
  · exact token_brace_propertyKey name _
  · simp only [List.length_append, List.length_cons]
    omega
  · rw [Program.token_space]
    exact Program.token_singleton (by decide) r

theorem read (h : ReadsType text type) : read text = some type := by
  have hends : Ends .union [] := ⟨stops_nil, fun op' _ => by cases op' <;> rfl⟩
  have hread := h isSpaces_nil hends
  rw [List.nil_append, List.append_nil] at hread
  rw [TypeTerm.read, hread]
  rfl

end ReadsType

theorem ReadsPrimary.readsType {text : String} {type : TypeTerm} (h : ReadsPrimary text type) :
    ReadsType text type := by
  have hread := readsType_intercalate .union (.cons h .nil) (by simp)
  rwa [String.intercalate_singleton] at hread

end TypeTerm

open TypeTerm (Operator ReadsPrimary ReadsType readsPrimary_word readsPrimary_quote readsPrimary_present
  readsType_intercalate)

/-- The type of one argument as a term. -/
def ValueType.term : ValueType → TypeTerm
  | .stringOrNumber => .combined .union .string .number
  | .number => .number
  | .date => .date
  | .string => .string
  | .oneOf keys => .joined .union (keys.map .literal ++ [.combined .intersection .string .present])
  | .exactly key => .literal key

theorem ValueType.readsType (type : ValueType) : ReadsType type.render type.term := by
  have hstring : ReadsPrimary "string" .string := readsPrimary_word rfl rfl
  have hnumber : ReadsPrimary "number" .number := readsPrimary_word rfl rfl
  cases type with
  | stringOrNumber =>
      have hrender : ValueType.stringOrNumber.render =
          Operator.union.separator.intercalate ["string", "number"] := rfl
      rw [hrender]
      exact readsType_intercalate .union (.cons hstring (.cons hnumber .nil)) (by simp)
  | number => exact hnumber.readsType
  | date => exact (readsPrimary_word rfl rfl : ReadsPrimary "Date" .date).readsType
  | string => exact hstring.readsType
  | oneOf keys =>
      have hany := (readsType_intercalate .intersection
        (.cons hstring (.cons readsPrimary_present .nil)) (by simp)).parens
      have hkeys : List.Forall₂ ReadsPrimary (keys.map Script.quote) (keys.map .literal) := by
        rw [List.forall₂_map_left_iff, List.forall₂_map_right_iff, List.forall₂_same]
        intro key _
        exact readsPrimary_quote key
      have hrender : (ValueType.oneOf keys).render = Operator.union.separator.intercalate
          (keys.map Script.quote ++
            ["(" ++ Operator.intersection.separator.intercalate ["string", "\x7b\x7d"] ++ ")"]) := rfl
      rw [hrender]
      exact readsType_intercalate .union (List.rel_append hkeys (.cons hany .nil)) (by simp)
  | exactly key => exact (readsPrimary_quote key).readsType

namespace TypeExpr

mutual

/-- The type as a term. -/
def term : TypeExpr → TypeTerm
  | .anything => .present
  | .property name type => .property name type.term
  | .intersection parts => .joined .intersection (termAll parts)
  | .union members => .joined .union (termAll members)
  | .parens inside => inside.term

/-- The types of a list as terms. -/
def termAll : List TypeExpr → List TypeTerm
  | [] => []
  | t :: ts => t.term :: termAll ts

end

/-- The text of the type is read as its term, whatever operator comes behind it. -/
def Bracketed (t : TypeExpr) : Prop :=
  ReadsPrimary t.render t.term

theorem bracketed_anything : Bracketed .anything := by
  unfold Bracketed
  rw [render, term]
  exact readsPrimary_present

theorem bracketed_property (name : String) (type : ValueType) : Bracketed (.property name type) := by
  unfold Bracketed
  rw [render, term]
  exact type.readsType.property name

section Lists

variable {parts : List TypeExpr}

theorem forall₂_readsPrimary (h : ∀ p ∈ parts, p.Bracketed) :
    List.Forall₂ ReadsPrimary (renderAll parts) (termAll parts) := by
  induction parts with
  | nil => exact .nil
  | cons p parts ih =>
      rw [renderAll, termAll]
      exact .cons (h p (.head _)) (ih fun q hq => h q (.tail _ hq))

theorem renderAll_ne_nil (hne : parts ≠ []) : renderAll parts ≠ [] := by
  cases parts with
  | nil => exact absurd rfl hne
  | cons p parts => simp [renderAll]

theorem readsType_intersection (hne : parts ≠ []) (h : ∀ p ∈ parts, p.Bracketed) :
    ReadsType (render (.intersection parts)) (term (.intersection parts)) := by
  rw [render, term]
  exact readsType_intercalate .intersection (forall₂_readsPrimary h) (renderAll_ne_nil hne)

theorem readsType_union (hne : parts ≠ []) (h : ∀ p ∈ parts, p.Bracketed) :
    ReadsType (render (.union parts)) (term (.union parts)) := by
  rw [render, term]
  exact readsType_intercalate .union (forall₂_readsPrimary h) (renderAll_ne_nil hne)

end Lists

theorem bracketed_parens {t : TypeExpr} (h : ReadsType t.render t.term) : Bracketed (.parens t) := by
  unfold Bracketed
  rw [render, term]
  exact h.parens

theorem bracketed_intersection {parts : List TypeExpr} (hne : parts ≠ []) (h : ∀ p ∈ parts, p.Bracketed) :
    Bracketed (.parens (.intersection parts)) :=
  bracketed_parens (readsType_intersection hne h)

theorem bracketed_union {members : List TypeExpr} (hne : members ≠ []) (h : ∀ p ∈ members, p.Bracketed) :
    Bracketed (.parens (.union members)) :=
  bracketed_parens (readsType_union hne h)

/-! ### Types of messages -/

section Branches

variable {branches : BranchTypes}

theorem bracketed_of_mem_ofBranches (h : ∀ branch ∈ branches, ∀ p ∈ branch.2, p.Bracketed) :
    ∀ p ∈ ofBranches branches, p.Bracketed := by
  unfold ofBranches
  split
  · simp
  · rename_i hsome
    have hne : branches ≠ [] := by
      rintro rfl
      exact hsome rfl
    rw [List.forall_mem_singleton]
    apply bracketed_union (by simpa using hne)
    rw [List.forall_mem_map]
    rintro ⟨key, parts⟩ hbranch
    dsimp only
    by_cases hnil : parts = []
    · rw [if_pos (by simpa using hnil)]
      exact bracketed_anything
    · rw [if_neg (by simpa using hnil)]
      exact bracketed_intersection hnil (h _ hbranch)

theorem bracketed_closedMember (name key : String) {parts : List TypeExpr} (h : ∀ p ∈ parts, p.Bracketed) :
    Bracketed (closedMember name key parts) := by
  have hown := bracketed_property name (.exactly key)
  unfold closedMember
  by_cases hnil : parts = []
  · subst hnil
    exact hown
  · rw [if_neg (by simpa using hnil)]
    apply bracketed_intersection (by simp)
    rw [List.forall_mem_cons, List.forall_mem_singleton]
    exact ⟨hown, bracketed_intersection hnil h⟩

theorem bracketed_ofClosed (name : String) (hne : branches ≠ [])
    (h : ∀ branch ∈ branches, ∀ p ∈ branch.2, p.Bracketed) : Bracketed (ofClosed name branches) := by
  unfold ofClosed
  split
  · exact bracketed_closedMember name _ (h _ (.head _))
  · apply bracketed_union (by simpa using hne)
    rw [List.forall_mem_map]
    intro branch hbranch
    exact bracketed_closedMember name branch.1 (h branch hbranch)

theorem bracketed_of_mem_ofSelect (name : String) (hne : branches ≠ [])
    (h : ∀ branch ∈ branches, ∀ p ∈ branch.2, p.Bracketed) : ∀ p ∈ ofSelect name branches, p.Bracketed := by
  unfold ofSelect
  dsimp only
  split
  · rw [List.forall_mem_cons]
    exact ⟨bracketed_property name _, bracketed_of_mem_ofBranches h⟩
  · rw [List.forall_mem_singleton]
    exact bracketed_ofClosed name hne h

end Branches

theorem ofOptions_ne_nil {options : Options} (hne : options ≠ []) : ofOptions options ≠ [] := by
  cases options with
  | nil => exact absurd rfl hne
  | cons option options => simp [ofOptions]

mutual

theorem bracketed_of_mem_ofElement : ∀ e : Element, e.TextBranched → ∀ p ∈ ofElement e, p.Bracketed
  | .literal _, _ | .pound, _ => by simp [ofElement]
  | .argument name, _ | .number name _, _ | .date name _, _ | .time name _, _ => by
      rw [ofElement, List.forall_mem_singleton]
      exact bracketed_property name _
  | .select name options, h => by
      rw [ofElement]
      exact bracketed_of_mem_ofSelect name (ofOptions_ne_nil h.1) (bracketed_of_mem_ofOptions options h.2)
  | .plural name _ _ options, h => by
      rw [ofElement, List.forall_mem_cons]
      exact ⟨bracketed_property name _, bracketed_of_mem_ofBranches (bracketed_of_mem_ofOptions options h)⟩
  | .tag name children, h => by
      rw [ofElement, List.forall_mem_cons]
      refine ⟨bracketed_property name _, ?_⟩
      by_cases hnil : ofList children = []
      · simp [hnil]
      · rw [if_neg (by simpa using hnil), List.forall_mem_singleton]
        exact bracketed_intersection hnil (bracketed_of_mem_ofList children h)

theorem bracketed_of_mem_ofList : ∀ es : List Element, Element.listTextBranched es → ∀ p ∈ ofList es, p.Bracketed
  | [], _ => by simp [ofList]
  | e :: es, h => by
      rw [ofList, List.forall_mem_append]
      exact ⟨bracketed_of_mem_ofElement e h.1, bracketed_of_mem_ofList es h.2⟩

theorem bracketed_of_mem_ofOptions : ∀ options : Options, Element.optionsTextBranched options →
    ∀ branch ∈ ofOptions options, ∀ p ∈ branch.2, p.Bracketed
  | [], _ => by simp [ofOptions]
  | (_, branch) :: options, h => by
      rw [ofOptions, List.forall_mem_cons]
      exact ⟨bracketed_of_mem_ofList branch h.1, bracketed_of_mem_ofOptions options h.2⟩

end

/-- The text of the type of a message is read as its term. -/
theorem read_render_of_textBranched {es : List Element} (h : Element.listTextBranched es) :
    TypeTerm.read (ofElements es).render = some (ofElements es).term := by
  have hparts := bracketed_of_mem_ofList es h
  unfold ofElements
  split
  · exact bracketed_anything.readsType.read
  · rename_i hne
    exact (readsType_intersection hne hparts).read

theorem read_render_ofElements {es : List Element} (h : Element.listBranched es) :
    TypeTerm.read (ofElements es).render = some (ofElements es).term :=
  read_render_of_textBranched (Element.listTextBranched_of_listBranched es h)

end TypeExpr
end MessageFormat
