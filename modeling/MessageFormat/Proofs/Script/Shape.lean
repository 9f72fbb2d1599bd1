import MessageFormat.Message
import MessageFormat.Proofs.Mentions

/-! The shape of the function of a message. A message of literals alone has a function of a form of its own, and
whether it is one is seen from its elements without a look inside them. That function is the one that any message
gets, in the form for no parameters: a message without parameters that has a function at all is one of literals,
because a pound sign needs a plural around it. -/

namespace MessageFormat

namespace Script

/-- The source text of a function for a locale. A function without parameters is written in the shorter
form. -/
def source (locale : String) (script : Script) : String :=
  let body := template (piecesSource locale script.body)
  match script.parameters with
  | [] => "()=>" ++ body
  | names => "(\x7b" ++ ",".intercalate names ++ "\x7d) => " ++ body

/-- The parameters of a function and its arrow. -/
def signature : List String → String
  | [] => "()=>"
  | names => "(\x7b" ++ ",".intercalate names ++ "\x7d) => "

theorem signature_of_ne_nil {names : List String} (h : names ≠ []) :
    signature names = "(\x7b" ++ ",".intercalate names ++ "\x7d) => " := by
  cases names with
  | nil => exact absurd rfl h
  | cons name names => rfl

theorem source_eq_signature_append (locale : String) (script : Script) :
    script.source locale = signature script.parameters ++ template (piecesSource locale script.body) := by
  unfold source
  cases script.parameters <;> rfl

theorem source_eq_functionSource {script : Script} (h : script.parameters ≠ []) (locale : String) :
    script.source locale = script.functionSource locale := by
  rw [source_eq_signature_append, signature_of_ne_nil h, functionSource]

end Script

section Literals

variable (texts : List String)

theorem Element.listMentions_literals : Element.listMentions (texts.map .literal) = [] := by
  induction texts with
  | nil => rfl
  | cons text texts ih => exact ih

theorem Element.filterMap_literalText?_literals : (texts.map .literal).filterMap Element.literalText? = texts := by
  rw [List.filterMap_map]
  exact List.filterMap_some

theorem Script.compileList_literals (pound : Option Subject) :
    compileList pound (texts.map .literal) = some (texts.map .text) := by
  induction texts with
  | nil => rfl
  | cons text texts ih =>
      rw [List.map_cons, compileList, ih]
      rfl

theorem Script.piecesSource_texts (locale : String) :
    piecesSource locale (texts.map .text) = escapeTemplate (String.join texts) := by
  induction texts with
  | nil => rfl
  | cons text texts ih =>
      rw [List.map_cons, piecesSource, pieceSource, ih, String.join_cons, escapeTemplate_append]

theorem Script.ofElements?_literals : ofElements? (texts.map .literal) = some ⟨[], texts.map .text⟩ := by
  rw [ofElements?, compileList_literals, Element.names_eq_eraseDups, Element.listMentions_literals]
  rfl

end Literals

theorem Element.all_isLiteral_iff {es : List Element} :
    es.all isLiteral = true ↔ ∃ texts : List String, es = texts.map .literal := by
  constructor
  · intro h
    induction es with
    | nil => exact ⟨[], rfl⟩
    | cons e es ih =>
        rw [List.all_cons, Bool.and_eq_true] at h
        obtain ⟨texts, rfl⟩ := ih h.2
        cases e with
        | literal text => exact ⟨text :: texts, rfl⟩
        | _ => cases h.1
  · rintro ⟨texts, rfl⟩
    rw [List.all_map]
    exact List.all_eq_true.mpr fun _ _ => rfl

/-- What is compiled and mentions nothing is text. -/
theorem Script.all_isLiteral_of_compileList {es : List Element} {body : List Piece}
    (hbody : compileList none es = some body) (hmentions : Element.listMentions es = []) :
    es.all Element.isLiteral = true := by
  induction es generalizing body with
  | nil => rfl
  | cons e es ih =>
      rw [Element.listMentions, List.append_eq_nil_iff] at hmentions
      rw [compileList] at hbody
      obtain ⟨pieces, he, hbody⟩ := Option.bind_eq_some_iff.mp hbody
      obtain ⟨rest, hes, -⟩ := Option.bind_eq_some_iff.mp hbody
      rw [List.all_cons, ih hes hmentions.2, Bool.and_true]
      cases e with
      | literal text => rfl
      | pound => cases he
      | _ => cases hmentions.1

theorem Script.parameters_ne_nil {es : List Element} {script : Script} (hscript : ofElements? es = some script)
    (hes : es.all Element.isLiteral = false) : script.parameters ≠ [] := by
  obtain ⟨body, hbody, rfl⟩ := Option.map_eq_some_iff.mp hscript
  intro hnames
  rw [all_isLiteral_of_compileList hbody (Element.names_eq_nil_iff_listMentions.mp hnames)] at hes
  cases hes

namespace Message

theorem compileElements_literals (texts : List String) (locale : String) :
    compileElements (texts.map .literal) locale =
      .ok ("()=>" ++ Script.template (Script.escapeTemplate (String.join texts))) := by
  rw [compileElements, if_pos (Element.all_isLiteral_iff.mpr ⟨texts, rfl⟩),
    Element.filterMap_literalText?_literals]
  rfl

/-- The form that a message of literals has of its own is the form that the general way gives it. -/
theorem compileElements_eq (es : List Element) (locale : String) :
    compileElements es locale =
      match Script.ofElements? es with
      | none => .error .strayPound
      | some script => .ok (script.source locale) := by
  cases hes : es.all Element.isLiteral with
  | true =>
      obtain ⟨texts, rfl⟩ := Element.all_isLiteral_iff.mp hes
      rw [compileElements_literals, Script.ofElements?_literals]
      simp only [Script.source, Script.piecesSource_texts]
  | false =>
      rw [compileElements, if_neg (by simp [hes])]
      cases hscript : Script.ofElements? es with
      | none => rfl
      | some script =>
          simp only [Script.source_eq_functionSource (Script.parameters_ne_nil hscript hes)]

end Message
end MessageFormat
