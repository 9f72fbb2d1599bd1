import MessageFormat.Proofs.Script.Containment
import MessageFormat.Proofs.Script.Evaluation
import MessageFormat.Proofs.Script.Parameters

/-! How the text of a message is split into literals does not matter. A message keeps its function, the type of
its arguments and its arguments when empty literals are left out and neighbouring literals become one, between
tags and in branches as well. What is written for a text does not depend on what stands beside it, so that it can
be written in parts. -/

namespace MessageFormat

namespace Element

/-- Puts an element in front of a message, as one literal with the literal that the message begins with if both
are literals. An empty literal is left out. -/
def consMerged : Element → List Element → List Element
  | .literal text, es => Pattern.consLiteral text es
  | e, es => e :: es

mutual

/-- An element with the literals inside it merged. -/
def merged : Element → Element
  | .select name options => .select name (mergedOptions options)
  | .plural name kind offset options => .plural name kind offset (mergedOptions options)
  | .tag name children => .tag name (mergedList children)
  | e => e

/-- A message in which, at every level, empty literals are left out and neighbouring literals are one. -/
def mergedList : List Element → List Element
  | [] => []
  | e :: es => consMerged (merged e) (mergedList es)

/-- The branches of a selection with their literals merged. -/
def mergedOptions : List (String × List Element) → List (String × List Element)
  | [] => []
  | (key, branch) :: options => (key, mergedList branch) :: mergedOptions options

end

mutual

/-- No list inside the element has an empty literal or two literals that are neighbours. -/
def Unsplit : Element → Prop
  | .select _ options | .plural _ _ _ options => optionsUnsplit options
  | .tag _ children => listUnsplit children
  | _ => True

/-- At no level of the message there is an empty literal, or two literals that are neighbours. -/
def listUnsplit : List Element → Prop
  | [] => True
  | e :: es => e.Unsplit ∧ e ≠ .literal "" ∧ (e.isLiteral → ∀ next ∈ es.head?, ¬ next.isLiteral) ∧ listUnsplit es

/-- In no branch there is an empty literal, or two literals that are neighbours. -/
def optionsUnsplit : List (String × List Element) → Prop
  | [] => True
  | (_, branch) :: options => listUnsplit branch ∧ optionsUnsplit options

end

/-- A text in front of a message is joined to the literal there, is empty and left out, or is a literal of its
own. -/
theorem consLiteral_cases (text : String) (es : List Element) :
    (∃ next rest, es = .literal next :: rest ∧ Pattern.consLiteral text es = .literal (text ++ next) :: rest) ∨
      text = "" ∧ Pattern.consLiteral text es = es ∨ Pattern.consLiteral text es = .literal text :: es := by
  unfold Pattern.consLiteral
  split
  · exact Or.inl ⟨_, _, rfl, rfl⟩
  · split
    · exact Or.inr (Or.inl ⟨‹_›, rfl⟩)
    · exact Or.inr (Or.inr rfl)

theorem listUnsplit_consLiteral (text : String) {es : List Element} (h : listUnsplit es) :
    listUnsplit (Pattern.consLiteral text es) := by
  unfold Pattern.consLiteral
  split
  · rename_i next es
    obtain ⟨-, hne, hnext, hes⟩ := h
    refine ⟨trivial, ?_, fun _ => hnext rfl, hes⟩
    simp at hne ⊢
    exact fun _ => hne
  · rename_i hliteral
    split
    · exact h
    · rename_i hne
      refine ⟨trivial, by simpa using hne, ?_, h⟩
      intro _ next hnext
      obtain ⟨rest, rfl⟩ := List.head?_eq_some_iff.mp hnext
      cases next with
      | literal next => exact absurd rfl (hliteral next rest)
      | _ => exact Bool.false_ne_true

theorem listUnsplit_consMerged {e : Element} (he : e.Unsplit) {es : List Element} (hes : listUnsplit es) :
    listUnsplit (consMerged e es) := by
  cases e with
  | literal text => exact listUnsplit_consLiteral text hes
  | _ => exact ⟨he, Element.noConfusion, fun h => absurd h Bool.false_ne_true, hes⟩

mutual

theorem unsplit_merged : ∀ e : Element, e.merged.Unsplit
  | .literal _ | .argument _ | .number _ _ | .date _ _ | .time _ _ | .pound => trivial
  | .select _ options => unsplit_mergedOptions options
  | .plural _ _ _ options => unsplit_mergedOptions options
  | .tag _ children => unsplit_mergedList children

theorem unsplit_mergedList : ∀ es : List Element, listUnsplit (mergedList es)
  | [] => trivial
  | e :: es => listUnsplit_consMerged (unsplit_merged e) (unsplit_mergedList es)

theorem unsplit_mergedOptions : ∀ options : List (String × List Element), optionsUnsplit (mergedOptions options)
  | [] => trivial
  | (_, branch) :: options => ⟨unsplit_mergedList branch, unsplit_mergedOptions options⟩

end

theorem listMentions_consMerged (e : Element) (es : List Element) :
    listMentions (consMerged e es) = mentions e ++ listMentions es := by
  cases e with
  | literal text =>
      rw [consMerged]
      rcases consLiteral_cases text es with ⟨next, rest, rfl, hcons⟩ | ⟨-, hcons⟩ | hcons
      all_goals
        rw [hcons]
        rfl
  | _ => rfl

mutual

theorem mentions_merged : ∀ e : Element, e.merged.mentions = e.mentions
  | .literal _ | .argument _ | .number _ _ | .date _ _ | .time _ _ | .pound => rfl
  | .select _ options => by rw [merged, mentions, mentions, optionMentions_mergedOptions options]
  | .plural _ _ _ options => by rw [merged, mentions, mentions, optionMentions_mergedOptions options]
  | .tag _ children => by rw [merged, mentions, mentions, listMentions_mergedList children]

theorem listMentions_mergedList : ∀ es : List Element, listMentions (mergedList es) = listMentions es
  | [] => rfl
  | e :: es => by
      rw [mergedList, listMentions_consMerged, listMentions, mentions_merged e, listMentions_mergedList es]

theorem optionMentions_mergedOptions : ∀ options : List (String × List Element),
    optionMentions (mergedOptions options) = optionMentions options
  | [] => rfl
  | (_, branch) :: options => by
      rw [mergedOptions, optionMentions, optionMentions, listMentions_mergedList branch,
        optionMentions_mergedOptions options]

end

end Element

namespace TypeExpr

open Element (consMerged consLiteral_cases merged mergedList mergedOptions)

theorem ofList_consMerged (e : Element) (es : List Element) :
    ofList (consMerged e es) = ofElement e ++ ofList es := by
  cases e with
  | literal text =>
      rw [consMerged]
      rcases consLiteral_cases text es with ⟨next, rest, rfl, hcons⟩ | ⟨-, hcons⟩ | hcons
      all_goals
        rw [hcons]
        rfl
  | _ => rfl

mutual

theorem ofElement_merged : ∀ e : Element, ofElement e.merged = ofElement e
  | .literal _ | .argument _ | .number _ _ | .date _ _ | .time _ _ | .pound => rfl
  | .select _ options => by rw [merged, ofElement, ofElement, ofOptions_mergedOptions options]
  | .plural _ _ _ options => by rw [merged, ofElement, ofElement, ofOptions_mergedOptions options]
  | .tag _ children => by rw [merged, ofElement, ofElement, ofList_mergedList children]

theorem ofList_mergedList : ∀ es : List Element, ofList (mergedList es) = ofList es
  | [] => rfl
  | e :: es => by
      rw [mergedList, ofList_consMerged, ofList, ofElement_merged e, ofList_mergedList es]

theorem ofOptions_mergedOptions : ∀ options : Options, ofOptions (mergedOptions options) = ofOptions options
  | [] => rfl
  | (_, branch) :: options => by
      rw [mergedOptions, ofOptions, ofOptions, ofList_mergedList branch, ofOptions_mergedOptions options]

end

end TypeExpr

namespace Script

open Element (consMerged consLiteral_cases merged mergedList mergedOptions)

/-- The two templates are written alike for every locale. -/
def SameText (ps ps' : List Piece) : Prop :=
  ∀ locale, piecesSource locale ps = piecesSource locale ps'

namespace SameText

variable {ps ps' qs qs' : List Piece}

theorem refl (ps : List Piece) : SameText ps ps :=
  fun _ => rfl

theorem trans (h : SameText ps qs) (h' : SameText qs qs') : SameText ps qs' :=
  fun locale => (h locale).trans (h' locale)

theorem append (h : SameText ps ps') (h' : SameText qs qs') : SameText (ps ++ qs) (ps' ++ qs') := by
  intro locale
  rw [piecesSource_append, piecesSource_append, h locale, h' locale]

theorem tagPieces (name : String) (h : SameText ps ps') :
    SameText (Script.tagPieces name ps) (Script.tagPieces name ps') :=
  ((refl _).append h).append (refl _)

end SameText

/-- Two arms with one test and with templates that are written alike. -/
def ArmSameText (arm arm' : Test × List Piece) : Prop :=
  arm.1 = arm'.1 ∧ SameText arm.2 arm'.2

theorem armsSource_eq {arms arms' : List (Test × List Piece)} (h : List.Forall₂ ArmSameText arms arms')
    (locale : String) : armsSource locale arms = armsSource locale arms' := by
  induction h with
  | nil => rfl
  | @cons arm arm' _ _ harm _ ih =>
      obtain ⟨htest, hbody⟩ := harm
      rw [armsSource, armsSource, htest, hbody locale, ih]

theorem SameText.choice {arms arms' : List (Test × List Piece)} {fallback fallback' : Option (List Piece)}
    (harms : List.Forall₂ ArmSameText arms arms') (hfallback : Option.Rel SameText fallback fallback') :
    SameText [.choice arms fallback] [.choice arms' fallback'] := by
  intro locale
  rw [piecesSource_singleton, piecesSource_singleton]
  cases hfallback with
  | none => rw [pieceSource, pieceSource, armsSource_eq harms]
  | some hbody => rw [pieceSource, pieceSource, armsSource_eq harms, hbody locale]

/-- Two branches with one key and with templates that are written alike. -/
def BranchSameText (branch branch' : String × List Piece) : Prop :=
  branch.1 = branch'.1 ∧ SameText branch.2 branch'.2

section Branches

variable {branches branches' : Branches} (h : List.Forall₂ BranchSameText branches branches')

include h

theorem lookup_sameText (key : String) : Option.Rel SameText (branches.lookup key) (branches'.lookup key) := by
  induction h with
  | nil => exact .none
  | @cons branch branch' _ _ hbranch _ ih =>
      obtain ⟨first, body⟩ := branch
      obtain ⟨_, body'⟩ := branch'
      obtain ⟨rfl, hbody⟩ := hbranch
      rw [List.lookup_cons, List.lookup_cons]
      dsimp only
      split
      · exact .some hbody
      · exact ih

/-- Arms that are made of the keys have the same tests in the same order. -/
theorem groupArms_sameText (test? : String → Option Test) :
    List.Forall₂ ArmSameText (groupArms test? branches) (groupArms test? branches') := by
  refine List.rel_filterMap ?_ h
  rintro ⟨key, body⟩ ⟨_, body'⟩ ⟨rfl, hbody⟩
  dsimp only
  cases test? key with
  | none => exact .none
  | some test => exact .some ⟨rfl, hbody⟩

theorem selectPiece_sameText (name : String) :
    SameText [selectPiece name branches] [selectPiece name branches'] := by
  rw [selectPiece_eq, selectPiece_eq]
  exact .choice (groupArms_sameText h _) (lookup_sameText h otherKey)

theorem pluralPiece_sameText (kind : PluralKind) (subject : Subject) :
    SameText [pluralPiece kind subject branches] [pluralPiece kind subject branches'] := by
  rw [pluralPiece, pluralPiece, exactArms_eq, exactArms_eq, categoryArms_eq, categoryArms_eq]
  exact .choice (List.rel_append (groupArms_sameText h _) (groupArms_sameText h _)) (lookup_sameText h otherKey)

end Branches

/-! ### Whole messages -/

theorem rel_bind {α β : Type} {R : α → α → Prop} {S : β → β → Prop} {x x' : Option α} {f f' : α → Option β}
    (h : Option.Rel R x x') (hnext : ∀ a a', R a a' → Option.Rel S (f a) (f' a')) :
    Option.Rel S (x >>= f) (x' >>= f') := by
  cases h with
  | none => exact .none
  | some ha => exact hnext _ _ ha

theorem compileList_literal (pound : Option Subject) (text : String) (es : List Element) :
    compileList pound (.literal text :: es) = (compileList pound es).map (.text text :: ·) := by
  rw [compileList]
  cases compileList pound es <;> rfl

/-- Text is written the same in one part and in two. -/
theorem sameText_texts (text next : String) (ps : List Piece) :
    SameText (.text text :: .text next :: ps) (.text (text ++ next) :: ps) := by
  intro locale
  simp only [piecesSource, pieceSource, escapeTemplate_append, String.append_assoc]

theorem sameText_empty (ps : List Piece) : SameText (.text "" :: ps) ps :=
  fun _ => String.empty_append

theorem rel_refl (x : Option (List Piece)) : Option.Rel SameText x x := by
  cases x with
  | none => exact .none
  | some ps => exact .some (.refl ps)

theorem rel_trans {x y z : Option (List Piece)} (hxy : Option.Rel SameText x y) (hyz : Option.Rel SameText y z) :
    Option.Rel SameText x z := by
  cases hxy with
  | none => exact hyz
  | some hps =>
      cases hyz with
      | some hqs => exact .some (hps.trans hqs)

theorem compileList_consMerged (pound : Option Subject) (e : Element) (es : List Element) :
    Option.Rel SameText (compileList pound (e :: es)) (compileList pound (consMerged e es)) := by
  cases e with
  | literal text =>
      rw [consMerged]
      rcases consLiteral_cases text es with ⟨next, rest, rfl, hcons⟩ | ⟨rfl, hcons⟩ | hcons
      · rw [hcons, compileList_literal, compileList_literal, compileList_literal]
        cases compileList pound rest with
        | none => exact .none
        | some ps => exact .some (sameText_texts text next ps)
      · rw [hcons, compileList_literal]
        cases compileList pound es with
        | none => exact .none
        | some ps => exact .some (sameText_empty ps)
      · rw [hcons]
        exact rel_refl _
  | _ => exact rel_refl _

mutual

theorem compileElement_merged (pound : Option Subject) :
    ∀ e : Element, Option.Rel SameText (compileElement pound e) (compileElement pound e.merged)
  | .literal _ | .argument _ | .number _ _ | .date _ _ | .time _ _ | .pound => rel_refl _
  | .select name options => by
      rw [merged, compileElement, compileElement]
      apply rel_bind (compileOptions_mergedOptions pound options)
      exact fun _ _ hbranches => .some (selectPiece_sameText hbranches name)
  | .plural name kind offset options => by
      rw [merged, compileElement, compileElement]
      apply rel_bind (compileOptions_mergedOptions (some ⟨name, offset⟩) options)
      exact fun _ _ hbranches => .some (pluralPiece_sameText hbranches kind ⟨name, offset⟩)
  | .tag name children => by
      rw [merged, compileElement, compileElement]
      apply rel_bind (compileList_mergedList pound children)
      exact fun _ _ hinside => .some (hinside.tagPieces name)

theorem compileList_mergedList (pound : Option Subject) :
    ∀ es : List Element, Option.Rel SameText (compileList pound es) (compileList pound (mergedList es))
  | [] => .some (.refl [])
  | e :: es => by
      rw [mergedList]
      refine rel_trans ?_ (compileList_consMerged pound e.merged (mergedList es))
      rw [compileList, compileList]
      apply rel_bind (compileElement_merged pound e)
      intro _ _ hfirst
      apply rel_bind (compileList_mergedList pound es)
      exact fun _ _ hrest => .some (hfirst.append hrest)

theorem compileOptions_mergedOptions (pound : Option Subject) :
    ∀ options : Options, Option.Rel (List.Forall₂ BranchSameText) (compileOptions pound options)
      (compileOptions pound (mergedOptions options))
  | [] => .some .nil
  | (key, branch) :: options => by
      rw [mergedOptions, compileOptions, compileOptions]
      apply rel_bind (compileList_mergedList pound branch)
      intro _ _ hbody
      apply rel_bind (compileOptions_mergedOptions pound options)
      exact fun _ _ hrest => .some (.cons ⟨rfl, hbody⟩ hrest)

end

end Script

namespace Message

theorem compileElements_mergedList (es : List Element) (locale : String) :
    compileElements (Element.mergedList es) locale = compileElements es locale := by
  have hbody := Script.compileList_mergedList none es
  simp only [compileElements_eq, Script.ofElements?, Element.names_eq_eraseDups, Element.listMentions_mergedList]
  generalize Script.compileList none es = body? at hbody
  generalize Script.compileList none (Element.mergedList es) = body?' at hbody
  cases hbody with
  | none => rfl
  | some h =>
      simp only [Option.map_some, Script.source_eq_signature_append, h locale]

/-- Merging the literals of a message leaves no literal empty or beside another one, at any level, and changes
neither the function of the message, nor the type of its arguments, nor its arguments. A message of literals
alone has a function without parameters, and between the backticks of that function stands what is written for
the list of literals wherever the list stands. -/
theorem merging_literals_changes_nothing :
    (∀ es : List Element,
      Element.listUnsplit (Element.mergedList es) ∧
      (∀ locale, compileElements (Element.mergedList es) locale = compileElements es locale) ∧
      typeOfElements (Element.mergedList es) = typeOfElements es ∧
      Element.names (Element.mergedList es) = Element.names es) ∧
    ∀ (texts : List String) (locale : String) (pound : Option Script.Subject), ∃ inside,
      compileElements (texts.map .literal) locale = .ok ("()=>" ++ Script.template inside) ∧
      inside = Script.escapeTemplate (String.join texts) ∧
      (Script.compileList pound (texts.map .literal)).map (Script.piecesSource locale) = some inside := by
  refine ⟨fun es => ⟨Element.unsplit_mergedList es, compileElements_mergedList es, ?_, ?_⟩,
    fun texts locale pound => ⟨_, compileElements_literals texts locale, rfl, ?_⟩⟩
  · rw [typeOfElements, typeOfElements, TypeExpr.ofElements, TypeExpr.ofElements, TypeExpr.ofList_mergedList]
  · rw [Element.names_eq_eraseDups, Element.names_eq_eraseDups, Element.listMentions_mergedList]
  · rw [Script.compileList_literals, Option.map_some, Script.piecesSource_texts]

end Message
end MessageFormat
