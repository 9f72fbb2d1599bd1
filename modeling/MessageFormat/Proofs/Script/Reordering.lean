import MessageFormat.Proofs.Script.Evaluation
import MessageFormat.Proofs.Script.Parameters
import MessageFormat.Proofs.Script.PoundScope

/-! The order of the branches of a selection. The compiler looks at the branches in groups: the exact keys of a
plural, the keys that are names, and the branch for all other keys. Where each group keeps its order, the groups
may be mixed in any way, at every level of the message, and the template stays the same; only the order of the
arguments can change. In the template the groups stand one behind the other. -/

namespace MessageFormat.Script

/-- The branches that the compiler keeps together. -/
inductive KeyGroup where
  /-- The exact keys of a plural. -/
  | exact
  /-- The categories of a plural, and the texts of a selection by text. -/
  | named
  /-- The key of the branch taken when no other one is. -/
  | other
  deriving DecidableEq, Repr

/-- The group of a key of a plural, or of a selection by text, which has no exact keys. -/
def keyGroup (plural : Bool) (key : String) : KeyGroup :=
  if plural ∧ (exactText? key).isSome then .exact else if key = otherKey then .other else .named

theorem keyGroup_otherKey (plural : Bool) : keyGroup plural otherKey = .other := by
  cases plural <;> decide

/-- The branches of one group, in their order. -/
def ofGroup {α : Type} (plural : Bool) (group : KeyGroup) (branches : List (String × α)) : List (String × α) :=
  branches.filter fun branch => keyGroup plural branch.1 = group

/-- The branches stand in another order that is the same within each group. -/
def SameGroups {α : Type} (plural : Bool) (branches branches' : List (String × α)) : Prop :=
  ∀ group, ofGroup plural group branches = ofGroup plural group branches'

section Groups

variable {α : Type} {plural : Bool} {branches branches' : List (String × α)}

theorem perm_ofGroup (plural : Bool) (branches : List (String × α)) :
    branches.Perm (ofGroup plural .exact branches ++ ofGroup plural .named branches ++
      ofGroup plural .other branches) := by
  induction branches with
  | nil => exact .refl _
  | cons branch branches ih =>
      simp only [ofGroup, List.append_assoc] at ih ⊢
      rcases hgroup : keyGroup plural branch.1 with _ | _ | _
      · simpa [hgroup] using ih
      · simpa [hgroup] using (ih.cons branch).trans List.perm_middle.symm
      · have hend := (ih.cons branch).trans List.perm_middle.symm
        simpa [hgroup] using hend.trans (List.perm_middle.symm.append_left _)

theorem SameGroups.perm (h : SameGroups plural branches branches') : branches.Perm branches' := by
  refine (perm_ofGroup plural branches).trans ?_
  rw [h .exact, h .named, h .other]
  exact (perm_ofGroup plural branches').symm

theorem lookup_ofGroup_other (plural : Bool) (branches : List (String × α)) :
    (ofGroup plural .other branches).lookup otherKey = branches.lookup otherKey := by
  induction branches with
  | nil => rfl
  | cons branch branches ih =>
      obtain ⟨key, body⟩ := branch
      by_cases hkey : key = otherKey
      · subst hkey
        rw [ofGroup, List.filter_cons_of_pos (by simp [keyGroup_otherKey]), List.lookup_cons_self,
          List.lookup_cons_self]
      · have hne : (otherKey == key) = false := by simpa using Ne.symm hkey
        rw [List.lookup_cons, hne, ← ih, ofGroup, List.filter_cons]
        split
        · rw [List.lookup_cons, hne]
          rfl
        · rfl

theorem SameGroups.lookup_eq (h : SameGroups plural branches branches') :
    branches.lookup otherKey = branches'.lookup otherKey := by
  rw [← lookup_ofGroup_other plural, h, lookup_ofGroup_other]

end Groups

/-- A test that keys of one group only have does not see the other groups. -/
theorem groupArms_ofGroup {plural : Bool} {group : KeyGroup} {f : String → Option Test}
    (hf : ∀ key, keyGroup plural key ≠ group → f key = none) (branches : Branches) :
    groupArms f (ofGroup plural group branches) = groupArms f branches := by
  rw [groupArms, groupArms, ofGroup, List.filterMap_filter]
  congr 1
  funext branch
  by_cases hgroup : keyGroup plural branch.1 = group
  · simp [hgroup]
  · simp [hgroup, hf _ hgroup]

section Pieces

variable {plural : Bool} {branches branches' : Branches}

theorem SameGroups.groupArms_eq {group : KeyGroup} (h : SameGroups plural branches branches')
    {f : String → Option Test} (hf : ∀ key, keyGroup plural key ≠ group → f key = none) :
    groupArms f branches = groupArms f branches' := by
  rw [← groupArms_ofGroup hf, h, groupArms_ofGroup hf]

theorem selectTest_eq_none (name key : String) (h : keyGroup false key ≠ .named) :
    selectTest name key = none := by
  have hkey : key = otherKey := by simpa [keyGroup] using h
  exact if_pos hkey

theorem exactTest_eq_none (name key : String) (h : keyGroup true key ≠ .exact) :
    exactTest name key = none := by
  have hkey : exactText? key = none := by
    by_contra hsome
    exact h (if_pos ⟨rfl, Option.isSome_iff_ne_none.mpr hsome⟩)
  rw [exactTest, hkey, Option.map_none]

theorem categoryTest_eq_none (kind : PluralKind) (subject : Subject) (key : String)
    (h : keyGroup true key ≠ .named) : categoryTest kind subject key = none := by
  apply if_pos
  by_contra hkey
  obtain ⟨hother, hexact⟩ := not_or.mp hkey
  exact h (by simp [keyGroup, hother, hexact])

theorem SameGroups.selectPiece_eq (h : SameGroups false branches branches') (name : String) :
    selectPiece name branches = selectPiece name branches' := by
  rw [Script.selectPiece_eq, Script.selectPiece_eq, h.groupArms_eq (selectTest_eq_none name), h.lookup_eq]

theorem SameGroups.pluralPiece_eq (h : SameGroups true branches branches') (kind : PluralKind)
    (subject : Subject) : pluralPiece kind subject branches = pluralPiece kind subject branches' := by
  rw [pluralPiece, pluralPiece, exactArms_eq, exactArms_eq, categoryArms_eq, categoryArms_eq,
    h.groupArms_eq (exactTest_eq_none subject.name), h.groupArms_eq (categoryTest_eq_none kind subject),
    h.lookup_eq]

end Pieces

section Options

variable {plural : Bool} {pound : Option Subject} {options options' : Options}

/-- Compiling goes branch by branch, so that it can be done group by group. -/
theorem compileOptions_ofGroup (group : KeyGroup) {branches : Branches}
    (h : compileOptions pound options = some branches) :
    compileOptions pound (ofGroup plural group options) = some (ofGroup plural group branches) := by
  induction options generalizing branches with
  | nil =>
      cases h
      rfl
  | cons option options ih =>
      obtain ⟨key, branch⟩ := option
      obtain ⟨body, hbody, h⟩ := Option.bind_eq_some_iff.mp h
      obtain ⟨rest, hrest, h⟩ := Option.bind_eq_some_iff.mp h
      cases h
      have ih := ih hrest
      rw [ofGroup] at ih
      rw [ofGroup, ofGroup, List.filter_cons, List.filter_cons]
      split
      · rw [compileOptions, hbody, ih]
        rfl
      · exact ih

theorem SameGroups.compileOptions_rel (h : SameGroups plural options options') (pound : Option Subject) :
    Option.Rel (SameGroups plural) (compileOptions pound options) (compileOptions pound options') := by
  have hnone : compileOptions pound options = none ↔ compileOptions pound options' = none := by
    simp only [compileOptions_eq_none_iff, h.perm.mem_iff]
  cases hbranches : compileOptions pound options with
  | none =>
      rw [hnone.mp hbranches]
      exact .none
  | some branches =>
      cases hbranches' : compileOptions pound options' with
      | none => cases hbranches.symm.trans (hnone.mpr hbranches')
      | some branches' =>
          refine .some fun group => Option.some.inj ?_
          calc some (ofGroup plural group branches)
              = compileOptions pound (ofGroup plural group options) := (compileOptions_ofGroup group hbranches).symm
            _ = compileOptions pound (ofGroup plural group options') := by rw [h]
            _ = some (ofGroup plural group branches') := compileOptions_ofGroup group hbranches'

theorem mem_optionMentions {name : String} :
    name ∈ Element.optionMentions options ↔ ∃ option ∈ options, name ∈ Element.listMentions option.2 := by
  induction options with
  | nil => simp [Element.optionMentions]
  | cons option options ih => simp [Element.optionMentions, ih]

theorem SameGroups.mem_optionMentions_iff (h : SameGroups plural options options') (name : String) :
    name ∈ Element.optionMentions options ↔ name ∈ Element.optionMentions options' := by
  simp only [mem_optionMentions, h.perm.mem_iff]

end Options

mutual

/-- The elements differ only in the order of branches, and not in their order within a group. -/
inductive Reordered : Element → Element → Prop
  | refl (e : Element) : Reordered e e
  | select (name : String) {options middle options' : Options} (inside : ReorderedBranches options middle)
      (order : SameGroups false middle options') : Reordered (.select name options) (.select name options')
  | plural (name : String) (kind : PluralKind) (offset : Int64) {options middle options' : Options}
      (inside : ReorderedBranches options middle) (order : SameGroups true middle options') :
      Reordered (.plural name kind offset options) (.plural name kind offset options')
  | tag (name : String) {children children' : List Element} (inside : ReorderedList children children') :
      Reordered (.tag name children) (.tag name children')

/-- The messages differ only in the order of branches, and not in their order within a group. -/
inductive ReorderedList : List Element → List Element → Prop
  | nil : ReorderedList [] []
  | cons {e e' : Element} {es es' : List Element} (head : Reordered e e') (tail : ReorderedList es es') :
      ReorderedList (e :: es) (e' :: es')

/-- The branches stand in one order and differ only in the order of branches inside them. -/
inductive ReorderedBranches : Options → Options → Prop
  | nil : ReorderedBranches [] []
  | cons (key : String) {branch branch' : List Element} {options options' : Options}
      (body : ReorderedList branch branch') (tail : ReorderedBranches options options') :
      ReorderedBranches ((key, branch) :: options) ((key, branch') :: options')

end

theorem bind_eq_of_rel {α β : Type} {R : α → α → Prop} {x y : Option α} {f : α → Option β}
    (h : Option.Rel R x y) (hf : ∀ a b, R a b → f a = f b) : x >>= f = y >>= f := by
  cases h with
  | none => rfl
  | some hab => exact hf _ _ hab

mutual

theorem Reordered.compileElement_eq (pound : Option Subject) {e e' : Element} :
    Reordered e e' → compileElement pound e = compileElement pound e'
  | .refl _ => rfl
  | .select name inside order => by
      rw [compileElement, compileElement, inside.compileOptions_eq pound]
      refine bind_eq_of_rel (order.compileOptions_rel pound) fun branches branches' hbranches => ?_
      rw [hbranches.selectPiece_eq]
  | .plural name kind offset inside order => by
      rw [compileElement, compileElement, inside.compileOptions_eq (some ⟨name, offset⟩)]
      refine bind_eq_of_rel (order.compileOptions_rel _) fun branches branches' hbranches => ?_
      rw [hbranches.pluralPiece_eq]
  | .tag name inside => by
      rw [compileElement, compileElement, inside.compileList_eq pound]

theorem ReorderedList.compileList_eq (pound : Option Subject) {es es' : List Element} :
    ReorderedList es es' → compileList pound es = compileList pound es'
  | .nil => rfl
  | .cons head tail => by
      rw [compileList, compileList, head.compileElement_eq pound, tail.compileList_eq pound]

theorem ReorderedBranches.compileOptions_eq (pound : Option Subject) {options options' : Options} :
    ReorderedBranches options options' → compileOptions pound options = compileOptions pound options'
  | .nil => rfl
  | .cons key body tail => by
      rw [compileOptions, compileOptions, body.compileList_eq pound, tail.compileOptions_eq pound]

end

mutual

theorem Reordered.mem_mentions_iff (name : String) {e e' : Element} :
    Reordered e e' → (name ∈ e.mentions ↔ name ∈ e'.mentions)
  | .refl _ => Iff.rfl
  | .select _ inside order | .plural _ _ _ inside order => by
      rw [Element.mentions, Element.mentions, List.mem_cons, List.mem_cons, inside.mem_optionMentions_iff name,
        order.mem_optionMentions_iff name]
  | .tag _ inside => by
      rw [Element.mentions, Element.mentions, List.mem_cons, List.mem_cons, inside.mem_listMentions_iff name]

theorem ReorderedList.mem_listMentions_iff (name : String) {es es' : List Element} :
    ReorderedList es es' → (name ∈ Element.listMentions es ↔ name ∈ Element.listMentions es')
  | .nil => Iff.rfl
  | .cons head tail => by
      rw [Element.listMentions, Element.listMentions, List.mem_append, List.mem_append,
        head.mem_mentions_iff name, tail.mem_listMentions_iff name]

theorem ReorderedBranches.mem_optionMentions_iff (name : String) {options options' : Options} :
    ReorderedBranches options options' →
      (name ∈ Element.optionMentions options ↔ name ∈ Element.optionMentions options')
  | .nil => Iff.rfl
  | .cons _ body tail => by
      rw [Element.optionMentions, Element.optionMentions, List.mem_append, List.mem_append,
        body.mem_listMentions_iff name, tail.mem_optionMentions_iff name]

end

theorem ReorderedList.names_perm {es es' : List Element} (h : ReorderedList es es') :
    (Element.names es).Perm (Element.names es') := by
  refine (List.perm_ext_iff_of_nodup (Element.nodup_names es) (Element.nodup_names es')).mpr fun name => ?_
  rw [Element.mem_names, Element.mem_names, h.mem_listMentions_iff name]

/-! ### The order of tests -/

/-- The piece stands in the template, or in an arm or the fallback of a choice there. -/
inductive Occurs (p : Piece) : List Piece → Prop
  | here {ps : List Piece} (mem : p ∈ ps) : Occurs p ps
  | arm {ps body : List Piece} {arms : List (Test × List Piece)} {fallback : Option (List Piece)} {test : Test}
      (mem : .choice arms fallback ∈ ps) (arm : (test, body) ∈ arms) (inside : Occurs p body) : Occurs p ps
  | fallback {ps body : List Piece} {arms : List (Test × List Piece)} (mem : .choice arms (some body) ∈ ps)
      (inside : Occurs p body) : Occurs p ps

/-- What is written behind the arms of a choice. -/
def fallbackSource (locale : String) : Option (List Piece) → String
  | none => "\"\""
  | some body => template (piecesSource locale body)

theorem pieceSource_choice (locale : String) (arms : List (Test × List Piece)) (fallback : Option (List Piece)) :
    pieceSource locale (.choice arms fallback) =
      placeholder (armsSource locale arms ++ fallbackSource locale fallback) := by
  cases fallback <;> rw [pieceSource, fallbackSource]

/-- The text holds another one in one stretch. -/
def Holds (text part : String) : Prop :=
  ∃ front back, text = front ++ part ++ back

namespace Holds

variable {text part : String}

theorem refl (text : String) : Holds text text :=
  ⟨"", "", by simp⟩

theorem behind (front : String) (h : Holds text part) : Holds (front ++ text) part := by
  obtain ⟨before, after, rfl⟩ := h
  exact ⟨front ++ before, after, by simp only [String.append_assoc]⟩

theorem before (back : String) (h : Holds text part) : Holds (text ++ back) part := by
  obtain ⟨before, after, rfl⟩ := h
  exact ⟨before, after ++ back, by simp only [String.append_assoc]⟩

theorem template (h : Holds text part) : Holds (template text) part :=
  (h.behind _).before _

theorem placeholder (h : Holds text part) : Holds (placeholder text) part :=
  (h.behind _).before _

end Holds

theorem holds_of_mem {locale part : String} {p : Piece} {ps : List Piece} (hp : p ∈ ps)
    (h : Holds (pieceSource locale p) part) : Holds (piecesSource locale ps) part := by
  induction ps with
  | nil => exact absurd hp List.not_mem_nil
  | cons q ps ih =>
      rw [piecesSource]
      rcases List.mem_cons.mp hp with rfl | hp
      · exact h.before _
      · exact (ih hp).behind _

theorem holds_of_mem_arms {locale part : String} {test : Test} {body : List Piece}
    {arms : List (Test × List Piece)} (harm : (test, body) ∈ arms) (h : Holds (piecesSource locale body) part) :
    Holds (armsSource locale arms) part := by
  induction arms with
  | nil => exact absurd harm List.not_mem_nil
  | cons arm arms ih =>
      rw [armsSource]
      rcases List.mem_cons.mp harm with rfl | harm
      · exact ((h.template.behind _).before _).before _
      · exact (ih harm).behind _

/-- What occurs in a template is written there. -/
theorem Occurs.holds {p : Piece} {ps : List Piece} (h : Occurs p ps) (locale : String) :
    Holds (piecesSource locale ps) (pieceSource locale p) := by
  induction h with
  | here mem => exact holds_of_mem mem (.refl _)
  | arm mem arm inside ih =>
      refine holds_of_mem mem ?_
      rw [pieceSource_choice]
      exact ((holds_of_mem_arms arm ih).before _).placeholder
  | fallback mem inside ih =>
      refine holds_of_mem mem ?_
      rw [pieceSource_choice]
      exact (ih.template.behind _).placeholder

theorem occurs_append {p : Piece} {ps qs : List Piece} (h : Occurs p (ps ++ qs)) : Occurs p ps ∨ Occurs p qs := by
  cases h with
  | here mem => exact (List.mem_append.mp mem).imp .here .here
  | arm mem arm inside => exact (List.mem_append.mp mem).imp (.arm · arm inside) (.arm · arm inside)
  | fallback mem inside => exact (List.mem_append.mp mem).imp (.fallback · inside) (.fallback · inside)

/-- The arms can be those of a selection. The tests have the order of its keys, but in a plural all tests of exact keys
come before all tests of categories. -/
inductive ArmsOf : Element → List (Test × List Piece) → Prop
  | select {name : String} {options : Options} {arms : List (Test × List Piece)}
      (tests : arms.map Prod.fst = (options.map Prod.fst).filterMap (selectTest name)) :
      ArmsOf (.select name options) arms
  | plural {name : String} {kind : PluralKind} {offset : Int64} {options : Options}
      {exact categories : List (Test × List Piece)}
      (exactTests : exact.map Prod.fst = (options.map Prod.fst).filterMap (exactTest name))
      (categoryTests : categories.map Prod.fst =
        (options.map Prod.fst).filterMap (categoryTest kind ⟨name, offset⟩)) :
      ArmsOf (.plural name kind offset options) (exact ++ categories)

section Selections

variable {pound : Option Subject} {options : Options} {branches : Branches}

theorem map_fst_groupArms (f : String → Option Test) (branches : Branches) :
    (groupArms f branches).map Prod.fst = (branches.map Prod.fst).filterMap f := by
  rw [groupArms, List.map_filterMap, List.filterMap_map]
  congr 1
  funext branch
  simp [Function.comp_def]

theorem map_fst_of_compileOptions (h : compileOptions pound options = some branches) :
    branches.map Prod.fst = options.map Prod.fst := by
  induction options generalizing branches with
  | nil =>
      cases h
      rfl
  | cons option options ih =>
      obtain ⟨key, branch⟩ := option
      obtain ⟨body, -, h⟩ := Option.bind_eq_some_iff.mp h
      obtain ⟨rest, hrest, h⟩ := Option.bind_eq_some_iff.mp h
      cases h
      rw [List.map_cons, List.map_cons, ih hrest]

theorem armsOf_select (name : String) (h : compileOptions pound options = some branches) :
    ArmsOf (.select name options) (groupArms (selectTest name) branches) := by
  refine .select ?_
  rw [map_fst_groupArms, map_fst_of_compileOptions h]

theorem armsOf_plural (name : String) (kind : PluralKind) (offset : Int64)
    (h : compileOptions pound options = some branches) :
    ArmsOf (.plural name kind offset options)
      (groupArms (exactTest name) branches ++ groupArms (categoryTest kind ⟨name, offset⟩) branches) := by
  refine .plural ?_ ?_
  all_goals rw [map_fst_groupArms, map_fst_of_compileOptions h]

theorem mem_of_mem_groupArms {f : String → Option Test} {arm : Test × List Piece}
    (h : arm ∈ groupArms f branches) : ∃ branch ∈ branches, branch.2 = arm.2 := by
  obtain ⟨branch, hbranch, harm⟩ := List.mem_filterMap.mp h
  obtain ⟨_, -, heq⟩ := Option.map_eq_some_iff.mp harm
  exact ⟨branch, hbranch, congrArg Prod.snd heq⟩

/-- A choice that occurs in the choice among branches has its arms, or occurs in one of the branches. -/
theorem occurs_choice {arms arms' : List (Test × List Piece)} {fallback : Option (List Piece)}
    (harms : ∀ arm ∈ arms, ∃ branch ∈ branches, branch.2 = arm.2)
    (h : Occurs (.choice arms' fallback) [.choice arms (branches.lookup otherKey)]) :
    arms' = arms ∨ ∃ branch ∈ branches, Occurs (.choice arms' fallback) branch.2 := by
  cases h with
  | here mem => exact Or.inl (Piece.choice.inj (List.mem_singleton.mp mem)).1
  | arm mem arm inside =>
      cases List.mem_singleton.mp mem
      obtain ⟨branch, hbranch, rfl⟩ := harms _ arm
      exact Or.inr ⟨branch, hbranch, inside⟩
  | fallback mem inside =>
      obtain ⟨-, hlookup⟩ := Piece.choice.inj (List.mem_singleton.mp mem)
      exact Or.inr ⟨_, mem_of_lookup hlookup.symm, inside⟩

end Selections

section Compiled

variable {arms : List (Test × List Piece)} {fallback : Option (List Piece)}

/-- A piece that is no choice has no choice in it. -/
theorem not_occurs_choice {ps : List Piece} (h : ∀ arms fallback, .choice arms fallback ∉ ps) :
    ¬ Occurs (.choice arms fallback) ps := by
  intro hoccurs
  cases hoccurs with
  | here mem | arm mem _ _ | fallback mem _ => exact h _ _ mem

mutual

/-- Every choice in the pieces of an element was written for a selection there. -/
theorem exists_selection_of_compileElement : ∀ {e : Element} {pound : Option Subject} {pieces : List Piece},
    compileElement pound e = some pieces → Occurs (.choice arms fallback) pieces →
      ∃ selection ∈ e :: e.descendants, ArmsOf selection arms
  | .literal _, _, _, h, hoccurs | .argument _, _, _, h, hoccurs | .number _ _, _, _, h, hoccurs
  | .date _ _, _, _, h, hoccurs | .time _ _, _, _, h, hoccurs => by
      cases h
      exact absurd hoccurs (not_occurs_choice (by simp))
  | .pound, _, _, h, hoccurs => by
      obtain ⟨subject, -, h⟩ := Option.bind_eq_some_iff.mp h
      cases h
      exact absurd hoccurs (not_occurs_choice (by simp))
  | .select name options, _, _, h, hoccurs => by
      obtain ⟨branches, hbranches, h⟩ := Option.bind_eq_some_iff.mp h
      cases h
      rw [selectPiece_eq] at hoccurs
      rcases occurs_choice (fun _ => mem_of_mem_groupArms) hoccurs with rfl | ⟨branch, hbranch, hinside⟩
      · exact ⟨_, .head _, armsOf_select name hbranches⟩
      · obtain ⟨selection, hmem, harms⟩ := exists_selection_of_compileOptions hbranches branch hbranch hinside
        exact ⟨selection, .tail _ hmem, harms⟩
  | .plural name kind offset options, _, _, h, hoccurs => by
      obtain ⟨branches, hbranches, h⟩ := Option.bind_eq_some_iff.mp h
      cases h
      rw [pluralPiece, exactArms_eq, categoryArms_eq] at hoccurs
      rcases occurs_choice (List.forall_mem_append.mpr ⟨fun _ => mem_of_mem_groupArms, fun _ => mem_of_mem_groupArms⟩)
        hoccurs with rfl | ⟨branch, hbranch, hinside⟩
      · exact ⟨_, .head _, armsOf_plural name kind offset hbranches⟩
      · obtain ⟨selection, hmem, harms⟩ := exists_selection_of_compileOptions hbranches branch hbranch hinside
        exact ⟨selection, .tail _ hmem, harms⟩
  | .tag name children, _, _, h, hoccurs => by
      obtain ⟨inside, hinside, h⟩ := Option.bind_eq_some_iff.mp h
      cases h
      rcases occurs_append hoccurs with hoccurs | hoccurs
      · rcases occurs_append hoccurs with hoccurs | hoccurs
        · exact absurd hoccurs (not_occurs_choice (by simp))
        · obtain ⟨selection, hmem, harms⟩ := exists_selection_of_compileList hinside hoccurs
          exact ⟨selection, .tail _ hmem, harms⟩
      · exact absurd hoccurs (not_occurs_choice (by simp))

theorem exists_selection_of_compileList : ∀ {es : List Element} {pound : Option Subject} {pieces : List Piece},
    compileList pound es = some pieces → Occurs (.choice arms fallback) pieces →
      ∃ selection ∈ Element.listDescendants es, ArmsOf selection arms
  | [], _, _, h, hoccurs => by
      cases h
      exact absurd hoccurs (not_occurs_choice (by simp))
  | e :: es, _, _, h, hoccurs => by
      obtain ⟨first, hfirst, h⟩ := Option.bind_eq_some_iff.mp h
      obtain ⟨rest, hrest, h⟩ := Option.bind_eq_some_iff.mp h
      cases h
      rcases occurs_append hoccurs with hoccurs | hoccurs
      · obtain ⟨selection, hmem, harms⟩ := exists_selection_of_compileElement hfirst hoccurs
        exact ⟨selection, List.mem_append_left (Element.listDescendants es) hmem, harms⟩
      · obtain ⟨selection, hmem, harms⟩ := exists_selection_of_compileList hrest hoccurs
        exact ⟨selection, List.mem_append_right (e :: e.descendants) hmem, harms⟩

theorem exists_selection_of_compileOptions : ∀ {options : Options} {pound : Option Subject} {branches : Branches},
    compileOptions pound options = some branches → ∀ branch ∈ branches, Occurs (.choice arms fallback) branch.2 →
      ∃ selection ∈ Element.optionDescendants options, ArmsOf selection arms
  | [], _, _, h, _, hbranch, _ => by
      cases h
      exact absurd hbranch List.not_mem_nil
  | (key, branch) :: options, _, _, h, _, hbranch, hoccurs => by
      obtain ⟨body, hbody, h⟩ := Option.bind_eq_some_iff.mp h
      obtain ⟨rest, hrest, h⟩ := Option.bind_eq_some_iff.mp h
      cases h
      rcases List.mem_cons.mp hbranch with rfl | hbranch
      · obtain ⟨selection, hmem, harms⟩ := exists_selection_of_compileList hbody hoccurs
        exact ⟨selection, List.mem_append_left _ hmem, harms⟩
      · obtain ⟨selection, hmem, harms⟩ := exists_selection_of_compileOptions hrest _ hbranch hoccurs
        exact ⟨selection, List.mem_append_right _ hmem, harms⟩

end

end Compiled

end MessageFormat.Script

namespace MessageFormat.Message

open Script (ReorderedList)

theorem compileElements_reordered {es es' : List Element} (h : ReorderedList es es') (locale : String) :
    (compileElements es locale = .error .strayPound ∧ compileElements es' locale = .error .strayPound) ∨
      ∃ body,
        compileElements es locale = .ok (Script.signature (Element.names es) ++ Script.template body) ∧
        compileElements es' locale = .ok (Script.signature (Element.names es') ++ Script.template body) := by
  simp only [compileElements_eq, Script.ofElements?]
  rw [h.compileList_eq none]
  cases Script.compileList none es' with
  | none => exact Or.inl ⟨rfl, rfl⟩
  | some body =>
      refine Or.inr ⟨Script.piecesSource locale body, ?_, ?_⟩
      · simp only [Option.map_some, Script.source_eq_signature_append]
      · simp only [Option.map_some, Script.source_eq_signature_append]

/-- Two messages that differ only in the order of branches, and not in their order within a group, both have no
function, or their functions have one template behind parameters that are the same up to their order. In the
function of a message every choice is written for a selection of the message, and if that is a plural then the
tests of its exact keys stand first, those of its categories behind them, and the fallback last. -/
theorem branch_order_matters_within_groups_only :
    (∀ es es' : List Element, ReorderedList es es' →
      (Element.names es).Perm (Element.names es') ∧
      ∀ locale,
        (compileElements es locale = .error .strayPound ∧ compileElements es' locale = .error .strayPound) ∨
        ∃ body,
          compileElements es locale = .ok (Script.signature (Element.names es) ++ Script.template body) ∧
          compileElements es' locale = .ok (Script.signature (Element.names es') ++ Script.template body)) ∧
    ∀ (es : List Element) (locale source : String), compileElements es locale = .ok source →
      ∃ body, Script.ofElements? es = some ⟨Element.names es, body⟩ ∧
        ∀ arms fallback, Script.Occurs (.choice arms fallback) body →
          Script.Holds source
            (Script.placeholder (Script.armsSource locale arms ++ Script.fallbackSource locale fallback)) ∧
          ∃ selection ∈ Element.listDescendants es, Script.ArmsOf selection arms := by
  refine ⟨fun es es' h => ⟨h.names_perm, compileElements_reordered h⟩, fun es locale source h => ?_⟩
  obtain ⟨body, hscript, rfl⟩ := exists_body_of_compileElements h
  refine ⟨body, hscript, fun arms fallback hoccurs => ⟨?_, ?_⟩⟩
  · rw [← Script.pieceSource_choice]
    exact (hoccurs.holds locale).template.behind _
  · obtain ⟨_, hbody, heq⟩ := Option.map_eq_some_iff.mp hscript
    cases heq
    exact Script.exists_selection_of_compileList hbody hoccurs

/-- Branches of all groups in a mixed order, inside a tag and inside each other. -/
def mixedBranches : List Element :=
  [.tag "b" [.plural "n" .cardinal 1
    [("other", [.argument "x", .pound]),
      ("one", [.select "g" [("other", []), ("f", [.argument "y"]), ("m", [.pound])]]),
      ("=1", [.literal "a"]), ("few", []), ("=0", [])]]]

/-- The same branches in the order in which they are tested. -/
def groupedBranches : List Element :=
  [.tag "b" [.plural "n" .cardinal 1
    [("=1", [.literal "a"]), ("=0", []),
      ("one", [.select "g" [("f", [.argument "y"]), ("m", [.pound]), ("other", [])]]),
      ("few", []), ("other", [.argument "x", .pound])]]]

theorem reordered_mixedBranches : ReorderedList mixedBranches groupedBranches := by
  have hselect : Script.Reordered
      (.select "g" [("other", []), ("f", [.argument "y"]), ("m", [.pound])])
      (.select "g" [("f", [.argument "y"]), ("m", [.pound]), ("other", [])]) := by
    refine .select "g" (.cons _ .nil (.cons _ (.cons (.refl _) .nil) (.cons _ (.cons (.refl _) .nil) .nil))) ?_
    intro group
    cases group <;> rfl
  have hplural : Script.ReorderedBranches
      [("other", [.argument "x", .pound]),
        ("one", [.select "g" [("other", []), ("f", [.argument "y"]), ("m", [.pound])]]),
        ("=1", [.literal "a"]), ("few", []), ("=0", [])]
      [("other", [.argument "x", .pound]),
        ("one", [.select "g" [("f", [.argument "y"]), ("m", [.pound]), ("other", [])]]),
        ("=1", [.literal "a"]), ("few", []), ("=0", [])] :=
    .cons _ (.cons (.refl _) (.cons (.refl _) .nil)) (.cons _ (.cons hselect .nil)
      (.cons _ (.cons (.refl _) .nil) (.cons _ .nil (.cons _ .nil .nil))))
  refine .cons (.tag "b" (.cons (.plural "n" .cardinal 1 hplural ?_) .nil)) .nil
  intro group
  cases group <;> rfl

theorem branch_order_matters_within_groups_only_mixed :
    Element.names mixedBranches = ["b", "n", "x", "g", "y"] ∧
    Element.names groupedBranches = ["b", "n", "g", "y", "x"] ∧
    (Element.names mixedBranches).Perm (Element.names groupedBranches) ∧
    ∃ body,
      compileElements mixedBranches "en" =
        .ok (Script.signature (Element.names mixedBranches) ++ Script.template body) ∧
      compileElements groupedBranches "en" =
        .ok (Script.signature (Element.names groupedBranches) ++ Script.template body) := by
  obtain ⟨hperm, hcompile⟩ := branch_order_matters_within_groups_only.1 _ _ reordered_mixedBranches
  refine ⟨by decide, by decide, hperm, (hcompile "en").resolve_left ?_⟩
  rintro ⟨herror, -⟩
  cases herror

end MessageFormat.Message
