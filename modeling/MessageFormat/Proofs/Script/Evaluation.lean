import MessageFormat.Proofs.Script.Compilable
import Mathlib.Data.List.Forall2

/-! What the pieces of a compiled message give when they are evaluated. The texts of the branches of a
selection are known when the choice among them is evaluated: the arms of a choice give the text of the first
branch whose test holds, and the branch for all other keys, which has no arm, is the one behind all arms. -/

namespace MessageFormat.Script

open Pattern (IsKey)
open Program (Expr Part Environment Reference Call evalExpr evalParts binding facility)

section Templates

variable {host : Host} {env : Environment host}

theorem evalParts_append (ps qs : List Part) : evalParts host env (ps ++ qs) =
    (evalParts host env ps).bind fun s => (evalParts host env qs).map fun t => s ++ t := by
  induction ps with
  | nil => simp [evalParts]
  | cons p ps ih =>
      cases p with
      | char c =>
          simp only [List.cons_append, evalParts, ih]
          cases evalParts host env ps <;> cases evalParts host env qs <;> simp [String.append_assoc]
      | hole e =>
          simp only [List.cons_append, evalParts, ih]
          cases evalExpr host env e <;> cases evalParts host env ps <;> cases evalParts host env qs <;>
            simp [String.append_assoc]

variable {locale : String}

/-- Pieces give a text. -/
def Renders (env : Environment host) (locale : String) (pieces : List Piece) (text : String) : Prop :=
  evalParts host env (piecesParts locale pieces) = some text

theorem piecesParts_append (ps qs : List Piece) :
    piecesParts locale (ps ++ qs) = piecesParts locale ps ++ piecesParts locale qs := by
  induction ps with
  | nil => rfl
  | cons p ps ih => rw [List.cons_append, piecesParts, piecesParts, ih, List.append_assoc]

theorem Renders.append {ps qs : List Piece} {s t : String} (hps : Renders env locale ps s)
    (hqs : Renders env locale qs t) : Renders env locale (ps ++ qs) (s ++ t) := by
  rw [Renders, piecesParts_append, evalParts_append, hps, hqs]
  rfl

theorem renders_text (s : String) : Renders env locale [.text s] s := by
  have hchars : ∀ cs : List Char, evalParts host env (cs.map .char) = some (.ofList cs) := by
    intro cs
    induction cs with
    | nil => rfl
    | cons c cs ih => simp [evalParts, ih]
  rw [Renders, piecesParts, pieceParts, piecesParts, List.append_nil, hchars, String.ofList_toList]

theorem renders_hole {p : Piece} {e : Expr} {v : Value host.Object} (hp : pieceParts locale p = [.hole e])
    (he : evalExpr host env e = some v) : Renders env locale [p] (host.toText v) := by
  rw [Renders, piecesParts, piecesParts, hp]
  simp [evalParts, he]

/-- A test holds or not. -/
def Decides (env : Environment host) (locale : String) (test : Test) (b : Bool) : Prop :=
  ∃ v w, (test.left locale).eval host env = some v ∧ test.right.eval host env = some w ∧
    (if test.strict then host.identical v w else host.equal v w) = b

theorem evalExpr_arm {test : Test} {body : List Piece} {arms : List (Test × List Piece)} {fallback : Expr}
    {b : Bool} {s t : String} (htest : Decides env locale test b) (hbody : Renders env locale body s)
    (harms : evalExpr host env (armsExpr locale fallback arms) = some (.text t)) :
    evalExpr host env (armsExpr locale fallback ((test, body) :: arms)) =
      some (.text (if b then s else t)) := by
  obtain ⟨v, w, hv, hw, hb⟩ := htest
  have hyes : evalExpr host env (.template (piecesParts locale body)) = some (.text s) := by
    rw [evalExpr, hbody]
    rfl
  rw [armsExpr, evalExpr, hv, hw, hyes, harms]
  simp only [bind, Option.bind, hb]
  cases b <;> rfl

/-- The arms of the branches that have a test. -/
def groupArms (f : String → Option Test) (branches : Branches) : List (Test × List Piece) :=
  branches.filterMap fun branch => (f branch.1).map fun test => (test, branch.2)

/-- A branch and its text, under one key. -/
def RendersBranch (env : Environment host) (locale : String) (branch : String × List Piece)
    (text : String × String) : Prop :=
  branch.1 = text.1 ∧ Renders env locale branch.2 text.2

/-- The arms of a group give the text of the first branch of the group whose key is of the class that the
tests decide, or else the text of what follows them. -/
theorem evalExpr_groupArms {f : String → Option Test} {p : String → Bool} {fallback : Expr} {rest : String}
    {branches : Branches} {texts : Meaning.Branches}
    (hrest : evalExpr host env fallback = some (.text rest))
    (hbranches : List.Forall₂ (RendersBranch env locale) branches texts)
    (hnone : ∀ key ∈ texts.map Prod.fst, f key = none → p key = false)
    (hsome : ∀ key ∈ texts.map Prod.fst, ∀ test, f key = some test → Decides env locale test (p key)) :
    evalExpr host env (armsExpr locale fallback (groupArms f branches)) =
      some (.text ((Meaning.branch? p texts).getD rest)) := by
  induction hbranches with
  | nil => exact hrest
  | @cons branch text branches texts hbranch _ ih =>
      obtain ⟨key, body⟩ := branch
      obtain ⟨_, s⟩ := text
      obtain ⟨rfl, hbody⟩ := hbranch
      simp only [List.map_cons, List.forall_mem_cons] at hnone hsome
      have ih := ih hnone.2 hsome.2
      rw [Meaning.branch?_cons]
      cases htest : f key with
      | none =>
          rw [groupArms, List.filterMap_cons_none (by simp [htest]), hnone.1 htest]
          exact ih
      | some test =>
          have harm := evalExpr_arm (hsome.1 test htest) hbody ih
          rw [groupArms, List.filterMap_cons_some (b := (test, body)) (by simp [htest])]
          rw [groupArms] at harm
          rw [harm]
          split <;> rfl

theorem armsExpr_append (fallback : Expr) (arms arms' : List (Test × List Piece)) :
    armsExpr locale fallback (arms ++ arms') = armsExpr locale (armsExpr locale fallback arms') arms := by
  induction arms with
  | nil => rfl
  | cons arm arms ih => rw [List.cons_append, armsExpr, armsExpr, ih]

/-- The expression behind the arms of a choice. -/
def fallbackExpr (locale : String) : Option (List Piece) → Expr
  | none => .atom (.constant (.text ""))
  | some body => .template (piecesParts locale body)

theorem renders_choice {arms : List (Test × List Piece)} {fallback : Option (List Piece)} {text : String}
    (h : evalExpr host env (armsExpr locale (fallbackExpr locale fallback) arms) = some (.text text)) :
    Renders env locale [.choice arms fallback] text := by
  refine renders_hole ?_ h
  cases fallback <;> rfl

theorem evalExpr_fallbackExpr {branches : Branches} {texts : Meaning.Branches}
    (hbranches : List.Forall₂ (RendersBranch env locale) branches texts) :
    evalExpr host env (fallbackExpr locale (branches.lookup otherKey)) =
      some (.text (Meaning.otherBranch texts)) := by
  induction hbranches with
  | nil => rfl
  | @cons branch text branches texts hbranch _ ih =>
      obtain ⟨key, body⟩ := branch
      obtain ⟨_, s⟩ := text
      obtain ⟨rfl, hbody⟩ := hbranch
      rw [Meaning.otherBranch, Meaning.branch?_cons, List.lookup_cons]
      by_cases hkey : key = otherKey
      · subst hkey
        simp only [beq_self_eq_true, decide_true, if_true, Option.getD_some]
        rw [fallbackExpr, evalExpr, hbody]
        rfl
      · have hbeq : (otherKey == key) = false := beq_false_of_ne (Ne.symm hkey)
        rw [hbeq, if_neg (by simpa using hkey)]
        exact ih

end Templates

section Atoms

variable {host : Host} {locale : String} {parameters : List String} {record : String → Value host.Object}

theorem binding_of_mem {x : String} (hx : x ∈ parameters) :
    binding host parameters record x = some (record x) :=
  if_pos hx

/-- The value of a subject. -/
def Subject.value (record : String → Value host.Object) (subject : Subject) : Value host.Object :=
  Meaning.lessOffset host (record subject.name) subject.offset

theorem eval_reference {subject : Subject} (h : subject.name ∈ parameters) :
    subject.reference.eval host (binding host parameters record) = some (subject.value record) := by
  unfold Subject.reference Subject.value Meaning.lessOffset
  split
  · exact binding_of_mem h
  · rw [Reference.eval, binding_of_mem h]
    rfl

theorem eval_call (hfacility : facility ∉ parameters) {subject : Subject} (h : subject.name ∈ parameters)
    (constructor method : String) (setting : Option (String × Program.Constant)) :
    (Call.mk constructor locale setting method subject.reference).eval host (binding host parameters record) =
      some (host.intl constructor locale setting method (subject.value record)) := by
  have hnone : (binding host parameters record facility).isSome = false := by
    simp [binding, hfacility]
  rw [Call.eval, hnone, eval_reference h]
  rfl

theorem renders_value {x : String} (hx : x ∈ parameters) :
    Renders (binding host parameters record) locale [.value x] (host.toText (record x)) :=
  renders_hole rfl (by rw [evalExpr]; exact binding_of_mem hx)

theorem renders_tagPieces {x text : String} {inside : List Piece} (hx : x ∈ parameters)
    (hinside : Renders (binding host parameters record) locale inside text) :
    Renders (binding host parameters record) locale (tagPieces x inside)
      ("<" ++ host.toText (record x) ++ ">" ++ text ++ "</" ++ host.toText (record x) ++ ">") := by
  have hend : ∀ bracket, Renders (binding host parameters record) locale
      [.text bracket, .value x, .text ">"] (bracket ++ host.toText (record x) ++ ">") :=
    fun bracket => ((renders_text bracket).append (renders_value hx)).append (renders_text ">")
  have htag := ((hend "<").append hinside).append (hend "</")
  simpa [tagPieces, String.append_assoc] using htag

theorem renders_formatted (hfacility : facility ∉ parameters) (f : Formatter) (subject : Subject)
    (h : subject.name ∈ parameters) :
    Renders (binding host parameters record) locale [.formatted f subject]
      (Meaning.formatted host locale f.facility f.setting (subject.value record)) :=
  renders_hole rfl (by rw [evalExpr]; exact eval_call hfacility h f.facility "format" f.setting)

theorem decides_identical {x : String} (hx : x ∈ parameters) (key : String) :
    Decides (binding host parameters record) locale (.identical x key)
      (host.identical (record x) (.text key)) :=
  ⟨_, _, binding_of_mem hx, rfl, rfl⟩

theorem decides_equal {x : String} (hx : x ∈ parameters) (n : Int64) :
    Decides (binding host parameters record) locale (.equal x (.integer n))
      (host.equal (record x) (.integer n.toInt)) :=
  ⟨_, _, binding_of_mem hx, rfl, rfl⟩

theorem decides_category (hfacility : facility ∉ parameters) {subject : Subject}
    (h : subject.name ∈ parameters) (kind : PluralKind) (key : String) :
    Decides (binding host parameters record) locale (.category kind subject key)
      (host.identical (Meaning.category host locale kind (subject.value record)) (.text key)) :=
  ⟨_, _, eval_call hfacility h _ _ _, rfl, rfl⟩

end Atoms

/-! ### Selections -/

/-- The test for a key of a selection by text. -/
def selectTest (name key : String) : Option Test :=
  if key = otherKey then none else some (.identical name key)

/-- The test for an exact key of a plural. -/
def exactTest (name key : String) : Option Test :=
  (exactText? key).map fun text => .equal name (.ofText text)

/-- The test for a category of a plural. -/
def categoryTest (kind : PluralKind) (subject : Subject) (key : String) : Option Test :=
  if key = otherKey ∨ (exactText? key).isSome then none else some (.category kind subject key)

theorem selectPiece_eq (name : String) (branches : Branches) : selectPiece name branches =
    .choice (groupArms (selectTest name) branches) (branches.lookup otherKey) := by
  unfold selectPiece groupArms selectTest
  congr 2
  funext ⟨key, body⟩
  dsimp only
  split <;> rfl

theorem exactArms_eq (name : String) (branches : Branches) :
    exactArms name branches = groupArms (exactTest name) branches := by
  unfold exactArms groupArms exactTest
  congr 1
  funext ⟨key, body⟩
  rw [Option.map_map]
  rfl

theorem categoryArms_eq (kind : PluralKind) (subject : Subject) (branches : Branches) :
    categoryArms kind subject branches = groupArms (categoryTest kind subject) branches := by
  unfold categoryArms groupArms categoryTest
  congr 1
  funext ⟨key, body⟩
  dsimp only
  split <;> rfl

section Selections

variable {host : Host} {locale : String} {parameters : List String} {record : String → Value host.Object}
  {branches : Branches} {texts : Meaning.Branches}

theorem identical_text_iff {v : Value host.Object} {key : String} :
    host.identical v (.text key) = true ↔ v = .text key := by
  cases v <;> simp [Host.identical]

/-- The branch for all other keys may be left out of the branches that are tested, because it is the one
taken in the end. -/
theorem branch?_skip_other {q : String → Bool} (hunique : ∀ key, q key → q otherKey → key = otherKey) :
    (Meaning.branch? (fun key => key ≠ otherKey && q key) texts).getD (Meaning.otherBranch texts) =
      (Meaning.branch? q texts).getD (Meaning.otherBranch texts) := by
  by_cases hother : q otherKey
  · have hskip : (fun key => decide (key ≠ otherKey) && q key) = fun _ => false := by
      funext key
      by_contra hkey
      simp only [Bool.not_eq_false, Bool.and_eq_true, decide_eq_true_eq] at hkey
      exact hkey.1 (hunique key hkey.2 hother)
    have hq : q = fun key => decide (key = otherKey) := by
      funext key
      by_cases hkey : key = otherKey
      · rw [hkey, hother, decide_eq_true rfl]
      · rw [decide_eq_false hkey]
        exact Bool.eq_false_iff.mpr fun h => hkey (hunique key h hother)
    have hnone : Meaning.branch? (fun _ => false) texts = none := by
      rw [Meaning.branch?, List.find?_eq_none.mpr (by simp), Option.map_none]
    rw [hskip, hq, hnone, Meaning.otherBranch]
    cases Meaning.branch? (fun key => decide (key = otherKey)) texts <;> rfl
  · have hskip : (fun key => decide (key ≠ otherKey) && q key) = q := by
      funext key
      by_cases hkey : key = otherKey
      · rw [hkey, Bool.eq_false_iff.mpr hother, Bool.and_false]
      · rw [decide_eq_true hkey, Bool.true_and]
    rw [hskip]

theorem renders_selectPiece {name : String} (hname : name ∈ parameters)
    (hbranches : List.Forall₂ (RendersBranch (binding host parameters record) locale) branches texts) :
    Renders (binding host parameters record) locale [selectPiece name branches]
      (Meaning.select host (record name) texts) := by
  have hunique : ∀ key, host.identical (record name) (.text key) →
      host.identical (record name) (.text otherKey) → key = otherKey := by
    intro key hkey hother
    rw [identical_text_iff] at hkey hother
    exact Value.text.inj (hkey.symm.trans hother)
  rw [selectPiece_eq, Meaning.select, ← branch?_skip_other hunique]
  refine renders_choice (evalExpr_groupArms (evalExpr_fallbackExpr hbranches) hbranches ?_ ?_)
  · intro key _ hnone
    unfold selectTest at hnone
    split at hnone
    · rename_i hkey
      simp [hkey]
    · cases hnone
  · intro key _ test hsome
    unfold selectTest at hsome
    split at hsome
    · cases hsome
    · rename_i hkey
      cases hsome
      rw [decide_eq_true hkey, Bool.true_and]
      exact decides_identical hname key

/-- The arms of the categories give the branch for the category of the subject, or else the one for all
other keys. -/
theorem evalExpr_categoryArms (hfacility : facility ∉ parameters) (kind : PluralKind) {subject : Subject}
    (hname : subject.name ∈ parameters) (hkeys : ∀ key ∈ texts.map Prod.fst, IsKey true key)
    (hbranches : List.Forall₂ (RendersBranch (binding host parameters record) locale) branches texts) :
    evalExpr host (binding host parameters record) (armsExpr locale
        (fallbackExpr locale (branches.lookup otherKey)) (groupArms (categoryTest kind subject) branches)) =
      some (.text ((Meaning.branch? (Meaning.isCategoryOf host locale kind (subject.value record)) texts).getD
        (Meaning.otherBranch texts))) := by
  have hunique : ∀ key, Meaning.isCategoryOf host locale kind (subject.value record) key →
      Meaning.isCategoryOf host locale kind (subject.value record) otherKey → key = otherKey := by
    intro key hkey hother
    simp only [Meaning.isCategoryOf, Bool.and_eq_true, identical_text_iff] at hkey hother
    exact Value.text.inj (hkey.2.symm.trans hother.2)
  rw [← branch?_skip_other hunique]
  refine evalExpr_groupArms (evalExpr_fallbackExpr hbranches) hbranches ?_ ?_
  · intro key hkey hnone
    unfold categoryTest at hnone
    split at hnone
    · rename_i hskip
      rcases hskip with rfl | hexact
      · simp
      · rcases isKey_cases (hkeys key hkey) with ⟨-, htext, -⟩ | ⟨_, n, -, -, hvalue⟩
        · rw [htext] at hexact
          cases hexact
        · simp [Meaning.isCategoryOf, hvalue]
    · cases hnone
  · intro key hkey test hsome
    unfold categoryTest at hsome
    split at hsome
    · cases hsome
    · rename_i hskip
      cases hsome
      rw [not_or] at hskip
      have hvalue : Meaning.exactValue? key = none := by
        rcases isKey_cases (hkeys key hkey) with ⟨-, -, hvalue⟩ | ⟨_, n, htext, -, -⟩
        · exact hvalue
        · exact absurd (by rw [htext]; rfl) hskip.2
      rw [decide_eq_true hskip.1, Bool.true_and, Meaning.isCategoryOf, hvalue]
      exact decides_category hfacility hname kind key

theorem renders_pluralPiece (hfacility : facility ∉ parameters) (kind : PluralKind) (subject : Subject)
    (hname : subject.name ∈ parameters) (hkeys : ∀ key ∈ texts.map Prod.fst, IsKey true key)
    (hbranches : List.Forall₂ (RendersBranch (binding host parameters record) locale) branches texts) :
    Renders (binding host parameters record) locale [pluralPiece kind subject branches]
      (Meaning.plural host locale kind (record subject.name) subject.offset texts) := by
  have hcategories := evalExpr_categoryArms hfacility kind hname hkeys hbranches
  rw [pluralPiece, exactArms_eq, categoryArms_eq]
  refine renders_choice ?_
  rw [armsExpr_append]
  refine evalExpr_groupArms hcategories hbranches ?_ ?_
  · intro key hkey hnone
    rcases isKey_cases (hkeys key hkey) with ⟨-, -, hvalue⟩ | ⟨_, n, htext, -, -⟩
    · simp [Meaning.isExactKeyOf, hvalue]
    · simp [exactTest, htext] at hnone
  · intro key hkey test hsome
    rcases isKey_cases (hkeys key hkey) with ⟨-, htext, -⟩ | ⟨_, n, htext, hn, hvalue⟩
    · simp [exactTest, htext] at hsome
    · simp only [exactTest, htext, hn, Option.map_some, Option.some.injEq] at hsome
      subst hsome
      rw [Meaning.isExactKeyOf, hvalue]
      exact decides_equal hname n

end Selections

end MessageFormat.Script
