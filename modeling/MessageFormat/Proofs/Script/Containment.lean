import MessageFormat.Proofs.Numeral.Integer
import MessageFormat.Proofs.Script.Lexer
import MessageFormat.Proofs.Script.Shape
import Mathlib.Data.List.Forall2

/-! Text never becomes code. Whatever the literals and the keys of a message are, the source text of its
function closes what it opens, and its structure does not depend on them: two messages that differ only in
literals and in keys of one class have functions of the same structure, for any two locales. -/

namespace MessageFormat.Script

open Lexer (isCode IsCode Bare Alike)

theorem isCode_of_isDigit {c : Char} (h : c.isDigit) : isCode c := by
  by_contra hcode
  have hspecial : c = '\x60' ∨ c = '"' ∨ c = '\x7b' ∨ c = '\x7d' := by
    simp only [isCode, Bool.and_eq_true, bne_iff_ne] at hcode
    tauto
  rcases hspecial with rfl | rfl | rfl | rfl <;> cases h

theorem isCode_of_mem_toDigits (n : Nat) : ∀ c ∈ Nat.toDigits 10 n, isCode c := by
  intro c hc
  exact isCode_of_isDigit ((Integer.isDigits_toDigits n).isDigit c hc)

theorem isCode_repr (n : Int) : IsCode n.repr := by
  unfold IsCode
  cases n with
  | ofNat m =>
      rw [Int.ofNat_eq_natCast, Integer.toList_repr_natCast]
      exact isCode_of_mem_toDigits m
  | negSucc m =>
      rw [Integer.toList_repr_negSucc]
      exact List.forall_mem_cons.mpr ⟨rfl, isCode_of_mem_toDigits (m + 1)⟩

theorem isCode_positional (x : Decimal) : IsCode x.positional := by
  have hzeros : ∀ n, ∀ c ∈ List.replicate n '0', isCode c := by
    intro n c hc
    rw [List.eq_of_mem_replicate hc]
    rfl
  have hsign : ∀ c ∈ (if x.negative then ['-'] else []), isCode c := by
    cases x.negative <;> simp [isCode]
  have hdigits := isCode_of_mem_toDigits x.digits
  unfold IsCode Decimal.positional
  dsimp only
  split
  · rw [String.toList_ofList]
    simp only [List.forall_mem_append]
    exact ⟨⟨hsign, hdigits⟩, hzeros _⟩
  · have hpadded : ∀ c ∈ List.replicate ((-x.exponent).toNat + 1 - (Nat.toDigits 10 x.digits).length) '0' ++
        Nat.toDigits 10 x.digits, isCode c := List.forall_mem_append.mpr ⟨hzeros _, hdigits⟩
    rw [String.toList_ofList]
    simp only [List.forall_mem_append, List.forall_mem_cons]
    refine ⟨⟨hsign, ?_⟩, rfl, ?_⟩
    · intro c hc
      exact hpadded c (List.mem_of_mem_take hc)
    · intro c hc
      exact hpadded c (List.mem_of_mem_drop hc)

theorem isCode_literal (value : Quantity) : IsCode value.literal := by
  cases value with
  | integer n => exact isCode_repr n.toInt
  | binary x => exact isCode_positional x.shortest
  | undefined => decide

theorem isCode_subject {subject : Subject} (hname : IsCode subject.name) : IsCode subject.source := by
  have hopen : IsCode "(" := by decide
  have hminus : IsCode " - " := by decide
  have hclose : IsCode ")" := by decide
  unfold Subject.source
  split
  · exact hname
  · exact (((hopen.append hname).append hminus).append (isCode_repr _)).append hclose

section Expressions

variable {locale locale' : String}

theorem alike_braces (front inside : String) (hfront : IsCode front)
    (hinside : Alike .expression inside inside) :
    Alike .expression (front ++ ("\x7b" ++ inside ++ "\x7d")) (front ++ ("\x7b" ++ inside ++ "\x7d")) :=
  (Alike.code hfront).append hinside.braces

/-- A name before a value that needs no escapes. -/
theorem alike_setting (key value : String) (hkey : IsCode key) (hvalue : Bare value) :
    Alike .expression (key ++ ("\"" ++ value ++ "\"")) (key ++ ("\"" ++ value ++ "\"")) :=
  (Alike.code hkey).append (.bare hvalue hvalue)

theorem bare_name (style : DateStyle) : Bare style.name := by
  cases style <;> decide

theorem bare_pluralName (kind : PluralKind) : Bare kind.name := by
  cases kind <;> decide

theorem alike_settings (f : Formatter) : Alike .expression f.settings f.settings := by
  cases f with
  | number style =>
      cases style with
      | plain => exact Alike.code (by decide)
      | percent =>
          have hsettings : (Formatter.number .percent).settings =
              ", " ++ ("\x7b" ++ ("style: " ++ ("\"" ++ "percent" ++ "\"")) ++ "\x7d") := rfl
          rw [hsettings]
          exact alike_braces ", " _ (by decide) (alike_setting "style: " "percent" (by decide) (by decide))
      | integer =>
          have hsettings : (Formatter.number .integer).settings =
              ", " ++ ("\x7b" ++ "maximumFractionDigits: 0" ++ "\x7d") := rfl
          rw [hsettings]
          exact alike_braces ", " _ (by decide) (.code (by decide))
  | date style =>
      cases style with
      | none => exact Alike.code (by decide)
      | some style =>
          have hsettings : (Formatter.date (some style)).settings =
              "," ++ ("\x7b" ++ ("dateStyle: " ++ ("\"" ++ style.name ++ "\"")) ++ "\x7d") := by
            cases style <;> rfl
          rw [hsettings]
          exact alike_braces "," _ (by decide) (alike_setting "dateStyle: " _ (by decide) (bare_name style))
  | time style =>
      cases style with
      | none => exact Alike.code (by decide)
      | some style =>
          have hsettings : (Formatter.time (some style)).settings =
              "," ++ ("\x7b" ++ ("timeStyle: " ++ ("\"" ++ style.name ++ "\"")) ++ "\x7d") := by
            cases style <;> rfl
          rw [hsettings]
          exact alike_braces "," _ (by decide) (alike_setting "timeStyle: " _ (by decide) (bare_name style))

/-- A call of a new formatter: what stands before the locale and behind the settings has no structure. -/
theorem alike_call (hlocale : Bare locale) (hlocale' : Bare locale') {front settings back : String}
    (hfront : IsCode front) (hsettings : Alike .expression settings settings)
    (hback : IsCode back) :
    Alike .expression (front ++ ("\"" ++ locale ++ "\"") ++ settings ++ back)
      (front ++ ("\"" ++ locale' ++ "\"") ++ settings ++ back) :=
  (((Alike.code hfront).append (.bare hlocale hlocale')).append hsettings).append (.code hback)

theorem alike_formatter (hlocale : Bare locale) (hlocale' : Bare locale') (f : Formatter) {subject : Subject}
    (hsubject : IsCode subject.name) :
    Alike .expression (f.source locale subject) (f.source locale' subject) := by
  have hsource : ∀ l, f.source l subject =
      ("new " ++ f.constructor ++ "(") ++ ("\"" ++ l ++ "\"") ++ f.settings ++
        (").format(" ++ subject.source ++ ")") := by
    intro l
    apply String.toList_injective
    simp [Formatter.source]
  have hconstructor : IsCode f.constructor := by
    cases f with
    | number style => exact (by decide : IsCode "Intl.NumberFormat")
    | date style | time style => exact (by decide : IsCode "Intl.DateTimeFormat")
  have hnew : IsCode "new " := by decide
  have hformat : IsCode ").format(" := by decide
  rw [hsource, hsource]
  exact alike_call hlocale hlocale' ((hnew.append hconstructor).append (by decide)) (alike_settings f)
    ((hformat.append (isCode_subject hsubject)).append (by decide))

theorem alike_category (hlocale : Bare locale) (hlocale' : Bare locale') (kind : PluralKind) {subject : Subject}
    (hsubject : IsCode subject.name) (key key' : String) :
    Alike .expression ((Test.category kind subject key).source locale)
      ((Test.category kind subject key').source locale') := by
  have hsource : ∀ l k, (Test.category kind subject k).source l =
      "new Intl.PluralRules(" ++ ("\"" ++ l ++ "\"") ++
        (", " ++ ("\x7b" ++ ("type: " ++ ("\"" ++ kind.name ++ "\"")) ++ "\x7d")) ++
          (").select(" ++ subject.source ++ ") === ") ++ quote k := by
    intro l k
    apply String.toList_injective
    simp [Test.source_category]
  have hsettings := alike_braces ", " _ (by decide) (alike_setting "type: " _ (by decide) (bare_pluralName kind))
  have hselect : IsCode ").select(" := by decide
  rw [hsource, hsource]
  exact (alike_call hlocale hlocale' (by decide) hsettings
    ((hselect.append (isCode_subject hsubject)).append (by decide))).append (.quote key key')

theorem alike_identical {name : String} (hname : IsCode name) (key key' : String) :
    Alike .expression ((Test.identical name key).source locale) ((Test.identical name key').source locale') :=
  ((Alike.code hname).append (.code (by decide))).append (.quote key key')

theorem alike_equal {name : String} (hname : IsCode name) {value value' : Quantity}
    (h : value.literal = value'.literal) :
    Alike .expression ((Test.equal name value).source locale) ((Test.equal name value').source locale') := by
  have hvalue : Alike .expression value.literal value'.literal := by
    rw [← h]
    exact Alike.code (isCode_literal value)
  exact ((Alike.code hname).append (.code (by decide))).append hvalue

end Expressions

section Pieces

variable {locale locale' : String}

/-- The pieces have sources of the same structure for the two locales. -/
def PiecesAlike (locale locale' : String) (ps ps' : List Piece) : Prop :=
  Alike .template (piecesSource locale ps) (piecesSource locale' ps')

theorem piecesSource_append (locale : String) (ps qs : List Piece) :
    piecesSource locale (ps ++ qs) = piecesSource locale ps ++ piecesSource locale qs := by
  induction ps with
  | nil => simp [piecesSource]
  | cons p ps ih => rw [List.cons_append, piecesSource, piecesSource, ih, String.append_assoc]

theorem piecesSource_singleton (locale : String) (p : Piece) : piecesSource locale [p] = pieceSource locale p := by
  simp [piecesSource]

namespace PiecesAlike

theorem append {ps ps' qs qs' : List Piece} (hp : PiecesAlike locale locale' ps ps')
    (hq : PiecesAlike locale locale' qs qs') : PiecesAlike locale locale' (ps ++ qs) (ps' ++ qs') := by
  unfold PiecesAlike
  rw [piecesSource_append, piecesSource_append]
  exact Alike.append hp hq

theorem singleton {p p' : Piece} (h : Alike .template (pieceSource locale p) (pieceSource locale' p')) :
    PiecesAlike locale locale' [p] [p'] := by
  unfold PiecesAlike
  rw [piecesSource_singleton, piecesSource_singleton]
  exact h

theorem text (s t : String) : PiecesAlike locale locale' [.text s] [.text t] :=
  .singleton (.escapeTemplate s t)

theorem value {name : String} (hname : IsCode name) :
    PiecesAlike locale locale' [.value name] [.value name] :=
  .singleton (Alike.code hname).placeholder

theorem formatted (hlocale : Bare locale) (hlocale' : Bare locale') (f : Formatter) {subject : Subject}
    (hsubject : IsCode subject.name) :
    PiecesAlike locale locale' [.formatted f subject] [.formatted f subject] :=
  .singleton (alike_formatter hlocale hlocale' f hsubject).placeholder

theorem tagPieces {name : String} (hname : IsCode name) {ps ps' : List Piece}
    (h : PiecesAlike locale locale' ps ps') :
    PiecesAlike locale locale' (Script.tagPieces name ps) (Script.tagPieces name ps') := by
  have hvalue : PiecesAlike locale locale' [.value name] [.value name] := .value hname
  have htext : ∀ s, PiecesAlike locale locale' [.text s] [.text s] := fun s => .text s s
  have hopen := ((htext "<").append hvalue).append (htext ">")
  have hclose := ((htext "</").append hvalue).append (htext ">")
  exact (hopen.append h).append hclose

end PiecesAlike

/-- Two arms have tests and templates of the same structure. -/
def ArmAlike (locale locale' : String) (arm arm' : Test × List Piece) : Prop :=
  Alike .expression (arm.1.source locale) (arm'.1.source locale') ∧ PiecesAlike locale locale' arm.2 arm'.2

theorem alike_arms {arms arms' : List (Test × List Piece)}
    (h : List.Forall₂ (ArmAlike locale locale') arms arms') :
    Alike .expression (armsSource locale arms) (armsSource locale' arms') := by
  induction h with
  | nil =>
      rw [armsSource, armsSource]
      exact Alike.code (by decide)
  | cons harm _ ih =>
      obtain ⟨htest, hbody⟩ := harm
      rw [armsSource, armsSource]
      exact (((htest.append (.code (by decide))).append hbody.template).append (.code (by decide))).append ih

theorem PiecesAlike.choice {arms arms' : List (Test × List Piece)} {fallback fallback' : Option (List Piece)}
    (harms : List.Forall₂ (ArmAlike locale locale') arms arms')
    (hfallback : Option.Rel (PiecesAlike locale locale') fallback fallback') :
    PiecesAlike locale locale' [.choice arms fallback] [.choice arms' fallback'] := by
  apply PiecesAlike.singleton
  cases hfallback with
  | none =>
      rw [pieceSource, pieceSource]
      exact ((alike_arms harms).append (.quote "" "")).placeholder
  | some hbody =>
      rw [pieceSource, pieceSource]
      exact ((alike_arms harms).append hbody.template).placeholder

end Pieces

/-! ### Messages of the same shape -/

/-- What the key of a branch decides besides being compared with. -/
inductive KeyClass where
  | other
  /-- An exact key, and how its number is written. -/
  | exact (literal : String)
  | name
  deriving DecidableEq, Repr

/-- The class of a key of a plural, or of a selection by text, which has no exact keys. -/
def keyClass (plural : Bool) (key : String) : KeyClass :=
  match if plural then exactText? key else none with
  | some text => .exact (Quantity.ofText text).literal
  | none => if key = otherKey then .other else .name

mutual

/-- The elements differ only in the texts of literals and in keys of one class. -/
inductive SameShape : Element → Element → Prop
  | literal (s t : String) : SameShape (.literal s) (.literal t)
  | argument (name : String) : SameShape (.argument name) (.argument name)
  | number (name : String) (style : Option String) : SameShape (.number name style) (.number name style)
  | date (name : String) (style : Option DateStyle) : SameShape (.date name style) (.date name style)
  | time (name : String) (style : Option DateStyle) : SameShape (.time name style) (.time name style)
  | select (name : String) {options options' : Options} (branches : SameBranches false options options') :
      SameShape (.select name options) (.select name options')
  | plural (name : String) (kind : PluralKind) (offset : Int64) {options options' : Options}
      (branches : SameBranches true options options') :
      SameShape (.plural name kind offset options) (.plural name kind offset options')
  | pound : SameShape .pound .pound
  | tag (name : String) {children children' : List Element} (inside : SameShapes children children') :
      SameShape (.tag name children) (.tag name children')

/-- The messages differ only in the texts of literals and in keys of one class. -/
inductive SameShapes : List Element → List Element → Prop
  | nil : SameShapes [] []
  | cons {e e' : Element} {es es' : List Element} (head : SameShape e e') (tail : SameShapes es es') :
      SameShapes (e :: es) (e' :: es')

/-- The branches differ only in the texts of literals and in keys of one class. -/
inductive SameBranches : Bool → Options → Options → Prop
  | nil {plural : Bool} : SameBranches plural [] []
  | cons {plural : Bool} {key key' : String} {branch branch' : List Element} {options options' : Options}
      (same : keyClass plural key = keyClass plural key') (body : SameShapes branch branch')
      (tail : SameBranches plural options options') :
      SameBranches plural ((key, branch) :: options) ((key', branch') :: options')

end

mutual

theorem sameShape_refl : ∀ e, SameShape e e
  | .literal s => .literal s s
  | .argument name => .argument name
  | .number name style => .number name style
  | .date name style => .date name style
  | .time name style => .time name style
  | .select name options => .select name (sameBranches_refl false options)
  | .plural name kind offset options => .plural name kind offset (sameBranches_refl true options)
  | .pound => .pound
  | .tag name children => .tag name (sameShapes_refl children)

theorem sameShapes_refl : ∀ es, SameShapes es es
  | [] => .nil
  | e :: es => .cons (sameShape_refl e) (sameShapes_refl es)

theorem sameBranches_refl (plural : Bool) : ∀ options, SameBranches plural options options
  | [] => .nil
  | (_, branch) :: options => .cons rfl (sameShapes_refl branch) (sameBranches_refl plural options)

end

mutual

theorem SameShape.mentions {e e' : Element} : SameShape e e' → e.mentions = e'.mentions
  | .literal _ _ => rfl
  | .argument _ => rfl
  | .number _ _ => rfl
  | .date _ _ => rfl
  | .time _ _ => rfl
  | .select name branches => by rw [Element.mentions, Element.mentions, branches.mentions]
  | .plural name _ _ branches => by rw [Element.mentions, Element.mentions, branches.mentions]
  | .pound => rfl
  | .tag name inside => by rw [Element.mentions, Element.mentions, inside.mentions]

theorem SameShapes.mentions {es es' : List Element} :
    SameShapes es es' → Element.listMentions es = Element.listMentions es'
  | .nil => rfl
  | .cons head tail => by rw [Element.listMentions, Element.listMentions, head.mentions, tail.mentions]

theorem SameBranches.mentions {plural : Bool} {options options' : Options} :
    SameBranches plural options options' → Element.optionMentions options = Element.optionMentions options'
  | .nil => rfl
  | .cons _ body tail => by rw [Element.optionMentions, Element.optionMentions, body.mentions, tail.mentions]

end

section Branches

variable {locale locale' : String} {plural : Bool} {branches branches' : Branches}

/-- Two branches have keys of one class and templates of the same structure. -/
def BranchAlike (locale locale' : String) (plural : Bool) (branch branch' : String × List Piece) : Prop :=
  keyClass plural branch.1 = keyClass plural branch'.1 ∧ PiecesAlike locale locale' branch.2 branch'.2

theorem exactText?_otherKey : exactText? otherKey = none := by
  decide

theorem keyClass_eq_other_iff {key : String} : keyClass plural key = .other ↔ key = otherKey := by
  unfold keyClass
  constructor
  · intro h
    split at h
    · cases h
    · split at h
      · assumption
      · cases h
  · rintro rfl
    cases plural <;> simp [exactText?_otherKey]

theorem eq_otherKey_iff {key key' : String} (h : keyClass plural key = keyClass plural key') :
    key = otherKey ↔ key' = otherKey := by
  rw [← keyClass_eq_other_iff, h, keyClass_eq_other_iff]

/-- Of two keys of a plural of one class both are exact, and then their numbers are written alike, or none
is. -/
theorem exactText?_rel {key key' : String} (h : keyClass true key = keyClass true key') :
    Option.Rel (fun text text' => (Quantity.ofText text).literal = (Quantity.ofText text').literal)
      (exactText? key) (exactText? key') := by
  unfold keyClass at h
  cases hkey : exactText? key with
  | none =>
      cases hkey' : exactText? key' with
      | none => exact .none
      | some text' =>
          simp only [if_true, hkey, hkey'] at h
          split at h <;> cases h
  | some text =>
      cases hkey' : exactText? key' with
      | none =>
          simp only [if_true, hkey, hkey'] at h
          split at h <;> cases h
      | some text' =>
          simp only [if_true, hkey, hkey', KeyClass.exact.injEq] at h
          exact .some h

theorem lookup_rel (h : List.Forall₂ (BranchAlike locale locale' plural) branches branches') :
    Option.Rel (PiecesAlike locale locale') (branches.lookup otherKey) (branches'.lookup otherKey) := by
  induction h with
  | nil => exact .none
  | @cons branch branch' _ _ hbranch _ ih =>
      obtain ⟨key, body⟩ := branch
      obtain ⟨key', body'⟩ := branch'
      obtain ⟨hclass, hbody⟩ := hbranch
      by_cases hkey : key = otherKey
      · obtain rfl := hkey
        obtain rfl := (eq_otherKey_iff hclass).mp rfl
        simpa using Option.Rel.some hbody
      · have hkey' : key' ≠ otherKey := fun h => hkey ((eq_otherKey_iff hclass).mpr h)
        have hne : (otherKey == key) = false := by simpa using Ne.symm hkey
        have hne' : (otherKey == key') = false := by simpa using Ne.symm hkey'
        rw [List.lookup_cons, List.lookup_cons, hne, hne']
        exact ih

theorem PiecesAlike.selectPiece {name : String} (hname : IsCode name)
    (h : List.Forall₂ (BranchAlike locale locale' false) branches branches') :
    PiecesAlike locale locale' [Script.selectPiece name branches] [Script.selectPiece name branches'] := by
  refine .choice (List.rel_filterMap ?_ h) (lookup_rel h)
  rintro ⟨key, body⟩ ⟨key', body'⟩ ⟨hclass, hbody⟩
  dsimp only
  by_cases hkey : key = otherKey
  · rw [if_pos hkey, if_pos ((eq_otherKey_iff hclass).mp hkey)]
    exact .none
  · rw [if_neg hkey, if_neg fun h => hkey ((eq_otherKey_iff hclass).mpr h)]
    exact .some ⟨alike_identical hname _ _, hbody⟩

theorem exactArms_rel {name : String} (hname : IsCode name)
    (h : List.Forall₂ (BranchAlike locale locale' true) branches branches') :
    List.Forall₂ (ArmAlike locale locale') (exactArms name branches) (exactArms name branches') := by
  refine List.rel_filterMap ?_ h
  rintro ⟨key, body⟩ ⟨key', body'⟩ ⟨hclass, hbody⟩
  dsimp only
  have hrel := exactText?_rel hclass
  generalize exactText? key = text? at hrel
  generalize exactText? key' = text?' at hrel
  cases hrel with
  | none => exact .none
  | some hliteral => exact .some ⟨alike_equal hname hliteral, hbody⟩

theorem categoryArms_rel (hlocale : Bare locale) (hlocale' : Bare locale') (kind : PluralKind) {subject : Subject}
    (hsubject : IsCode subject.name)
    (h : List.Forall₂ (BranchAlike locale locale' true) branches branches') :
    List.Forall₂ (ArmAlike locale locale') (categoryArms kind subject branches)
      (categoryArms kind subject branches') := by
  refine List.rel_filterMap ?_ h
  rintro ⟨key, body⟩ ⟨key', body'⟩ ⟨hclass, hbody⟩
  dsimp only
  have hexact : (exactText? key).isSome = (exactText? key').isSome := by
    have hrel := exactText?_rel hclass
    generalize exactText? key = text? at hrel
    generalize exactText? key' = text?' at hrel
    cases hrel <;> rfl
  rw [← hexact]
  by_cases hskip : key = otherKey ∨ (exactText? key).isSome
  · rw [if_pos hskip, if_pos (by rwa [← eq_otherKey_iff hclass])]
    exact .none
  · rw [if_neg hskip, if_neg (by rwa [← eq_otherKey_iff hclass])]
    exact .some ⟨alike_category hlocale hlocale' kind hsubject _ _, hbody⟩

theorem PiecesAlike.pluralPiece (hlocale : Bare locale) (hlocale' : Bare locale') (kind : PluralKind)
    {subject : Subject} (hsubject : IsCode subject.name)
    (h : List.Forall₂ (BranchAlike locale locale' true) branches branches') :
    PiecesAlike locale locale' [Script.pluralPiece kind subject branches]
      [Script.pluralPiece kind subject branches'] :=
  .choice (List.rel_append (exactArms_rel hsubject h) (categoryArms_rel hlocale hlocale' kind hsubject h))
    (lookup_rel h)

end Branches

section Messages

variable {locale locale' : String}

mutual

theorem SameShape.compile (hlocale : Bare locale) (hlocale' : Bare locale')
    {pound : Option Subject} (hpound : ∀ subject ∈ pound, IsCode subject.name) {e e' : Element} :
    SameShape e e' → (∀ x ∈ e.mentions, IsCode x) → ∀ {ps}, compileElement pound e = some ps →
      ∃ ps', compileElement pound e' = some ps' ∧ PiecesAlike locale locale' ps ps'
  | .literal s t, _, _, h => by
      cases h
      exact ⟨_, rfl, .text s t⟩
  | .argument name, hnames, _, h => by
      cases h
      exact ⟨_, rfl, .value (hnames name (.head _))⟩
  | .number name style, hnames, _, h => by
      cases h
      exact ⟨_, rfl, .formatted hlocale hlocale' _ (hnames name (.head _))⟩
  | .date name style, hnames, _, h => by
      cases h
      exact ⟨_, rfl, .formatted hlocale hlocale' _ (hnames name (.head _))⟩
  | .time name style, hnames, _, h => by
      cases h
      exact ⟨_, rfl, .formatted hlocale hlocale' _ (hnames name (.head _))⟩
  | .select name options, hnames, _, h => by
      obtain ⟨branches, hbranches, h⟩ := Option.bind_eq_some_iff.mp h
      cases h
      obtain ⟨branches', hbranches', hrel⟩ :=
        options.compile hlocale hlocale' hpound (fun x hx => hnames x (.tail _ hx)) hbranches
      refine ⟨_, by rw [compileElement, hbranches']; rfl, ?_⟩
      exact .selectPiece (hnames name (.head _)) hrel
  | .plural name kind offset options, hnames, _, h => by
      obtain ⟨branches, hbranches, h⟩ := Option.bind_eq_some_iff.mp h
      cases h
      have hname := hnames name (.head _)
      have hsubject : ∀ subject ∈ some (Subject.mk name offset), IsCode subject.name := by
        simpa using hname
      obtain ⟨branches', hbranches', hrel⟩ :=
        options.compile hlocale hlocale' hsubject (fun x hx => hnames x (.tail _ hx)) hbranches
      refine ⟨_, by rw [compileElement, hbranches']; rfl, ?_⟩
      exact .pluralPiece hlocale hlocale' kind hname hrel
  | .pound, _, _, h => by
      obtain ⟨subject, hsubject, h⟩ := Option.bind_eq_some_iff.mp h
      cases h
      refine ⟨_, by rw [compileElement, hsubject]; rfl, ?_⟩
      exact .formatted hlocale hlocale' _ (hpound subject hsubject)
  | .tag name inside, hnames, _, h => by
      obtain ⟨ps, hps, h⟩ := Option.bind_eq_some_iff.mp h
      cases h
      obtain ⟨ps', hps', hrel⟩ :=
        inside.compile hlocale hlocale' hpound (fun x hx => hnames x (.tail _ hx)) hps
      refine ⟨_, by rw [compileElement, hps']; rfl, ?_⟩
      exact .tagPieces (hnames name (.head _)) hrel

theorem SameShapes.compile (hlocale : Bare locale) (hlocale' : Bare locale')
    {pound : Option Subject} (hpound : ∀ subject ∈ pound, IsCode subject.name)
    {es es' : List Element} :
    SameShapes es es' → (∀ x ∈ Element.listMentions es, IsCode x) →
      ∀ {ps}, compileList pound es = some ps →
        ∃ ps', compileList pound es' = some ps' ∧ PiecesAlike locale locale' ps ps'
  | .nil, _, _, h => by
      cases h
      exact ⟨_, rfl, [], fun _ _ => (Lexer.emit_nil _).symm, fun _ _ => (Lexer.emit_nil _).symm⟩
  | .cons head tail, hnames, _, h => by
      obtain ⟨ps, hps, h⟩ := Option.bind_eq_some_iff.mp h
      obtain ⟨qs, hqs, h⟩ := Option.bind_eq_some_iff.mp h
      cases h
      obtain ⟨ps', hps', hhead⟩ :=
        head.compile hlocale hlocale' hpound (fun x hx => hnames x (List.mem_append_left _ hx)) hps
      obtain ⟨qs', hqs', htail⟩ :=
        tail.compile hlocale hlocale' hpound (fun x hx => hnames x (List.mem_append_right _ hx)) hqs
      exact ⟨ps' ++ qs', by rw [compileList, hps', hqs']; rfl, hhead.append htail⟩

theorem SameBranches.compile (hlocale : Bare locale) (hlocale' : Bare locale')
    {pound : Option Subject} (hpound : ∀ subject ∈ pound, IsCode subject.name) {plural : Bool}
    {options options' : Options} :
    SameBranches plural options options' → (∀ x ∈ Element.optionMentions options, IsCode x) →
      ∀ {branches}, compileOptions pound options = some branches →
        ∃ branches', compileOptions pound options' = some branches' ∧
          List.Forall₂ (BranchAlike locale locale' plural) branches branches'
  | .nil, _, _, h => by
      cases h
      exact ⟨_, rfl, .nil⟩
  | .cons same body tail, hnames, _, h => by
      obtain ⟨ps, hps, h⟩ := Option.bind_eq_some_iff.mp h
      obtain ⟨branches, hbranches, h⟩ := Option.bind_eq_some_iff.mp h
      cases h
      obtain ⟨ps', hps', hbody⟩ :=
        body.compile hlocale hlocale' hpound (fun x hx => hnames x (List.mem_append_left _ hx)) hps
      obtain ⟨branches', hbranches', htail⟩ :=
        tail.compile hlocale hlocale' hpound (fun x hx => hnames x (List.mem_append_right _ hx)) hbranches
      refine ⟨_, by rw [compileOptions, hps', hbranches']; rfl, ?_⟩
      exact .cons ⟨same, hbody⟩ htail

end

theorem alike_source {names : List String} (hnames : ∀ x ∈ names, IsCode x)
    {ps ps' : List Piece} (h : PiecesAlike locale locale' ps ps') :
    Alike .expression (Script.source locale ⟨names, ps⟩) (Script.source locale' ⟨names, ps'⟩) := by
  cases names with
  | nil => exact (Alike.code (by decide)).append h.template
  | cons x names =>
      have hsource : ∀ l qs, Script.source l ⟨x :: names, qs⟩ =
          "(" ++ ("\x7b" ++ ",".intercalate (x :: names) ++ "\x7d") ++ ") => " ++
            Script.template (piecesSource l qs) := by
        intro l qs
        apply String.toList_injective
        simp [Script.source]
      have hparameters : IsCode (",".intercalate (x :: names)) := by
        apply forall_mem_intercalate
        · exact (by decide : IsCode ",")
        · exact hnames
      rw [hsource, hsource]
      exact (((Alike.code (by decide)).append (Alike.code hparameters).braces).append
        (.code (by decide))).append h.template

end Messages

end MessageFormat.Script

namespace MessageFormat.Message

open Script (SameShapes sameShapes_refl)
open Lexer (Token Bare IsCode Balanced Alike run emit)

theorem exists_alike_source {es es' : List Element} {locale locale' source : String}
    (hshape : SameShapes es es') (hnames : ∀ x ∈ Element.listMentions es, IsCode x)
    (hlocale : Bare locale) (hlocale' : Bare locale') (hsource : compileElements es locale = .ok source) :
    ∃ source', compileElements es' locale' = .ok source' ∧ Alike .expression source source' := by
  rw [compileElements_eq] at hsource
  split at hsource
  · cases hsource
  · rename_i script hscript
    cases hsource
    obtain ⟨ps, hps, rfl⟩ := Option.map_eq_some_iff.mp hscript
    have hpound : ∀ subject ∈ (none : Option Script.Subject), IsCode subject.name := by simp
    obtain ⟨ps', hps', halike⟩ := hshape.compile hlocale hlocale' hpound hnames hps
    have hscript' : Script.ofElements? es' = some ⟨Element.names es, ps'⟩ := by
      rw [Script.ofElements?, hps', Element.names_eq_eraseDups, Element.names_eq_eraseDups, hshape.mentions]
      rfl
    refine ⟨Script.source locale' ⟨Element.names es, ps'⟩, by rw [compileElements_eq, hscript'], ?_⟩
    exact Script.alike_source (fun x hx => hnames x (Element.mem_names.mp hx)) halike

/-- Text never becomes code. Let the names of a message hold no backticks, quotation marks and braces, as no
identifier does. Its source text is lexed without leaving a mode that nothing encloses, and at its end the
lexer is in an expression that nothing encloses; and a message that differs from it only in literals and in
keys of one class has a source text with the same tokens, whatever the two locales are. -/
theorem compile_lexes_independent_of_text {es : List Element} {locale source : String}
    (hnames : ∀ x ∈ Element.listMentions es, IsCode x) (hlocale : Bare locale)
    (hsource : compileElements es locale = .ok source) :
    ∃ tokens, run .expression [] source.toList = some (tokens, .expression, []) ∧
      ∀ es' locale', SameShapes es es' → Bare locale' → ∃ source',
        compileElements es' locale' = .ok source' ∧
          run .expression [] source'.toList = some (tokens, .expression, []) := by
  have hrun : ∀ {s : String} {tokens : List Token}, Balanced .expression s tokens →
      run .expression [] s.toList = some (tokens, .expression, []) := by
    intro s tokens hs
    simpa [run, emit] using hs [] []
  obtain ⟨source', hsource', tokens, hbalanced, -⟩ :=
    exists_alike_source (sameShapes_refl es) hnames hlocale hlocale hsource
  refine ⟨tokens, hrun hbalanced, fun es' locale' hshape hlocale' => ?_⟩
  obtain ⟨source', hsource', tokens', hbalanced', hother⟩ :=
    exists_alike_source hshape hnames hlocale hlocale' hsource
  have htokens : tokens' = tokens := by
    have h := (hrun hbalanced').symm.trans (hrun hbalanced)
    exact (Prod.mk.inj (Option.some.inj h)).1
  exact ⟨source', hsource', htokens ▸ hrun hother⟩

/-- Two literals that together would open an expression, and keys that would end a string or a template. -/
def hostile : List Element :=
  [.literal "\x60$", .literal "\x7bn\x7d\\",
    .plural "n" .cardinal 1 [("=+01", [.pound]), ("\"\x60", [.literal "\\"]), ("other", [])]]

/-- A message of the same shape without such characters. -/
def harmless : List Element :=
  [.literal "", .literal "a", .plural "n" .cardinal 1 [("=1", [.pound]), ("one", [.literal "b"]), ("other", [])]]

theorem compile_lexes_independent_of_text_hostile :
    ∃ source source' tokens, compileElements hostile "en" = .ok source ∧
      compileElements harmless "fr" = .ok source' ∧
        run .expression [] source.toList = some (tokens, .expression, []) ∧
          run .expression [] source'.toList = some (tokens, .expression, []) := by
  have hnames : ∀ x ∈ Element.listMentions hostile, IsCode x := by decide
  have hshape : SameShapes hostile harmless :=
    .cons (.literal _ _) (.cons (.literal _ _) (.cons (.plural "n" .cardinal 1 (.cons (by decide) (.cons .pound .nil)
      (.cons (by decide) (.cons (.literal _ _) .nil) (.cons rfl .nil .nil)))) .nil))
  obtain ⟨tokens, hrun, hother⟩ := compile_lexes_independent_of_text hnames (by decide : Bare "en") rfl
  obtain ⟨source', hsource', hrun'⟩ := hother harmless "fr" hshape (by decide)
  exact ⟨_, source', tokens, rfl, hsource', hrun, hrun'⟩

end MessageFormat.Message
