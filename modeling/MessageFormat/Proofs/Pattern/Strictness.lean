import MessageFormat.Proofs.Pattern.WellFormed

/-! The strict and the lenient reader beside each other. Both read the same characters in the same order. The
strict one looks once more at the keys of a selection when it comes to the closing brace, and gives up there if
none of the branches is for all other keys. Up to such a place the two readers cannot be told apart: any other
fault is a fault for both of them, and what has no such place is the same message for both. -/

namespace MessageFormat

mutual

/-- Every selection in the element has a branch for all other keys. -/
def Element.Open : Element → Prop
  | .literal _ | .argument _ | .number _ _ | .date _ _ | .time _ _ | .pound => True
  | .select _ options => otherKey ∈ options.map Prod.fst ∧ optionsOpen options
  | .plural _ _ _ options => otherKey ∈ options.map Prod.fst ∧ optionsOpen options
  | .tag _ children => listOpen children

/-- Every selection in the elements has a branch for all other keys. -/
def Element.listOpen : List Element → Prop
  | [] => True
  | e :: es => e.Open ∧ listOpen es

/-- Every selection in the branches has a branch for all other keys. -/
def Element.optionsOpen : List (String × List Element) → Prop
  | [] => True
  | (_, branch) :: options => listOpen branch ∧ optionsOpen options

end

namespace Pattern

section Messages

variable {d : Dialect}

mutual

/-- A dialect that asks for a branch for all other keys gets one in every selection. -/
theorem open_of_elementWellFormed (hrequires : d.requiresOther = true) :
    ∀ {inPlural} e, ElementWellFormed d inPlural e → e.Open
  | _, .literal _, _ | _, .argument _, _ | _, .number _ _, _ | _, .date _ _, _ | _, .time _ _, _
  | _, .pound, _ => trivial
  | _, .select _ options, ⟨_, hkeys, hbranches⟩ =>
    ⟨hkeys.other_mem hrequires, optionsOpen_of_branchesWellFormed hrequires options hbranches⟩
  | _, .plural _ _ _ options, ⟨_, hkeys, hbranches⟩ =>
    ⟨hkeys.other_mem hrequires, optionsOpen_of_branchesWellFormed hrequires options hbranches⟩
  | _, .tag _ children, ⟨_, _, hchildren⟩ => listOpen_of_wellFormed hrequires children hchildren

theorem listOpen_of_wellFormed (hrequires : d.requiresOther = true) :
    ∀ {inPlural} es, WellFormed d inPlural es → Element.listOpen es
  | _, [], _ => trivial
  | _, e :: es, ⟨he, _, hes⟩ =>
    ⟨open_of_elementWellFormed hrequires e he, listOpen_of_wellFormed hrequires es hes⟩

theorem optionsOpen_of_branchesWellFormed (hrequires : d.requiresOther = true) :
    ∀ {inPlural} options, BranchesWellFormed d inPlural options → Element.optionsOpen options
  | _, [], _ => trivial
  | _, (_, branch) :: options, ⟨hbranch, hoptions⟩ =>
    ⟨listOpen_of_wellFormed hrequires branch hbranch,
      optionsOpen_of_branchesWellFormed hrequires options hoptions⟩

end

end Messages

/-- Text in front of a message adds no selection to it. -/
theorem listOpen_consLiteral {text : String} {es : List Element} :
    Element.listOpen (consLiteral text es) ↔ Element.listOpen es := by
  unfold consLiteral
  split
  · exact Iff.rfl
  · split
    · exact Iff.rfl
    · exact and_iff_right trivial

/-! ### Two runs side by side -/

/-- A fault that only the strict reader finds: a selection has no branch for all other keys. -/
def Failure.LacksOther (f : Failure) : Prop :=
  ∃ name, f.cause = .otherExpected name

/-- The strict reader gives what the lenient one gives, unless it misses a branch for all other keys. -/
def Follows {α : Type} (strict lenient : Except Failure α) : Prop :=
  strict = lenient ∨ ∃ f, strict = .error f ∧ f.LacksOther

namespace Follows

variable {α β : Type}

theorem refl (x : Except Failure α) : Follows x x :=
  Or.inl rfl

/-- Two computations of two steps run side by side when their steps do. The second steps are only compared
where the lenient reader gets to them. -/
theorem bind {x y : Except Failure α} {f g : α → Except Failure β} (h : Follows x y)
    (hnext : ∀ a, y = .ok a → Follows (f a) (g a)) : Follows (x >>= f) (y >>= g) := by
  rcases h with rfl | ⟨failure, rfl, hlacks⟩
  · cases x with
    | error failure => exact refl _
    | ok a => exact hnext a rfl
  · exact Or.inr ⟨failure, rfl, hlacks⟩

end Follows

section Readers

variable {tags : Bool} {σ : Scope}

theorem endsText_strict : endsText ⟨true, tags⟩ = endsText ⟨false, tags⟩ := rfl

theorem literalText_strict (quoted : Bool) (s : List Char) :
    literalText ⟨true, tags⟩ σ quoted s = literalText ⟨false, tags⟩ σ quoted s := by
  fun_induction literalText ⟨false, tags⟩ σ quoted s with
  | case1 => rfl
  | case2 quoted s ih => rw [literalText, ih]
  | case3 s h ih => rw [literalText, if_pos rfl, ih]; exact h
  | case4 quoted s h hquoted hopens ih => rw [literalText, if_neg hquoted, if_pos hopens, ih]; exact h
  | case5 quoted s h hquoted hopens ih => rw [literalText, if_neg hquoted, if_neg hopens, ih]; exact h
  | case6 quoted c s hpair hsingle hon ih =>
      rw [literalText, endsText_strict, if_pos hon, ih]
      · exact hpair
      · exact hsingle
  | case7 quoted c s hpair hsingle hends =>
      rw [literalText, endsText_strict, if_neg hends]
      · exact hpair
      · exact hsingle

/-- The two readers part only at the closing brace of a selection without a branch for all other keys. -/
theorem optionHead_strict (tags : Bool) (k : Chooser) (seen : List String) (s : List Char) :
    optionHead ⟨true, tags⟩ k seen s = optionHead ⟨false, tags⟩ k seen s ∨
      otherKey ∉ seen ∧ (∃ f, optionHead ⟨true, tags⟩ k seen s = .error f ∧ f.LacksOther) ∧
        ∃ r, optionHead ⟨false, tags⟩ k seen s = .ok (none, r) := by
  unfold optionHead
  split
  · exact Or.inl rfl
  · rename_i r _
    by_cases hempty : seen.isEmpty
    · rw [if_pos hempty, if_pos hempty]
      exact Or.inl rfl
    · rw [if_neg hempty, if_neg hempty]
      by_cases hother : otherKey ∈ seen
      · rw [List.contains_iff_mem.mpr hother]
        exact Or.inl rfl
      · rw [if_pos (by simpa using hother)]
        exact Or.inr ⟨hother, ⟨_, rfl, k.name, rfl⟩, r, rfl⟩
  · exact Or.inl rfl

theorem optionHead_follows (tags : Bool) (k : Chooser) (seen : List String) (s : List Char) :
    Follows (optionHead ⟨true, tags⟩ k seen s) (optionHead ⟨false, tags⟩ k seen s) := by
  rcases optionHead_strict tags k seen s with heq | ⟨-, hlacks, -⟩
  · exact Or.inl heq
  · exact Or.inr hlacks

mutual

/-- The strict reader follows the lenient one through the elements of a text. -/
theorem readElements_follows (tags : Bool) (σ : Scope) (s : List Char) :
    Follows (readElements ⟨true, tags⟩ σ s) (readElements ⟨false, tags⟩ σ s) := by
  match s with
  | [] =>
      rw [readElements_nil, readElements_nil]
      exact .refl _
  | c :: s =>
      cases hlead : lead ⟨false, tags⟩ σ c s.head? with
      | stop =>
          rw [readElements_stop (d := ⟨true, tags⟩) hlead, readElements_stop hlead]
          exact .refl _
      | strayClosingTag =>
          rw [readElements_strayClosingTag (d := ⟨true, tags⟩) hlead, readElements_strayClosingTag hlead]
          exact .refl _
      | text =>
          have hs := literalText_cons_suffix hlead
          rw [readElements_text (d := ⟨true, tags⟩) hlead, readElements_text hlead, literalText_strict]
          exact (readElements_follows tags σ _).bind fun _ _ => .refl _
      | pound =>
          rw [readElements_pound (d := ⟨true, tags⟩) hlead, readElements_pound hlead]
          exact (readElements_follows tags σ s).bind fun _ _ => .refl _
      | argument =>
          rw [readElements_argument (d := ⟨true, tags⟩) hlead, readElements_argument hlead]
          apply (Follows.refl _).bind
          rintro ⟨head, s₁⟩ hhead
          have hs₁ := suffix_of_argumentHead hhead
          cases head with
          | whole e => exact (readElements_follows tags σ s₁).bind fun _ _ => .refl _
          | select name | plural name kind n =>
              apply (readOptions_follows tags _ [] s₁).bind
              rintro ⟨os, s₂⟩ hos
              have hs₂ := (suffix_of_readOptions hos).trans hs₁
              exact (readElements_follows tags σ s₂).bind fun _ _ => .refl _
      | openingTag =>
          rw [readElements_openingTag (d := ⟨true, tags⟩) hlead, readElements_openingTag hlead]
          apply (Follows.refl _).bind
          rintro ⟨head, s₁⟩ hhead
          have hs₁ := suffix_of_tagHead hhead
          cases head with
          | selfClosing name => exact (readElements_follows tags σ s₁).bind fun _ _ => .refl _
          | opening name =>
              apply (readElements_follows tags σ.tag s₁).bind
              rintro ⟨children, s₂⟩ hinside
              have hs₂ := (suffix_of_readElements hinside).trans hs₁
              apply (Follows.refl _).bind
              intro s₃ hclose
              have hs₃ := (suffix_of_closingTag hclose).trans hs₂
              exact (readElements_follows tags σ s₃).bind fun _ _ => .refl _
termination_by s.length
decreasing_by
  all_goals
    simp only [List.length_cons, Nat.lt_succ_iff]
    first
      | exact Nat.le_refl _
      | exact hs.length_le
      | exact hs₃.length_le
      | exact hs₂.length_le
      | exact hs₁.length_le

theorem readOptions_follows (tags : Bool) (k : Chooser) (seen : List String) (s : List Char) :
    Follows (readOptions ⟨true, tags⟩ k seen s) (readOptions ⟨false, tags⟩ k seen s) := by
  rw [readOptions_eq, readOptions_eq]
  apply (optionHead_follows tags k seen s).bind
  rintro ⟨key?, s₁⟩ hhead
  have hlt := length_lt_of_optionHead hhead
  cases key? with
  | none => exact .refl _
  | some key =>
      apply (readElements_follows tags _ s₁).bind
      rintro ⟨es, s₂⟩ hbody
      have hs₂ := suffix_of_readElements hbody
      apply (Follows.refl _).bind
      intro s₃ hclose
      have hs₃ := (suffix_of_expect hclose).trans hs₂
      exact (readOptions_follows tags k (key :: seen) s₃).bind fun _ _ => .refl _
termination_by s.length
decreasing_by
  · exact hlt
  · exact Nat.lt_of_le_of_lt hs₃.length_le hlt

end

mutual

/-- What the lenient reader reads without a selection that lacks a branch for all other keys, the strict one
reads as well. -/
theorem Reads.strict {σ : Scope} {s r : List Char} {es : List Element} :
    Reads ⟨false, tags⟩ σ s es r → Element.listOpen es → Reads ⟨true, tags⟩ σ s es r
  | .nil, _ => .nil
  | .stop lead, _ => .stop lead
  | .text lead tail, hopen => by
      rw [listOpen_consLiteral] at hopen
      have htail := tail.strict hopen
      rw [← literalText_strict] at htail ⊢
      exact .text lead htail
  | .pound lead tail, hopen => .pound lead (tail.strict hopen.2)
  | .whole lead head tail, hopen => .whole lead head (tail.strict hopen.2)
  | .select lead head branches tail, hopen =>
      .select lead head (branches.strict (Or.inr hopen.1.1) hopen.1.2) (tail.strict hopen.2)
  | .plural lead head branches tail, hopen =>
      .plural lead head (branches.strict (Or.inr hopen.1.1) hopen.1.2) (tail.strict hopen.2)
  | .selfClosing lead head tail, hopen =>
      .selfClosing lead head (tail.strict (listOpen_consLiteral.mp hopen))
  | .tag lead head inside close tail, hopen =>
      .tag lead head (inside.strict hopen.1) close (tail.strict hopen.2)

theorem ReadsOptions.strict {k : Chooser} {seen : List String} {s r : List Char} {os : Options} :
    ReadsOptions ⟨false, tags⟩ k seen s os r → otherKey ∈ seen ∨ otherKey ∈ os.map Prod.fst →
      Element.optionsOpen os → ReadsOptions ⟨true, tags⟩ k seen s os r
  | .done head, hother, _ => by
      have hseen : otherKey ∈ seen := hother.resolve_right List.not_mem_nil
      rcases optionHead_strict tags k seen s with heq | ⟨hnot, -, -⟩
      · exact .done (heq.trans head)
      · exact absurd hseen hnot
  | .branch head body tail, hother, hopen => by
      rcases optionHead_strict tags k seen s with heq | ⟨-, -, r, hdone⟩
      · refine .branch (heq.trans head) (body.strict hopen.1) (tail.strict ?_ hopen.2)
        rcases hother with hseen | hother
        · exact Or.inl (.tail _ hseen)
        · rcases List.mem_cons.mp hother with hkey | hrest
          · exact Or.inl (hkey ▸ .head _)
          · exact Or.inr hrest
      · cases hdone.symm.trans head

end

end Readers

/-- The code of the faults for want of a branch for all other keys. -/
def missingOther : String := "missing-other-clause"

theorem Failure.LacksOther.code_eq {f : Failure} (h : f.LacksOther) : f.cause.code = missingOther := by
  obtain ⟨name, hcause⟩ := h
  rw [hcause]
  rfl

/-- The strict reader gives what the lenient one gives, or it misses a branch for all other keys. -/
theorem parse_follows (tags : Bool) (pattern : String) :
    parse ⟨true, tags⟩ pattern = parse ⟨false, tags⟩ pattern ∨
      ∃ e, parse ⟨true, tags⟩ pattern = .error e ∧ e.cause.code = missingOther := by
  rw [parse_eq, parse_eq]
  rcases readElements_follows tags .top pattern.toList with heq | ⟨f, hfailure, hlacks⟩
  · rw [heq]
    exact Or.inl rfl
  · rw [hfailure]
    exact Or.inr ⟨f.locate pattern.toList, rfl, hlacks.code_eq⟩

theorem parse_strict_of_listOpen {tags : Bool} {pattern : String} {es : List Element}
    (h : parse ⟨false, tags⟩ pattern = .ok es) (hopen : Element.listOpen es) :
    parse ⟨true, tags⟩ pattern = .ok es := by
  obtain ⟨r, hreads⟩ := reads_of_parse h
  exact parse_eq_ok_of_reads (hreads.strict hopen)

/-- Reading strictly is reading leniently and finding a branch for all other keys in every selection. A
pattern that the lenient reader refuses is refused by the strict one for the same fault, or because it came to
a selection without such a branch; and every other fault of the strict reader is one of the lenient reader. -/
theorem parse_strict_iff_lenient_and_open (tags : Bool) (pattern : String) :
    (∀ es, parse ⟨true, tags⟩ pattern = .ok es ↔
      parse ⟨false, tags⟩ pattern = .ok es ∧ Element.listOpen es) ∧
    (∀ e, parse ⟨false, tags⟩ pattern = .error e → ∃ e', parse ⟨true, tags⟩ pattern = .error e' ∧
      (e' = e ∨ e'.cause.code = missingOther)) ∧
    ∀ e, parse ⟨true, tags⟩ pattern = .error e → e.cause.code ≠ missingOther →
      parse ⟨false, tags⟩ pattern = .error e := by
  have hfollows := parse_follows tags pattern
  refine ⟨fun es => ⟨fun h => ?_, fun h => parse_strict_of_listOpen h.1 h.2⟩, fun e h => ?_, fun e h hcode => ?_⟩
  · obtain ⟨r, hreads⟩ := reads_of_parse h
    refine ⟨?_, listOpen_of_wellFormed rfl es hreads.wellFormed⟩
    rcases hfollows with heq | ⟨e, herror, -⟩
    · exact heq.symm.trans h
    · cases herror.symm.trans h
  · rcases hfollows with heq | ⟨e', herror, hcode⟩
    · exact ⟨e, heq.trans h, Or.inl rfl⟩
    · exact ⟨e', herror, Or.inr hcode⟩
  · rcases hfollows with heq | ⟨e', herror, hmissing⟩
    · exact heq.symm.trans h
    · cases herror.symm.trans h
      exact absurd hmissing hcode

/-- A selection by text with one branch is a message for the lenient reader only, and an argument without an
end is the same fault for both readers. -/
theorem parse_strict_iff_lenient_and_open_closed :
    parse ⟨false, true⟩ "\x7bg, select, m \x7bhe\x7d\x7d" = .ok [.select "g" [("m", [.literal "he"])]] ∧
      (∀ es, parse ⟨true, true⟩ "\x7bg, select, m \x7bhe\x7d\x7d" ≠ .ok es) ∧
      parse ⟨true, true⟩ "a\x7b" = .error ⟨.unterminatedArgument, ⟨0, 1, 1⟩, ⟨0, 2, 2⟩⟩ ∧
      parse ⟨false, true⟩ "a\x7b" = .error ⟨.unterminatedArgument, ⟨0, 1, 1⟩, ⟨0, 2, 2⟩⟩ := by
  have hlenient : parse ⟨false, true⟩ "\x7bg, select, m \x7bhe\x7d\x7d" =
      .ok [.select "g" [("m", [.literal "he"])]] := by
    apply parse_eq_ok_of_reads (r := [])
    simp only [String.reduceToList]
    exact .select rfl rfl (.branch rfl (.literal rfl rfl (.stop rfl) rfl) (.done rfl)) .nil
  have hstrict : parse ⟨true, true⟩ "a\x7b" = .error ⟨.unterminatedArgument, ⟨0, 1, 1⟩, ⟨0, 2, 2⟩⟩ := by
    have hread : readElements ⟨true, true⟩ .top ['a', '\x7b'] =
        .error ⟨.unterminatedArgument, ['\x7b'], []⟩ := by
      have hargument : readElements ⟨true, true⟩ .top ['\x7b'] =
          .error ⟨.unterminatedArgument, ['\x7b'], []⟩ :=
        readElements_argument rfl
      have htext : (literalText ⟨true, true⟩ .top false ['a', '\x7b']).2 = ['\x7b'] := rfl
      rw [readElements_text rfl, htext, hargument]
      rfl
    rw [parse_eq]
    simp only [String.reduceToList, hread]
    rfl
  refine ⟨hlenient, fun es hes => ?_, hstrict, ?_⟩
  · obtain ⟨hread, hopen⟩ := ((parse_strict_iff_lenient_and_open true _).1 es).mp hes
    cases hlenient.symm.trans hread
    exact absurd hopen.1.1 (by decide)
  · exact (parse_strict_iff_lenient_and_open true _).2.2 _ hstrict (by decide)

end Pattern
end MessageFormat
