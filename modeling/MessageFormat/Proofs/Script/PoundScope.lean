import MessageFormat.Proofs.Pattern.WellFormed
import MessageFormat.Proofs.Script.Shape

/-! Which messages have no function. The compiler hands the subject of a plural down through tags and
selections by text, and a new plural replaces it; so a message has no function exactly when a pound sign
can be reached from its top without passing a plural. The reader of patterns has a scope of its own: it
looks at the nearest selection only, and gives no pound sign where that is no plural. A pound sign that was
read therefore has a plural above it, and every pattern that can be read can be compiled. -/

namespace MessageFormat

/-- The element `x` can be reached from the list through tags and through the branches of selections by
text, without passing a plural. -/
inductive Exposed (x : Element) : List Element → Prop
  | here {es : List Element} (mem : x ∈ es) : Exposed x es
  | tag {es children : List Element} {name : String} (mem : .tag name children ∈ es)
      (inside : Exposed x children) : Exposed x es
  | select {es branch : List Element} {name key : String} {options : Options}
      (mem : .select name options ∈ es) (option : (key, branch) ∈ options)
      (inside : Exposed x branch) : Exposed x es

namespace Exposed

variable {x e : Element} {es es' : List Element}

theorem mono (h : Exposed x es) (hsubset : es ⊆ es') : Exposed x es' := by
  cases h with
  | here mem => exact .here (hsubset mem)
  | tag mem inside => exact .tag (hsubset mem) inside
  | select mem option inside => exact .select (hsubset mem) option inside

theorem not_nil : ¬ Exposed x [] := by
  intro h
  cases h with
  | here mem => exact List.not_mem_nil mem
  | tag mem inside => exact List.not_mem_nil mem
  | select mem option inside => exact List.not_mem_nil mem

theorem cons_iff : Exposed x (e :: es) ↔ Exposed x [e] ∨ Exposed x es := by
  constructor
  · intro h
    cases h with
    | here mem =>
        rcases List.mem_cons.mp mem with heq | mem
        · exact Or.inl (.here (List.mem_singleton.mpr heq))
        · exact Or.inr (.here mem)
    | tag mem inside =>
        rcases List.mem_cons.mp mem with heq | mem
        · exact Or.inl (.tag (List.mem_singleton.mpr heq) inside)
        · exact Or.inr (.tag mem inside)
    | select mem option inside =>
        rcases List.mem_cons.mp mem with heq | mem
        · exact Or.inl (.select (List.mem_singleton.mpr heq) option inside)
        · exact Or.inr (.select mem option inside)
  · rintro (h | h)
    · exact h.mono (List.cons_subset_cons e (List.nil_subset es))
    · exact h.mono (List.subset_cons_self e es)

/-- A pound sign is exposed by an element when it is that element, or lies exposed between its tags or in
one of its branches. -/
theorem singleton_iff : Exposed .pound [e] ↔
    e = .pound ∨ (∃ name children, e = .tag name children ∧ Exposed .pound children) ∨
      ∃ name options, e = .select name options ∧ ∃ option ∈ options, Exposed .pound option.2 := by
  constructor
  · intro h
    cases h with
    | here mem => exact Or.inl (List.mem_singleton.mp mem).symm
    | tag mem inside => exact Or.inr (Or.inl ⟨_, _, (List.mem_singleton.mp mem).symm, inside⟩)
    | select mem option inside =>
        exact Or.inr (Or.inr ⟨_, _, (List.mem_singleton.mp mem).symm, _, option, inside⟩)
  · rintro (rfl | ⟨name, children, rfl, inside⟩ | ⟨name, options, rfl, option, mem, inside⟩)
    · exact .here (.head _)
    · exact .tag (.head _) inside
    · exact .select (.head _) mem inside

end Exposed

namespace Script

theorem bind_some_eq_none {α β : Type} {x : Option α} {f : α → β} :
    (x >>= fun a => some (f a)) = none ↔ x = none := by
  cases x <;> simp

theorem bind_bind_some_eq_none {α β γ : Type} {x : Option α} {y : Option β} {f : α → β → γ} :
    (x >>= fun a => y >>= fun b => some (f a b)) = none ↔ x = none ∨ y = none := by
  cases x <;> cases y <;> simp

mutual

theorem compileElement_eq_none_iff (pound : Option Subject) :
    ∀ e, compileElement pound e = none ↔ pound = none ∧ Exposed .pound [e]
  | .literal _ | .argument _ | .number _ _ | .date _ _ | .time _ _ => by
      simp [compileElement, Exposed.singleton_iff]
  | .select name options => by
      rw [compileElement, bind_some_eq_none, compileOptions_eq_none_iff pound options]
      simp [Exposed.singleton_iff, and_assoc]
  | .plural name kind offset options => by
      rw [compileElement, bind_some_eq_none, compileOptions_eq_none_iff (some ⟨name, offset⟩) options]
      simp [Exposed.singleton_iff]
  | .pound => by
      rw [compileElement, bind_some_eq_none]
      simp [Exposed.singleton_iff]
  | .tag name children => by
      rw [compileElement, bind_some_eq_none, compileList_eq_none_iff pound children]
      simp [Exposed.singleton_iff, and_assoc]

theorem compileList_eq_none_iff (pound : Option Subject) :
    ∀ es, compileList pound es = none ↔ pound = none ∧ Exposed .pound es
  | [] => by
      simp [compileList, Exposed.not_nil]
  | e :: es => by
      have hhead := compileElement_eq_none_iff pound e
      have htail := compileList_eq_none_iff pound es
      rw [compileList, bind_bind_some_eq_none, hhead, htail, ← and_or_left, ← Exposed.cons_iff]

theorem compileOptions_eq_none_iff (pound : Option Subject) :
    ∀ options, compileOptions pound options = none ↔
      pound = none ∧ ∃ option ∈ options, Exposed .pound option.2
  | [] => by
      simp [compileOptions]
  | (key, branch) :: options => by
      have hhead := compileList_eq_none_iff pound branch
      have htail := compileOptions_eq_none_iff pound options
      rw [compileOptions, bind_bind_some_eq_none, hhead, htail, ← and_or_left]
      simp only [List.mem_cons, exists_eq_or_imp]

end

theorem ofElements?_eq_none_iff (es : List Element) : ofElements? es = none ↔ Exposed .pound es := by
  rw [ofElements?, Option.map_eq_none_iff, compileList_eq_none_iff]
  exact and_iff_right rfl

end Script

namespace Pattern

theorem elementWellFormed_of_mem {d : Dialect} {inPlural : Bool} {e : Element} {es : List Element}
    (h : WellFormed d inPlural es) (hmem : e ∈ es) : ElementWellFormed d inPlural e := by
  induction es with
  | nil => exact absurd hmem List.not_mem_nil
  | cons first es ih =>
      rcases List.mem_cons.mp hmem with rfl | hmem
      · exact h.1
      · exact ih h.2.2 hmem

theorem wellFormed_of_mem {d : Dialect} {inPlural : Bool} {key : String} {branch : List Element}
    {options : Options} (h : BranchesWellFormed d inPlural options) (hmem : (key, branch) ∈ options) :
    WellFormed d inPlural branch := by
  induction options with
  | nil => exact absurd hmem List.not_mem_nil
  | cons option options ih =>
      rcases List.mem_cons.mp hmem with rfl | hmem
      · exact h.1
      · exact ih h.2 hmem

/-- Outside all plurals the reader gives no pound sign, neither between tags nor in selections by text. -/
theorem not_exposed_of_wellFormed {d : Dialect} {es : List Element} (h : WellFormed d false es) :
    ¬ Exposed .pound es := by
  intro hexposed
  induction hexposed with
  | here mem => exact Bool.false_ne_true (elementWellFormed_of_mem h mem)
  | tag mem _ ih =>
      obtain ⟨-, -, hchildren⟩ := elementWellFormed_of_mem h mem
      exact ih hchildren
  | select mem option _ ih =>
      obtain ⟨-, -, hbranches⟩ := elementWellFormed_of_mem h mem
      exact ih (wellFormed_of_mem hbranches option)

end Pattern

namespace Message

theorem compileElements_cases (es : List Element) (locale : String) :
    (Exposed .pound es ∧ compileElements es locale = .error .strayPound) ∨
      ¬ Exposed .pound es ∧ ∃ source, compileElements es locale = .ok source := by
  rw [compileElements_eq]
  cases hscript : Script.ofElements? es with
  | none => exact Or.inl ⟨(Script.ofElements?_eq_none_iff es).mp hscript, rfl⟩
  | some script =>
      refine Or.inr ⟨fun h => ?_, script.source locale, rfl⟩
      rw [(Script.ofElements?_eq_none_iff es).mpr h] at hscript
      cases hscript

theorem compile_cases (pattern locale : String) :
    (∃ es source, Pattern.parse .lenient pattern = .ok es ∧ compile pattern locale = .ok source) ∨
      ∃ e, Pattern.parse .lenient pattern = .error e ∧ compile pattern locale = .error (.pattern e) := by
  unfold compile
  cases hparse : Pattern.parse .lenient pattern with
  | error e => exact Or.inr ⟨e, rfl, rfl⟩
  | ok es =>
      obtain ⟨r, hreads⟩ := Pattern.reads_of_parse hparse
      rcases compileElements_cases es locale with ⟨hexposed, -⟩ | ⟨-, source, hsource⟩
      · exact absurd hexposed (Pattern.not_exposed_of_wellFormed hreads.wellFormed)
      · exact Or.inl ⟨es, source, rfl, hsource⟩

/-- A message that has been read has no function exactly when a pound sign of it is exposed. A pattern
always has a function or is refused by the reader, and it has one exactly when it can be read. -/
theorem strayPound_iff_exposed_and_compile_ok_iff :
    (∀ (es : List Element) (locale : String),
      (compileElements es locale = .error .strayPound ↔ Exposed .pound es) ∧
        ((∃ source, compileElements es locale = .ok source) ↔ ¬ Exposed .pound es)) ∧
    ∀ pattern locale : String,
      ((∃ source, compile pattern locale = .ok source) ∨
          ∃ e, Pattern.parse .lenient pattern = .error e ∧ compile pattern locale = .error (.pattern e)) ∧
        ((∃ source, compile pattern locale = .ok source) ↔
          ∃ es, Pattern.parse .lenient pattern = .ok es) := by
  refine ⟨fun es locale => ?_, fun pattern locale => ?_⟩
  · rcases compileElements_cases es locale with ⟨hexposed, herror⟩ | ⟨hexposed, source, hsource⟩
    · simp [hexposed, herror]
    · simp [hexposed, hsource]
  · rcases compile_cases pattern locale with ⟨es, source, hparse, hsource⟩ | ⟨e, hparse, herror⟩
    · simp [hparse, hsource]
    · simp [hparse, herror]

end Message
end MessageFormat
