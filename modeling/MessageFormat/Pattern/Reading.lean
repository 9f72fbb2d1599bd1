import MessageFormat.Pattern.Parser

/-! The reader of patterns as a pair of functions that give a value and the rest of the text, and the
equations by which they call themselves and each other. The proofs that the reader carries to be seen to
end are left out of them. -/

namespace MessageFormat.Pattern

/-- The elements from a place up to the end of what is open around it, and the rest of the text. -/
def readElements (d : Dialect) (σ : Scope) (s : List Char) :
    Except Failure (List Element × List Char) :=
  (elements d σ s).map Parsed.pair

/-- The branches of a selection, and the rest of the text. -/
def readOptions (d : Dialect) (k : Chooser) (seen : List String) (s : List Char) :
    Except Failure (Options × List Char) :=
  (options d k seen s).map Parsed.pair

section Equations

variable {d : Dialect} {σ : Scope} {c : Char} {s : List Char}

theorem readElements_nil : readElements d σ [] = .ok ([], []) := by
  rw [readElements, elements]
  rfl

theorem readElements_stop (h : lead d σ c s.head? = .stop) :
    readElements d σ (c :: s) = .ok ([], c :: s) := by
  rw [readElements, elements]
  split <;> rename_i h' <;> rw [h] at h' <;> cases h'
  rfl

theorem readElements_strayClosingTag (h : lead d σ c s.head? = .strayClosingTag) :
    readElements d σ (c :: s) = .error (strayClosingTag s) := by
  rw [readElements, elements]
  split <;> rename_i h' <;> rw [h] at h' <;> cases h'
  rfl

theorem readElements_text (h : lead d σ c s.head? = .text) :
    readElements d σ (c :: s) =
      readElements d σ (literalText d σ false (c :: s)).2 >>= fun tail =>
        .ok (consLiteral (.ofList (literalText d σ false (c :: s)).1) tail.1, tail.2) := by
  rw [readElements, elements]
  split <;> rename_i h' <;> rw [h] at h' <;> cases h'
  exact pair_lift _ _ _

theorem readElements_pound (h : lead d σ c s.head? = .pound) :
    readElements d σ (c :: s) =
      readElements d σ s >>= fun tail => .ok (.pound :: tail.1, tail.2) := by
  rw [readElements, elements]
  split <;> rename_i h' <;> rw [h] at h' <;> cases h'
  exact pair_lift _ _ _

theorem readElements_argument (h : lead d σ c s.head? = .argument) :
    readElements d σ (c :: s) =
      argumentHead s >>= fun head =>
        match head.1 with
        | .whole e => readElements d σ head.2 >>= fun tail => .ok (e :: tail.1, tail.2)
        | .select name =>
          readOptions d ⟨name, false, c :: s⟩ [] head.2 >>= fun branches =>
            readElements d σ branches.2 >>= fun tail =>
              .ok (.select name branches.1 :: tail.1, tail.2)
        | .plural name kind n =>
          readOptions d ⟨name, true, c :: s⟩ [] head.2 >>= fun branches =>
            readElements d σ branches.2 >>= fun tail =>
              .ok (.plural name kind n branches.1 :: tail.1, tail.2) := by
  rw [readElements, elements]
  split <;> rename_i h' <;> rw [h] at h' <;> cases h'
  rw [map_bind]
  refine attach_bind fun v hv => ?_
  obtain ⟨head, r⟩ := v
  cases head with
  | whole e => exact pair_lift _ _ _
  | select name =>
    dsimp only [readOptions]
    rw [map_bind, pair_bind]
    congr 1
    funext branches
    exact pair_lift _ _ _
  | plural name kind n =>
    dsimp only [readOptions]
    rw [map_bind, pair_bind]
    congr 1
    funext branches
    exact pair_lift _ _ _

theorem readElements_openingTag (h : lead d σ c s.head? = .openingTag) :
    readElements d σ (c :: s) =
      tagHead s >>= fun head =>
        match head.1 with
        | .selfClosing name =>
          readElements d σ head.2 >>= fun tail =>
            .ok (consLiteral ("<" ++ name ++ "/>") tail.1, tail.2)
        | .opening name =>
          readElements d σ.tag head.2 >>= fun children =>
            closingTag (c :: s) name children.2 >>= fun r =>
              readElements d σ r >>= fun tail => .ok (.tag name children.1 :: tail.1, tail.2) := by
  rw [readElements, elements]
  split <;> rename_i h' <;> rw [h] at h' <;> cases h'
  rw [map_bind]
  refine attach_bind fun v hv => ?_
  obtain ⟨head, r⟩ := v
  cases head with
  | selfClosing name => exact pair_lift _ _ _
  | opening name =>
    dsimp only [readElements]
    rw [map_bind, pair_bind]
    congr 1
    funext children
    rw [map_bind]
    refine attach_bind fun t ht => ?_
    exact pair_lift _ _ _

end Equations

theorem readOptions_eq (d : Dialect) (k : Chooser) (seen : List String) (s : List Char) :
    readOptions d k seen s =
      optionHead d k seen s >>= fun head =>
        match head.1 with
        | none => .ok ([], head.2)
        | some key =>
          readElements d (.branch k.plural) head.2 >>= fun branch =>
            expect '\x7d' .branchEndExpected ('\x7b' :: head.2) branch.2 >>= fun r =>
              readOptions d k (key :: seen) r >>= fun tail =>
                .ok ((key, branch.1) :: tail.1, tail.2) := by
  rw [readOptions, options, map_bind]
  refine attach_bind fun v hv => ?_
  obtain ⟨key?, r⟩ := v
  cases key? with
  | none => rfl
  | some key =>
    dsimp only [readElements]
    rw [map_bind, pair_bind]
    congr 1
    funext branch
    rw [map_bind]
    refine attach_bind fun t ht => ?_
    exact pair_lift _ _ _

/-- Reading a pattern is reading its elements from its beginning. -/
theorem parse_eq (d : Dialect) (pattern : String) :
    parse d pattern =
      match readElements d .top pattern.toList with
      | .error f => .error (f.locate pattern.toList)
      | .ok p => .ok p.1 := by
  rw [parse, readElements]
  cases elements d .top pattern.toList <;> rfl

end MessageFormat.Pattern
