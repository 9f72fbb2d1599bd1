import MessageFormat.Pattern.Literal
import MessageFormat.Pattern.Option
import MessageFormat.Pattern.Tag
import MessageFormat.Text.Parsed

/-! Reading a pattern as a message. The reader goes from left to right with one character of foresight
and calls itself for the branches of selections and for what is between tags. It ends because every
call is given a proper end of the text of its caller. -/

namespace MessageFormat.Pattern

mutual

/-- The elements from a place up to the end of what is open around it. -/
def elements (d : Dialect) (σ : Scope) (s : List Char) :
    Except Failure (Parsed (List Element) s) :=
  match s with
  | [] => .ok ⟨[], [], List.suffix_refl _⟩
  | c :: r =>
    match h : lead d σ c r.head? with
    | .stop => .ok ⟨[], c :: r, List.suffix_refl _⟩
    | .strayClosingTag => .error (strayClosingTag r)
    | .text => do
      let text := literalText d σ false (c :: r)
      have hs : text.2 <:+ r := literalText_cons_suffix h
      let tail ← elements d σ text.2
      .ok (tail.lift (consLiteral (.ofList text.1)) (hs.trans (List.suffix_cons c r)))
    | .pound => do
      let tail ← elements d σ r
      .ok (tail.lift (.pound :: ·) (List.suffix_cons c r))
    | .argument => do
      let ⟨(head, s₁), h₁⟩ ← attach (argumentHead r)
      have hs₁ : s₁ <:+ r := suffix_of_argumentHead h₁
      match head with
      | .whole e => do
        let tail ← elements d σ s₁
        .ok (tail.lift (e :: ·) (hs₁.trans (List.suffix_cons c r)))
      | .select name => do
        let branches ← options d ⟨name, false, c :: r⟩ [] s₁
        have hs₂ : branches.rest <:+ r := branches.suffix.trans hs₁
        let tail ← elements d σ branches.rest
        .ok (tail.lift (.select name branches.value :: ·) (hs₂.trans (List.suffix_cons c r)))
      | .plural name kind n => do
        let branches ← options d ⟨name, true, c :: r⟩ [] s₁
        have hs₂ : branches.rest <:+ r := branches.suffix.trans hs₁
        let tail ← elements d σ branches.rest
        .ok (tail.lift (.plural name kind n branches.value :: ·)
          (hs₂.trans (List.suffix_cons c r)))
    | .openingTag => do
      let ⟨(head, s₁), h₁⟩ ← attach (tagHead r)
      have hs₁ : s₁ <:+ r := suffix_of_tagHead h₁
      match head with
      | .selfClosing name => do
        let tail ← elements d σ s₁
        .ok (tail.lift (consLiteral ("<" ++ name ++ "/>")) (hs₁.trans (List.suffix_cons c r)))
      | .opening name => do
        let children ← elements d σ.tag s₁
        let ⟨s₂, h₂⟩ ← attach (closingTag (c :: r) name children.rest)
        have hs₂ : s₂ <:+ r := (suffix_of_closingTag h₂).trans (children.suffix.trans hs₁)
        let tail ← elements d σ s₂
        .ok (tail.lift (.tag name children.value :: ·) (hs₂.trans (List.suffix_cons c r)))
termination_by s.length
decreasing_by
  all_goals
    simp only [List.length_cons, Nat.lt_succ_iff]
    first
      | exact Nat.le_refl _
      | exact hs.length_le
      | exact hs₂.length_le
      | exact hs₁.length_le

/-- The branches of a selection from the next key up to behind the closing brace of the argument. -/
def options (d : Dialect) (k : Chooser) (seen : List String) (s : List Char) :
    Except Failure (Parsed Options s) := do
  let ⟨(key?, s₁), h₁⟩ ← attach (optionHead d k seen s)
  have hs₁ : s₁ <:+ s := suffix_of_optionHead h₁
  match key? with
  | none => .ok ⟨[], s₁, hs₁⟩
  | some key => do
    let branch ← elements d (.branch k.plural) s₁
    let ⟨s₂, h₂⟩ ← attach (expect '\x7d' .branchEndExpected ('\x7b' :: s₁) branch.rest)
    have hs₂ : s₂ <:+ s₁ := (suffix_of_expect h₂).trans branch.suffix
    let tail ← options d k (key :: seen) s₂
    .ok (tail.lift ((key, branch.value) :: ·) (hs₂.trans hs₁))
termination_by s.length
decreasing_by
  · exact length_lt_of_optionHead h₁
  · exact Nat.lt_of_le_of_lt hs₂.length_le (length_lt_of_optionHead h₁)

end

/-- Reads a pattern as a message, or says what is wrong with it and where. -/
def parse (d : Dialect) (pattern : String) : Except Error (List Element) :=
  match elements d .top pattern.toList with
  | .error f => .error (f.locate pattern.toList)
  | .ok p => .ok p.value

end MessageFormat.Pattern
