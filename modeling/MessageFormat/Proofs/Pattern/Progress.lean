import MessageFormat.Proofs.Pattern.Faults
import MessageFormat.Proofs.Pattern.Quoting
import MessageFormat.Proofs.Text.Position
import Mathlib.Logic.Relation

/-! The reader of patterns as two loops. A round of the loop over elements reads one thing off the front of
the text, and a round of the loop over branches reads one key with its branch; both may begin loops inside.
A round leaves its loop, fails, or takes at least one character away, and the loops inside are begun behind
at least one character as well. Therefore the equations of the two loops have one solution and no other, the
reader: there is no text on which a loop would go on forever. The place of the reader only moves forward,
it always lies between two characters, and a pattern that is read is read to its end. -/

namespace MessageFormat.Pattern

/-- At least one character of `s` has been read, and `r` is left. -/
def Consumes (s r : List Char) : Prop :=
  ∃ read, read ≠ [] ∧ s = read ++ r

section Consumes

variable {s r t : List Char}

theorem consumes_cons {c : Char} : Consumes (c :: s) r ↔ r <:+ s := by
  constructor
  · rintro ⟨read, hne, hread⟩
    cases read with
    | nil => exact absurd rfl hne
    | cons x read => exact ⟨read, (List.cons.inj hread).2.symm⟩
  · rintro ⟨read, hread⟩
    exact ⟨c :: read, List.cons_ne_nil c read, by rw [← hread, List.cons_append]⟩

theorem Consumes.suffix (h : Consumes s r) : r <:+ s := by
  obtain ⟨read, -, hread⟩ := h
  exact ⟨read, hread.symm⟩

theorem Consumes.length_lt (h : Consumes s r) : r.length < s.length := by
  obtain ⟨read, hne, rfl⟩ := h
  have hpos := List.length_pos_of_ne_nil hne
  rw [List.length_append]
  omega

theorem Consumes.trans_suffix (h : Consumes s r) (ht : t <:+ r) : Consumes s t := by
  obtain ⟨read, hne, rfl⟩ := h
  obtain ⟨more, rfl⟩ := ht
  exact ⟨read ++ more, List.append_ne_nil_of_left_ne_nil hne more, (List.append_assoc ..).symm⟩

theorem consumes_of_optionHead {d : Dialect} {k : Chooser} {seen : List String} {key? : Option String}
    (h : optionHead d k seen s = .ok (key?, r)) : Consumes s r := by
  obtain ⟨c, read, hread⟩ := cons_suffix_of_optionHead h
  exact ⟨read ++ [c], by simp, by simp [hread]⟩

end Consumes

/-- Where literal text begins there is some: a quotation begins with the character that it is for. -/
theorem literalText_ne_nil {d : Dialect} {σ : Scope} {c : Char} {s : List Char}
    (h : lead d σ c s.head? = .text) : (literalText d σ false (c :: s)).1 ≠ [] := by
  by_cases hc : c = '\x27'
  · subst hc
    cases s with
    | nil => exact List.cons_ne_nil _ _
    | cons x s =>
        by_cases hx : x = '\x27'
        · subst hx
          rw [literalText_pair]
          exact List.cons_ne_nil _ _
        · by_cases hquote : needsQuoting σ.inPlural x
          · rw [literalText_open hquote, literalText_plain hx (Or.inl rfl)]
            exact List.cons_ne_nil _ _
          · have hplain : ¬ opensQuotation σ (x :: s).head? = true := hquote
            rw [literalText]
            · rw [if_neg Bool.false_ne_true, if_neg hplain]
              exact List.cons_ne_nil _ _
            · intro t ht
              exact hx (List.cons.inj ht).1
  · rw [literalText_plain hc (Or.inr h)]
    exact List.cons_ne_nil _ _

/-- Two functions that may stand in the place of the reader. -/
structure Readers where
  elements : Scope → List Char → Except Failure (List Element × List Char)
  options : Chooser → List String → List Char → Except Failure (Options × List Char)

/-- The reader itself. -/
def reader (d : Dialect) : Readers :=
  ⟨readElements d, readOptions d⟩

/-- What one round of the loop over elements gives. -/
inductive Item where
  | text (s : String)
  | element (e : Element)

/-- The message with an item in front of it. -/
def Item.cons : Item → List Element → List Element
  | .text s, es => consLiteral s es
  | .element e, es => e :: es

namespace Readers

variable (R : Readers) (d : Dialect)

/-- One round of the loop over elements: an item and the text behind it, or nothing where the loop is
left. -/
def elementRound (σ : Scope) : List Char → Except Failure (Option (Item × List Char))
  | [] => .ok none
  | c :: s =>
    match lead d σ c s.head? with
    | .stop => .ok none
    | .strayClosingTag => .error (strayClosingTag s)
    | .text =>
      let text := literalText d σ false (c :: s)
      .ok (some (.text (.ofList text.1), text.2))
    | .pound => .ok (some (.element .pound, s))
    | .argument => do
      let (head, r) ← argumentHead s
      match head with
      | .whole e => .ok (some (.element e, r))
      | .select name => do
        let (os, r) ← R.options ⟨name, false, c :: s⟩ [] r
        .ok (some (.element (.select name os), r))
      | .plural name kind n => do
        let (os, r) ← R.options ⟨name, true, c :: s⟩ [] r
        .ok (some (.element (.plural name kind n os), r))
    | .openingTag => do
      let (head, r) ← tagHead s
      match head with
      | .selfClosing name => .ok (some (.text ("<" ++ name ++ "/>"), r))
      | .opening name => do
        let (children, r) ← R.elements σ.tag r
        let r ← closingTag (c :: s) name r
        .ok (some (.element (.tag name children), r))

/-- One round of the loop over branches: a key with its branch and the text behind it, or the text behind
the closing brace at which the loop is left. -/
def optionRound (k : Chooser) (seen : List String) (s : List Char) :
    Except Failure (Option (String × List Element) × List Char) := do
  let (key?, r) ← optionHead d k seen s
  match key? with
  | none => .ok (none, r)
  | some key => do
    let (branch, r₁) ← R.elements (.branch k.plural) r
    let r₂ ← expect '\x7d' .branchEndExpected ('\x7b' :: r) r₁
    .ok (some (key, branch), r₂)

/-- The functions go on round after round until a loop is left or fails. -/
structure Loops : Prop where
  elements : ∀ σ s, R.elements σ s = R.elementRound d σ s >>= fun round =>
    match round with
    | none => .ok ([], s)
    | some (item, r) => R.elements σ r >>= fun tail => .ok (item.cons tail.1, tail.2)
  options : ∀ k seen s, R.options k seen s = R.optionRound d k seen s >>= fun round =>
    match round with
    | (none, r) => .ok ([], r)
    | (some branch, r) =>
      R.options k (branch.1 :: seen) r >>= fun tail => .ok (branch :: tail.1, tail.2)

end Readers

theorem reader_loops (d : Dialect) : (reader d).Loops d where
  elements σ s := by
    cases s with
    | nil => exact readElements_nil
    | cons c s =>
        dsimp only [reader, Readers.elementRound]
        cases hlead : lead d σ c s.head? with
        | stop => exact readElements_stop hlead
        | strayClosingTag => exact readElements_strayClosingTag hlead
        | text => exact readElements_text hlead
        | pound => exact readElements_pound hlead
        | argument =>
            rw [readElements_argument hlead]
            cases argumentHead s with
            | error f => rfl
            | ok v =>
                obtain ⟨head, r⟩ := v
                cases head with
                | whole e => rfl
                | select name =>
                    dsimp only [bind, Except.bind]
                    cases readOptions d ⟨name, false, c :: s⟩ [] r <;> rfl
                | plural name kind n =>
                    dsimp only [bind, Except.bind]
                    cases readOptions d ⟨name, true, c :: s⟩ [] r <;> rfl
        | openingTag =>
            rw [readElements_openingTag hlead]
            cases tagHead s with
            | error f => rfl
            | ok v =>
                obtain ⟨head, r⟩ := v
                cases head with
                | selfClosing name => rfl
                | opening name =>
                    dsimp only [bind, Except.bind]
                    cases readElements d σ.tag r with
                    | error f => rfl
                    | ok inside =>
                        dsimp only
                        cases closingTag (c :: s) name inside.2 <;> rfl
  options k seen s := by
    dsimp only [reader, Readers.optionRound]
    rw [readOptions_eq]
    cases optionHead d k seen s with
    | error f => rfl
    | ok v =>
        obtain ⟨key?, r⟩ := v
        cases key? with
        | none => rfl
        | some key =>
            dsimp only [bind, Except.bind]
            cases readElements d (.branch k.plural) r with
            | error f => rfl
            | ok branch =>
                dsimp only
                cases expect '\x7d' .branchEndExpected ('\x7b' :: r) branch.2 <;> rfl

section Rounds

variable {d : Dialect} {σ : Scope} {s r : List Char}

theorem consumes_of_elementRound {item : Item}
    (h : (reader d).elementRound d σ s = .ok (some (item, r))) : Consumes s r := by
  cases s with
  | nil => cases h
  | cons c s =>
      rw [consumes_cons]
      dsimp only [Readers.elementRound] at h
      cases hlead : lead d σ c s.head? with
      | stop =>
          rw [hlead] at h
          cases h
      | strayClosingTag =>
          rw [hlead] at h
          cases h
      | text =>
          rw [hlead] at h
          cases h
          exact literalText_cons_suffix hlead
      | pound =>
          rw [hlead] at h
          cases h
          exact List.suffix_refl _
      | argument =>
          rw [hlead] at h
          obtain ⟨⟨head, s₁⟩, hhead, h⟩ := bind_eq_ok.mp h
          have hs₁ := suffix_of_argumentHead hhead
          cases head with
          | whole e =>
              cases h
              exact hs₁
          | select name | plural name kind n =>
              obtain ⟨⟨os, s₂⟩, hos, h⟩ := bind_eq_ok.mp h
              cases h
              exact (suffix_of_readOptions hos).trans hs₁
      | openingTag =>
          rw [hlead] at h
          obtain ⟨⟨head, s₁⟩, hhead, h⟩ := bind_eq_ok.mp h
          have hs₁ := suffix_of_tagHead hhead
          cases head with
          | selfClosing name =>
              cases h
              exact hs₁
          | opening name =>
              obtain ⟨⟨children, s₂⟩, hinside, h⟩ := bind_eq_ok.mp h
              obtain ⟨s₃, hclose, h⟩ := bind_eq_ok.mp h
              cases h
              exact (suffix_of_closingTag hclose).trans ((suffix_of_readElements hinside).trans hs₁)

theorem consumes_of_optionRound {k : Chooser} {seen : List String}
    {branch? : Option (String × List Element)}
    (h : (reader d).optionRound d k seen s = .ok (branch?, r)) : Consumes s r := by
  obtain ⟨⟨key?, s₁⟩, hhead, h⟩ := bind_eq_ok.mp h
  have hs₁ := consumes_of_optionHead hhead
  cases key? with
  | none =>
      cases h
      exact hs₁
  | some key =>
      obtain ⟨⟨es, s₂⟩, hbody, h⟩ := bind_eq_ok.mp h
      obtain ⟨s₃, hclose, h⟩ := bind_eq_ok.mp h
      cases h
      exact hs₁.trans_suffix ((suffix_of_expect hclose).trans (suffix_of_readElements hbody))

end Rounds

/-! ### One solution

What a round gives depends on the loops inside only at shorter texts. Two solutions that agree on all
shorter texts therefore go through the same round, and then through the same rounds. -/

section Uniqueness

variable {d : Dialect} {R R' : Readers} {s : List Char}

theorem elementRound_congr {σ : Scope}
    (helements : ∀ σ r, r.length < s.length → R.elements σ r = R'.elements σ r)
    (hoptions : ∀ k seen r, r.length < s.length → R.options k seen r = R'.options k seen r) :
    R.elementRound d σ s = R'.elementRound d σ s := by
  cases s with
  | nil => rfl
  | cons c s =>
      dsimp only [Readers.elementRound]
      cases lead d σ c s.head? with
      | stop | strayClosingTag | text | pound => rfl
      | argument =>
          dsimp only
          cases hhead : argumentHead s with
          | error f => rfl
          | ok v =>
              obtain ⟨head, r⟩ := v
              have hlt : r.length < (c :: s).length := (consumes_cons.mpr (suffix_of_argumentHead hhead)).length_lt
              cases head with
              | whole e => rfl
              | select name | plural name kind n =>
                  dsimp only [bind, Except.bind]
                  rw [hoptions _ _ _ hlt]
      | openingTag =>
          dsimp only
          cases hhead : tagHead s with
          | error f => rfl
          | ok v =>
              obtain ⟨head, r⟩ := v
              have hlt : r.length < (c :: s).length := (consumes_cons.mpr (suffix_of_tagHead hhead)).length_lt
              cases head with
              | selfClosing name => rfl
              | opening name =>
                  dsimp only [bind, Except.bind]
                  rw [helements _ _ hlt]

theorem optionRound_congr {k : Chooser} {seen : List String}
    (helements : ∀ σ r, r.length < s.length → R.elements σ r = R'.elements σ r) :
    R.optionRound d k seen s = R'.optionRound d k seen s := by
  dsimp only [Readers.optionRound]
  cases hhead : optionHead d k seen s with
  | error f => rfl
  | ok v =>
      obtain ⟨key?, r⟩ := v
      cases key? with
      | none => rfl
      | some key =>
          dsimp only [bind, Except.bind]
          rw [helements _ _ (consumes_of_optionHead hhead).length_lt]

theorem agree_of_loops (h : R.Loops d) (n : Nat) : ∀ s : List Char, s.length = n →
    (∀ σ, R.elements σ s = readElements d σ s) ∧ ∀ k seen, R.options k seen s = readOptions d k seen s := by
  induction n using Nat.strongRecOn with
  | ind n ih =>
      rintro s rfl
      have helements : ∀ σ r, r.length < s.length → R.elements σ r = (reader d).elements σ r :=
        fun σ r hlt => (ih r.length hlt r rfl).1 σ
      have hoptions : ∀ k seen r, r.length < s.length → R.options k seen r = (reader d).options k seen r :=
        fun k seen r hlt => (ih r.length hlt r rfl).2 k seen
      refine ⟨fun σ => ?_, fun k seen => ?_⟩
      · have hreader : readElements d σ s = _ := (reader_loops d).elements σ s
        rw [h.elements σ s, hreader, elementRound_congr helements hoptions]
        cases hround : (reader d).elementRound d σ s with
        | error f => rfl
        | ok round =>
            cases round with
            | none => rfl
            | some next =>
                obtain ⟨item, r⟩ := next
                have hlt := (consumes_of_elementRound hround).length_lt
                dsimp only [bind, Except.bind]
                rw [helements σ r hlt]
      · have hreader : readOptions d k seen s = _ := (reader_loops d).options k seen s
        rw [h.options k seen s, hreader, optionRound_congr helements]
        cases hround : (reader d).optionRound d k seen s with
        | error f => rfl
        | ok round =>
            obtain ⟨branch?, r⟩ := round
            cases branch? with
            | none => rfl
            | some branch =>
                have hlt := (consumes_of_optionRound hround).length_lt
                dsimp only [bind, Except.bind]
                rw [hoptions k _ r hlt]

theorem loops_iff : R.Loops d ↔ R = reader d := by
  constructor
  · intro h
    have helements : R.elements = readElements d := by
      funext σ s
      exact (agree_of_loops h s.length s rfl).1 σ
    have hoptions : R.options = readOptions d := by
      funext k seen s
      exact (agree_of_loops h s.length s rfl).2 k seen
    cases R
    subst helements hoptions
    rfl
  · rintro rfl
    exact reader_loops d

end Uniqueness

/-- A round of a loop about to begin, and the text that is left. -/
inductive Call where
  | elements (σ : Scope) (left : List Char)
  | options (k : Chooser) (seen : List String) (left : List Char)

/-- The selection that the head of an argument begins, if it begins one. -/
def Head.chooser? (start : List Char) : Head → Option Chooser
  | .whole _ => none
  | .select name => some ⟨name, false, start⟩
  | .plural name _ _ => some ⟨name, true, start⟩

namespace Call

/-- The text that is left. -/
def left : Call → List Char
  | .elements _ s => s
  | .options _ _ s => s

/-- What is left when the loop is left, or how it fails. -/
def outcome (d : Dialect) : Call → Except Failure (List Char)
  | .elements σ s => (readElements d σ s).map Prod.snd
  | .options k seen s => (readOptions d k seen s).map Prod.snd

/-- The call stands in the text `whole`, and the branches of a selection behind its opening brace. -/
def Inside (whole : List Char) : Call → Prop
  | .elements _ s => s <:+ whole
  | .options k _ s => s <:+ k.start ∧ k.start <:+ whole

end Call

/-- A round of the reader begins another one: the next round of its loop, or the first of a loop inside. -/
inductive Begins (d : Dialect) : Call → Call → Prop
  | next {σ : Scope} {s r : List Char} {item : Item}
      (round : (reader d).elementRound d σ s = .ok (some (item, r))) :
      Begins d (.elements σ s) (.elements σ r)
  | branches {σ : Scope} {c : Char} {s r : List Char} {selection : Head} {k : Chooser}
      (lead : lead d σ c s.head? = .argument) (head : argumentHead s = .ok (selection, r))
      (chooser : selection.chooser? (c :: s) = some k) : Begins d (.elements σ (c :: s)) (.options k [] r)
  | children {σ : Scope} {c : Char} {s r : List Char} {name : String}
      (lead : lead d σ c s.head? = .openingTag) (head : tagHead s = .ok (.opening name, r)) :
      Begins d (.elements σ (c :: s)) (.elements σ.tag r)
  | nextBranch {k : Chooser} {seen : List String} {s r : List Char} {branch : String × List Element}
      (round : (reader d).optionRound d k seen s = .ok (some branch, r)) :
      Begins d (.options k seen s) (.options k (branch.1 :: seen) r)
  | body {k : Chooser} {seen : List String} {s r : List Char} {key : String}
      (head : optionHead d k seen s = .ok (some key, r)) :
      Begins d (.options k seen s) (.elements (.branch k.plural) r)

theorem Head.start_of_chooser? {head : Head} {start : List Char} {k : Chooser}
    (h : head.chooser? start = some k) : k.start = start := by
  cases head with
  | whole e => cases h
  | select name | plural name kind n =>
      cases h
      rfl

namespace Begins

variable {d : Dialect} {a b : Call}

theorem consumes (h : Begins d a b) : Consumes a.left b.left := by
  cases h with
  | next round => exact consumes_of_elementRound round
  | branches lead head chooser => exact consumes_cons.mpr (suffix_of_argumentHead head)
  | children lead head => exact consumes_cons.mpr (suffix_of_tagHead head)
  | nextBranch round => exact consumes_of_optionRound round
  | body head => exact consumes_of_optionHead head

theorem inside {whole : List Char} (h : Begins d a b) (ha : a.Inside whole) : b.Inside whole := by
  have hleft := h.consumes.suffix
  cases h with
  | next round => exact hleft.trans ha
  | branches lead head chooser =>
      rw [← Head.start_of_chooser? chooser] at ha hleft
      exact ⟨hleft, ha⟩
  | children lead head => exact hleft.trans ha
  | nextBranch round => exact ⟨hleft.trans ha.1, ha.2⟩
  | body head => exact hleft.trans (ha.1.trans ha.2)

end Begins

/-- The rounds of the reader on a pattern. -/
def Reached (d : Dialect) (pattern : String) : Call → Prop :=
  Relation.ReflTransGen (Begins d) (.elements .top pattern.toList)

theorem Reached.inside {d : Dialect} {pattern : String} {call : Call} (h : Reached d pattern call) :
    call.Inside pattern.toList := by
  induction h with
  | refl => exact List.suffix_refl _
  | tail _ hbegins ih => exact hbegins.inside ih

/-- A place between two characters of a pattern, or at one of its ends. -/
def AtBoundary (pattern : String) (left : List Char) : Prop :=
  left <:+ pattern.toList ∧
    (String.Pos.Raw.mk (Position.ofRest pattern.toList left).offset).IsValid pattern

theorem atBoundary_of_suffix {pattern : String} {left : List Char} (h : left <:+ pattern.toList) :
    AtBoundary pattern left :=
  ⟨h, Position.isValid_offset_ofRest h⟩

/-- A loop begins at a place of the pattern, and wherever it is left or fails it has not moved back. -/
structure Call.Advances (d : Dialect) (pattern : String) (call : Call) : Prop where
  begins : AtBoundary pattern call.left
  leaves : ∀ r, call.outcome d = .ok r → r <:+ call.left ∧ AtBoundary pattern r
  fails : ∀ f, call.outcome d = .error f →
    f.stop <:+ call.left ∧ AtBoundary pattern f.stop ∧ AtBoundary pattern f.start

theorem map_eq_ok {ε α β : Type} {x : Except ε α} {f : α → β} {b : β} :
    x.map f = .ok b ↔ ∃ a, x = .ok a ∧ f a = b := by
  cases x <;> simp [Except.map]

theorem map_eq_error {ε α β : Type} {x : Except ε α} {f : α → β} {e : ε} :
    x.map f = .error e ↔ x = .error e := by
  cases x <;> simp [Except.map]

theorem Call.Inside.advances {d : Dialect} {pattern : String} {call : Call}
    (h : call.Inside pattern.toList) : call.Advances d pattern := by
  cases call with
  | elements σ s =>
      refine ⟨atBoundary_of_suffix h, fun r hr => ?_, fun f hf => ?_⟩
      · obtain ⟨⟨es, r⟩, hread, rfl⟩ := map_eq_ok.mp hr
        have hsuffix := suffix_of_readElements hread
        exact ⟨hsuffix, atBoundary_of_suffix (hsuffix.trans h)⟩
      · have hwithin := within_of_readElements (map_eq_error.mp hf)
        exact ⟨hwithin.stop_suffix, atBoundary_of_suffix (hwithin.stop_suffix.trans h),
          atBoundary_of_suffix (hwithin.start_suffix.trans h)⟩
  | options k seen s =>
      have hs := h.1.trans h.2
      refine ⟨atBoundary_of_suffix hs, fun r hr => ?_, fun f hf => ?_⟩
      · obtain ⟨⟨os, r⟩, hread, rfl⟩ := map_eq_ok.mp hr
        have hsuffix := suffix_of_readOptions hread
        exact ⟨hsuffix, atBoundary_of_suffix (hsuffix.trans hs)⟩
      · have hwithin := within_of_readOptions h.1 (map_eq_error.mp hf)
        exact ⟨hwithin.stop_suffix, atBoundary_of_suffix (hwithin.stop_suffix.trans hs),
          atBoundary_of_suffix (hwithin.start_suffix.trans h.2)⟩

/-- The loop over elements is left at the end of the text or where something open around it ends. -/
theorem Reads.ends {d : Dialect} {σ : Scope} {s r : List Char} {es : List Element} :
    Reads d σ s es r → ∀ c t, r = c :: t → lead d σ c t.head? = .stop
  | .stop hlead, _, _, rfl => hlead
  | .text _ tail, c, t, h => tail.ends c t h
  | .pound _ tail, c, t, h => tail.ends c t h
  | .whole _ _ tail, c, t, h => tail.ends c t h
  | .select _ _ _ tail, c, t, h => tail.ends c t h
  | .plural _ _ _ tail, c, t, h => tail.ends c t h
  | .selfClosing _ _ tail, c, t, h => tail.ends c t h
  | .tag _ _ _ _ tail, c, t, h => tail.ends c t h

theorem lead_top_ne_stop (d : Dialect) (c : Char) (next? : Option Char) : lead d .top c next? ≠ .stop := by
  unfold lead Scope.top
  grind

theorem readElements_top_of_parse {d : Dialect} {pattern : String} {es : List Element}
    (h : parse d pattern = .ok es) : readElements d .top pattern.toList = .ok (es, []) := by
  obtain ⟨r, hreads⟩ := reads_of_parse h
  cases r with
  | nil => exact hreads.readElements
  | cons c t => exact absurd (hreads.ends c t rfl) (lead_top_ne_stop d c t.head?)

/-- The reader ends on every pattern and reads all of it. The equations of its two loops have the reader as
their only solution; every round that a round begins stands behind at least one more character; literal text
is not empty and takes at least one character away wherever it is read; every loop begins, is left and
fails at a place of the pattern, none of which lies before the place where the loop began; and a pattern
that is accepted has been read up to its end. -/
theorem parse_ends_at_end_of_pattern (d : Dialect) (pattern : String) :
    (∀ R : Readers, R.Loops d ↔ R = reader d) ∧
    (∀ a b, Begins d a b → Consumes a.left b.left) ∧
    (∀ σ c s, lead d σ c s.head? = .text →
      (literalText d σ false (c :: s)).1 ≠ [] ∧ Consumes (c :: s) (literalText d σ false (c :: s)).2) ∧
    (∀ call, Reached d pattern call → call.Advances d pattern) ∧
    ∀ es, parse d pattern = .ok es → readElements d .top pattern.toList = .ok (es, []) ∧
      (Position.ofRest pattern.toList []).offset = pattern.utf8ByteSize := by
  refine ⟨fun R => loops_iff, fun a b h => h.consumes, fun σ c s h => ?_, fun call h => ?_, fun es h => ?_⟩
  · exact ⟨literalText_ne_nil h, consumes_cons.mpr (literalText_cons_suffix h)⟩
  · exact h.inside.advances
  · exact ⟨readElements_top_of_parse h, Position.offset_ofRest_nil pattern⟩

end MessageFormat.Pattern
