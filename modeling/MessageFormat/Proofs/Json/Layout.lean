import MessageFormat.Proofs.Json.RoundTrip
import MessageFormat.Wire.Text

/-! The two layouts of a JSON text. The text on several lines is the text on one line with blanks and line breaks
between its parts, and nowhere inside a string; every line is indented by what is open around it. The parts that a
text can be put together from are given by an inductive relation between the two layouts, which says how many arrays
and objects are open in front of a part and behind it, and what is said of the layouts is said of the parts first. -/

namespace MessageFormat.Json

/-- Where a place in a text lies: outside strings, inside a string, or inside a string behind a backslash. -/
inductive Place where
  | outside
  | inside
  | escaped
  deriving DecidableEq, Repr

/-- The place behind a character. -/
def Place.next : Place → Char → Place
  | .outside, c => if c = '"' then .inside else .outside
  | .inside, c => if c = '\\' then .escaped else if c = '"' then .outside else .inside
  | .escaped, _ => .inside

/-- The place behind a text. -/
def Place.after (p : Place) (s : List Char) : Place :=
  s.foldl Place.next p

/-- The characters of a text, each with its place. -/
def placed : Place → List Char → List (Place × Char)
  | _, [] => []
  | p, c :: s => (p, c) :: placed (p.next c) s

/-- A character that stands between the parts of a text. -/
def isLayout (c : Char) : Bool :=
  c = ' ' || c = '\n'

/-- A text without the spaces and the line breaks outside its strings. -/
def stripped (s : List Char) : List Char :=
  ((placed .outside s).filter fun x => !(x.1 = .outside && isLayout x.2)).map Prod.snd

/-- The characters inside the strings of a text, up to the quotation marks that end them. -/
def quoted (s : List Char) : List Char :=
  ((placed .outside s).filter fun x => x.1 ≠ .outside).map Prod.snd

/-- The characters outside the strings of a text, with the quotation marks that begin them. -/
def unquoted (s : List Char) : List Char :=
  ((placed .outside s).filter fun x => x.1 = .outside).map Prod.snd

/-- The character begins an array or an object. -/
def isOpening (c : Char) : Bool :=
  c = '[' || c = '\x7b'

/-- The character ends an array or an object. -/
def isClosing (c : Char) : Bool :=
  c = ']' || c = '\x7d'

/-- How many more arrays and objects are open behind a text than in front of it. -/
def opened (s : List Char) : Int :=
  (unquoted s).countP isOpening - (unquoted s).countP isClosing

theorem map_snd_placed (p : Place) (s : List Char) : (placed p s).map Prod.snd = s := by
  induction s generalizing p with
  | nil => rfl
  | cons c s ih => rw [placed, List.map_cons, ih]

theorem placed_append (p : Place) (s t : List Char) :
    placed p (s ++ t) = placed p s ++ placed (p.after s) t := by
  induction s generalizing p with
  | nil => rfl
  | cons c s ih => rw [List.cons_append, placed, ih, placed, List.cons_append, Place.after, Place.after, List.foldl_cons]

theorem after_append (p : Place) (s t : List Char) : p.after (s ++ t) = (p.after s).after t :=
  List.foldl_append

section Append

variable {s : List Char} (h : Place.after .outside s = .outside) (t : List Char)

include h

theorem stripped_append : stripped (s ++ t) = stripped s ++ stripped t := by
  rw [stripped, placed_append, h, List.filter_append, List.map_append]
  rfl

theorem unquoted_append : unquoted (s ++ t) = unquoted s ++ unquoted t := by
  rw [unquoted, placed_append, h, List.filter_append, List.map_append]
  rfl

theorem opened_append : opened (s ++ t) = opened s + opened t := by
  rw [opened, opened, opened, unquoted_append h, List.countP_append, List.countP_append]
  omega

end Append

/-- What is inside a string is not stripped. -/
theorem quoted_subset_stripped (s : List Char) : quoted s ⊆ stripped s := by
  apply List.map_subset
  intro x hx
  obtain ⟨hmem, hplace⟩ := List.mem_filter.mp hx
  refine List.mem_filter.mpr ⟨hmem, ?_⟩
  simp only [decide_eq_true_eq] at hplace
  simp [hplace]

theorem mem_of_mem_quoted {s : List Char} {c : Char} (h : c ∈ quoted s) : c ∈ s := by
  obtain ⟨x, hx, rfl⟩ := List.mem_map.mp h
  rw [← map_snd_placed .outside s]
  exact List.mem_map_of_mem (List.mem_filter.mp hx).1

/-- A character that is no layout, begins no string and opens and closes nothing. -/
def isPlain (c : Char) : Bool :=
  !isLayout c && c ≠ '"' && !isOpening c && !isClosing c

theorem isPlain_iff {c : Char} :
    isPlain c ↔ isLayout c = false ∧ c ≠ '"' ∧ isOpening c = false ∧ isClosing c = false := by
  simp only [isPlain, Bool.and_eq_true, Bool.not_eq_true', decide_eq_true_eq, and_assoc]

theorem placed_of_forall_ne {s : List Char} (h : ∀ c ∈ s, c ≠ '"') :
    placed .outside s = s.map (Place.outside, ·) ∧ Place.after .outside s = .outside := by
  induction s with
  | nil => exact ⟨rfl, rfl⟩
  | cons c s ih =>
      obtain ⟨hc, hs⟩ := List.forall_mem_cons.mp h
      have hnext : Place.outside.next c = .outside := if_neg hc
      obtain ⟨hplaced, hafter⟩ := ih hs
      rw [placed, hnext, hplaced, Place.after, List.foldl_cons, hnext]
      exact ⟨rfl, hafter⟩

theorem stripped_of_forall_ne {s : List Char} (h : ∀ c ∈ s, c ≠ '"') : stripped s = s.filter fun c => !isLayout c := by
  rw [stripped, (placed_of_forall_ne h).1, List.filter_map, List.map_map]
  simp [Function.comp_def]

theorem unquoted_of_forall_ne {s : List Char} (h : ∀ c ∈ s, c ≠ '"') : unquoted s = s := by
  rw [unquoted, (placed_of_forall_ne h).1, List.filter_map, List.map_map]
  simp [Function.comp_def]

theorem opened_eq_zero {s : List Char} (h : ∀ c ∈ unquoted s, isOpening c = false ∧ isClosing c = false) :
    opened s = 0 := by
  have hopening : (unquoted s).countP isOpening = 0 := by
    apply List.countP_eq_zero.mpr
    intro c hc
    simp [(h c hc).1]
  have hclosing : (unquoted s).countP isClosing = 0 := by
    apply List.countP_eq_zero.mpr
    intro c hc
    simp [(h c hc).2]
  rw [opened, hopening, hclosing]
  rfl

/-- The text lies inside a string and does not end it. -/
def StaysInside (s : List Char) : Prop :=
  (∀ x ∈ placed .inside s, x.1 ≠ .outside) ∧ Place.after .inside s = .inside

theorem StaysInside.append {s t : List Char} (hs : StaysInside s) (ht : StaysInside t) : StaysInside (s ++ t) := by
  unfold StaysInside
  rw [placed_append, after_append, hs.2]
  exact ⟨List.forall_mem_append.mpr ⟨hs.1, ht.1⟩, ht.2⟩

theorem staysInside_singleton {c : Char} (hslash : c ≠ '\\') (hquote : c ≠ '"') : StaysInside [c] := by
  have hnext : Place.inside.next c = .inside := (if_neg hslash).trans (if_neg hquote)
  refine ⟨?_, hnext⟩
  simp [placed]

/-- A backslash takes the character behind it along. -/
theorem staysInside_pair (c : Char) : StaysInside ['\\', c] := by
  refine ⟨?_, rfl⟩
  simp [placed, Place.next]

theorem staysInside_hexDigit (n : Nat) : StaysInside [hexDigit n] := by
  have hdigit : ∀ m < 16, Nat.digitChar m ≠ '\\' ∧ Nat.digitChar m ≠ '"' := by decide
  obtain ⟨hslash, hquote⟩ := hdigit (n % 16) (Nat.mod_lt n (by decide))
  exact staysInside_singleton hslash hquote

theorem staysInside_escapeChar (c : Char) : StaysInside (escapeChar c) := by
  unfold escapeChar
  iterate 7
    split
    · exact staysInside_pair _
  split
  · have hzero : StaysInside ['0'] := staysInside_singleton (by decide) (by decide)
    have hdigits := (staysInside_hexDigit (c.toNat / 16)).append (staysInside_hexDigit c.toNat)
    exact (staysInside_pair 'u').append (hzero.append (hzero.append hdigits))
  · exact staysInside_singleton ‹_› ‹_›

theorem staysInside_escaped (s : List Char) : StaysInside (s.flatMap escapeChar) := by
  induction s with
  | nil => exact ⟨List.forall_mem_nil _, rfl⟩
  | cons c s ih =>
      rw [List.flatMap_cons]
      exact (staysInside_escapeChar c).append ih

section WriteString

variable (s : String)

theorem after_writeString : Place.after .outside (writeString s) = .outside := by
  have hafter := (staysInside_escaped s.toList).2
  rw [writeString, ← List.singleton_append, after_append, after_append]
  show ((Place.after .inside (s.toList.flatMap escapeChar)).after ['"']) = .outside
  rw [hafter]
  rfl

/-- Of a string only the first quotation mark stands outside. -/
theorem placed_writeString :
    ∃ rest, placed .outside (writeString s) = (.outside, '"') :: rest ∧ ∀ x ∈ rest, x.1 ≠ .outside := by
  obtain ⟨hplaces, hafter⟩ := staysInside_escaped s.toList
  refine ⟨_, rfl, ?_⟩
  show ∀ x ∈ placed .inside (s.toList.flatMap escapeChar ++ ['"']), x.1 ≠ .outside
  rw [placed_append, hafter]
  refine List.forall_mem_append.mpr ⟨hplaces, ?_⟩
  simp [placed]

theorem stripped_writeString : stripped (writeString s) = writeString s := by
  obtain ⟨rest, hplaced, hrest⟩ := placed_writeString s
  have hkeep : (placed .outside (writeString s)).filter (fun x => !(x.1 = .outside && isLayout x.2)) =
      placed .outside (writeString s) := by
    rw [hplaced]
    apply List.filter_eq_self.mpr
    rw [List.forall_mem_cons]
    refine ⟨rfl, fun x hx => ?_⟩
    simp [hrest x hx]
  rw [stripped, hkeep, map_snd_placed]

theorem unquoted_writeString : unquoted (writeString s) = ['"'] := by
  obtain ⟨rest, hplaced, hrest⟩ := placed_writeString s
  have hnone : rest.filter (fun x => x.1 = .outside) = [] := by
    apply List.filter_eq_nil_iff.mpr
    intro x hx
    simp [hrest x hx]
  rw [unquoted, hplaced, List.filter_cons_of_pos (by rfl), hnone]
  rfl

end WriteString

/-- The first text is the second one laid out on several lines, where `n` arrays and objects are open in front of it
and `m` behind it. -/
inductive Laid : Nat → Nat → List Char → List Char → Prop
  | plain {n : Nat} {s : List Char} (plain : ∀ c ∈ s, isPlain c) : Laid n n s s
  | string {n : Nat} (s : String) : Laid n n (writeString s) (writeString s)
  | opening {n : Nat} {c : Char} (hc : isOpening c) : Laid n (n + 1) [c] [c]
  | closing {n : Nat} {c : Char} (hc : isClosing c) : Laid (n + 1) n [c] [c]
  | blank {n : Nat} : Laid n n [' '] []
  /-- A line is as deep as what is open in front of it, less what its first character closes. -/
  | line {n m depth : Nat} {c : Char} {s t : List Char} (first : isLayout c = false)
      (open_eq : n = depth + if isClosing c then 1 else 0) (rest : Laid n m (c :: s) t) :
      Laid n m (Layout.pretty.newline depth ++ c :: s) t
  | append {n m l : Nat} {s s' t t' : List Char} (front : Laid n m s t) (back : Laid m l s' t') :
      Laid n l (s ++ s') (t ++ t')

/-- A character that stands for itself in both layouts. -/
theorem Laid.char {n : Nat} {c : Char} (hc : isPlain c) : Laid n n [c] [c] :=
  .plain (List.forall_mem_singleton.mpr hc)

theorem ne_quote_of_isPlain {s : List Char} (h : ∀ c ∈ s, isPlain c) : ∀ c ∈ s, c ≠ '"' :=
  fun c hc => (isPlain_iff.mp (h c hc)).2.1

theorem ne_quote_of_mem_newline (depth : Nat) : ∀ c ∈ Layout.pretty.newline depth, c ≠ '"' := by
  rintro c hc rfl
  rcases List.mem_cons.mp hc with hc | hc
  · cases hc
  · cases List.eq_of_mem_replicate hc

theorem after_newline (depth : Nat) : Place.after .outside (Layout.pretty.newline depth) = .outside :=
  (placed_of_forall_ne (ne_quote_of_mem_newline depth)).2

theorem eq_of_isOpening {c : Char} (h : isOpening c) : c = '[' ∨ c = '\x7b' := by
  simpa [isOpening] using h

theorem eq_of_isClosing {c : Char} (h : isClosing c) : c = ']' ∨ c = '\x7d' := by
  simpa [isClosing] using h

theorem opened_newline (depth : Nat) : opened (Layout.pretty.newline depth) = 0 := by
  apply opened_eq_zero
  rw [unquoted_of_forall_ne (ne_quote_of_mem_newline depth)]
  intro c hc
  rcases List.mem_cons.mp hc with rfl | hc
  · exact ⟨rfl, rfl⟩
  · rw [List.eq_of_mem_replicate hc]
    exact ⟨rfl, rfl⟩

theorem isLayout_of_mem_newline {depth : Nat} {c : Char} (hc : c ∈ Layout.pretty.newline depth) : isLayout c := by
  rcases List.mem_cons.mp hc with rfl | hc
  · rfl
  · rw [List.eq_of_mem_replicate hc]
    rfl

namespace Laid

variable {n m : Nat} {s t : List Char}

theorem after_eq (h : Laid n m s t) : Place.after .outside s = .outside := by
  induction h with
  | plain hplain => exact (placed_of_forall_ne (ne_quote_of_isPlain hplain)).2
  | string s => exact after_writeString s
  | opening hc => rcases eq_of_isOpening hc with rfl | rfl <;> rfl
  | closing hc => rcases eq_of_isClosing hc with rfl | rfl <;> rfl
  | blank => rfl
  | @line n m depth c s t first open_eq rest ih =>
      rw [after_append, after_newline, ih]
  | append front back ihfront ihback => rw [after_append, ihfront, ihback]

/-- Stripping undoes the layout. -/
theorem stripped_eq (h : Laid n m s t) : stripped s = t := by
  induction h with
  | plain hplain =>
      rw [stripped_of_forall_ne (ne_quote_of_isPlain hplain)]
      apply List.filter_eq_self.mpr
      intro c hc
      rw [(isPlain_iff.mp (hplain c hc)).1]
      rfl
  | string s => exact stripped_writeString s
  | opening hc => rcases eq_of_isOpening hc with rfl | rfl <;> rfl
  | closing hc => rcases eq_of_isClosing hc with rfl | rfl <;> rfl
  | blank => rfl
  | @line n m depth c s t first open_eq rest ih =>
      have hnewline : stripped (Layout.pretty.newline depth) = [] := by
        rw [stripped_of_forall_ne (ne_quote_of_mem_newline depth)]
        apply List.filter_eq_nil_iff.mpr
        intro d hd
        simp [isLayout_of_mem_newline hd]
      rw [stripped_append (after_newline depth), hnewline, ih, List.nil_append]
  | append front back ihfront ihback => rw [stripped_append front.after_eq, ihfront, ihback]

theorem opened_eq (h : Laid n m s t) : opened s = (m : Int) - n := by
  induction h with
  | plain hplain =>
      rw [opened_eq_zero, Int.sub_self]
      rw [unquoted_of_forall_ne (ne_quote_of_isPlain hplain)]
      exact fun c hc => (isPlain_iff.mp (hplain c hc)).2.2
  | string s =>
      rw [opened_eq_zero, Int.sub_self]
      rw [unquoted_writeString]
      exact List.forall_mem_singleton.mpr ⟨rfl, rfl⟩
  | @opening n c hc =>
      have hone : opened [c] = 1 := by rcases eq_of_isOpening hc with rfl | rfl <;> rfl
      omega
  | @closing n c hc =>
      have hone : opened [c] = -1 := by rcases eq_of_isClosing hc with rfl | rfl <;> rfl
      omega
  | blank =>
      rw [Int.sub_self]
      rfl
  | @line n m depth c s t first open_eq rest ih =>
      rw [opened_append (after_newline depth), opened_newline, ih, Int.zero_add]
  | append front back ihfront ihback =>
      rw [opened_append front.after_eq, ihfront, ihback]
      omega

end Laid

/-- The line begins with two spaces for each of the arrays and objects that are open in front of it, without the one
that the first character behind the spaces closes. -/
def Indented (opened : Int) (line : List Char) : Prop :=
  ∃ (depth : Nat) (c : Char) (rest : List Char), line = List.replicate (2 * depth) ' ' ++ c :: rest ∧
    isLayout c = false ∧ opened = depth + if isClosing c then 1 else 0

theorem Indented.append {opened : Int} {line : List Char} (h : Indented opened line) (rest : List Char) :
    Indented opened (line ++ rest) := by
  obtain ⟨depth, c, tail, rfl, hc, hopened⟩ := h
  exact ⟨depth, c, tail ++ rest, by simp, hc, hopened⟩

/-- A line break in two texts that are put together is in the first or in the second of them. -/
theorem append_eq_append_break {s s' front line : List Char} (h : s ++ s' = front ++ '\n' :: line) :
    (∃ behind, front = s ++ behind ∧ s' = behind ++ '\n' :: line) ∨
      ∃ before, s = front ++ '\n' :: before ∧ line = before ++ s' := by
  rcases List.append_eq_append_iff.mp h with ⟨behind, hfront, hs'⟩ | ⟨between, hs, hline⟩
  · exact Or.inl ⟨behind, hfront, hs'⟩
  · cases between with
    | nil => exact Or.inl ⟨[], by simpa using hs.symm, hline.symm⟩
    | cons c between =>
        obtain ⟨rfl, rfl⟩ := List.cons.inj hline
        exact Or.inr ⟨between, hs, rfl⟩

theorem break_mem {s front line : List Char} (h : s = front ++ '\n' :: line) : '\n' ∈ s :=
  h ▸ List.mem_append_right front (.head line)

/-- Behind each line break there is a line that is indented by what is open there. -/
theorem Laid.indented {n m : Nat} {s t : List Char} (h : Laid n m s t) {front line : List Char}
    (hs : s = front ++ '\n' :: line) : Indented (n + opened front) line := by
  induction h generalizing front line with
  | plain hplain => exact absurd (hplain _ (break_mem hs)) (by decide)
  | string s => exact absurd (noControl_writeString s _ (break_mem hs)) (by decide)
  | opening hc =>
      cases List.mem_singleton.mp (break_mem hs)
      exact absurd hc (by decide)
  | closing hc =>
      cases List.mem_singleton.mp (break_mem hs)
      exact absurd hc (by decide)
  | blank => cases List.mem_singleton.mp (break_mem hs)
  | @line n m depth c s t first open_eq rest ih =>
      rcases append_eq_append_break hs with ⟨behind, rfl, hbehind⟩ | ⟨before, hnewline, rfl⟩
      · rw [opened_append (after_newline depth), opened_newline, Int.zero_add]
        exact ih hbehind
      · cases front with
        | nil =>
            obtain ⟨-, rfl⟩ := List.cons.inj hnewline
            have hzero : opened [] = 0 := rfl
            refine ⟨depth, c, s, rfl, first, ?_⟩
            rw [open_eq, hzero, Int.add_zero]
            cases isClosing c <;> rfl
        | cons d front =>
            obtain ⟨-, hspaces⟩ := List.cons.inj hnewline
            cases List.eq_of_mem_replicate (break_mem hspaces)
  | @append n m l s s' t t' hfront hback ihfront ihback =>
      rcases append_eq_append_break hs with ⟨behind, rfl, hbehind⟩ | ⟨before, hbefore, rfl⟩
      · have hopened : (n : Int) + opened (s ++ behind) = m + opened behind := by
          rw [opened_append hfront.after_eq, hfront.opened_eq]
          omega
        rw [hopened]
        exact ihback hbehind
      · exact (ihfront hbefore).append s'

/-! ### Values -/

theorem isPlain_of_isDigit {c : Char} (h : c.isDigit) : isPlain c := by
  have hne : ∀ d : Char, d.isDigit = false → c ≠ d := by
    rintro d hd rfl
    exact Bool.false_ne_true (hd.symm.trans h)
  simp [isPlain, isLayout, isOpening, isClosing, hne ' ' rfl, hne '\n' rfl, hne '"' rfl, hne '[' rfl, hne ']' rfl,
    hne '\x7b' rfl, hne '\x7d' rfl]

theorem isPlain_of_denotes {s : List Char} {n : Int} (h : Integer.Denotes s n) : ∀ c ∈ s, isPlain c := by
  cases h with
  | unsigned digits => exact fun c hc => isPlain_of_isDigit (digits.isDigit c hc)
  | plus digits | minus digits =>
      exact List.forall_mem_cons.mpr ⟨rfl, fun c hc => isPlain_of_isDigit (digits.isDigit c hc)⟩

theorem isPlain_writeNumber (number : Number) : ∀ c ∈ writeNumber number, isPlain c := by
  cases number with
  | integer n => exact isPlain_of_denotes (Integer.denotes_repr n)
  | decimal negative digits exponent =>
      have hdigits : ∀ c ∈ digits.repr.toList, isPlain c := by
        rw [Nat.toList_repr]
        exact fun c hc => isPlain_of_isDigit ((Integer.isDigits_toDigits digits).isDigit c hc)
      have hexponent := isPlain_of_denotes (Integer.denotes_repr exponent)
      have hsign : ∀ c ∈ (if negative then ['-'] else []), isPlain c := by
        cases negative <;> exact List.all_eq_true.mp rfl
      refine List.forall_mem_append.mpr ⟨List.forall_mem_append.mpr ⟨hsign, hdigits⟩, ?_⟩
      exact List.forall_mem_cons.mpr ⟨rfl, hexponent⟩

theorem writeNumber_ne_nil (number : Number) : writeNumber number ≠ [] := by
  cases number with
  | integer n => exact (Integer.denotes_repr n).ne_nil
  | decimal negative digits exponent => simp [writeNumber]

/-- A value begins with a character that is no layout and closes nothing. -/
theorem exists_first (depth : Nat) (json : Json) : ∃ c s, write .pretty depth json = c :: s ∧
    isLayout c = false ∧ isClosing c = false := by
  unfold write
  split
  · exact ⟨'n', _, rfl, rfl, rfl⟩
  · exact ⟨'t', _, rfl, rfl, rfl⟩
  · exact ⟨'f', _, rfl, rfl, rfl⟩
  · rename_i number
    obtain ⟨c, s, hcons⟩ := List.exists_cons_of_ne_nil (writeNumber_ne_nil number)
    obtain ⟨hlayout, -, -, hclosing⟩ := isPlain_iff.mp (isPlain_writeNumber number c (hcons ▸ .head s))
    exact ⟨c, s, hcons, hlayout, hclosing⟩
  · exact ⟨'"', _, rfl, rfl, rfl⟩
  · exact ⟨'[', _, rfl, rfl, rfl⟩
  · exact ⟨'[', _, rfl, rfl, rfl⟩
  · exact ⟨'\x7b', _, rfl, rfl, rfl⟩
  · exact ⟨'\x7b', _, rfl, rfl, rfl⟩

section Parts

variable {depth : Nat} {json : Json} {t : List Char}

theorem laid_value_line (h : Laid depth depth (write .pretty depth json) t) :
    Laid depth depth (Layout.pretty.newline depth ++ write .pretty depth json) t := by
  obtain ⟨c, s, hcons, hlayout, hclosing⟩ := exists_first depth json
  rw [hcons] at h ⊢
  refine .line hlayout ?_ h
  rw [hclosing]
  rfl

theorem laid_closing_line {c : Char} (hc : isClosing c) :
    Laid (depth + 1) depth (Layout.pretty.newline depth ++ [c]) [c] := by
  refine .line ?_ ?_ (.closing hc)
  · rcases eq_of_isClosing hc with rfl | rfl <;> rfl
  · rw [if_pos hc]

theorem laid_member_line (key : String) (h : Laid depth depth (write .pretty depth json) t) :
    Laid depth depth (Layout.pretty.newline depth ++ (writeString key ++ ':' :: ' ' :: write .pretty depth json))
      (writeString key ++ ':' :: t) := by
  have hcolon : Laid depth depth [':'] [':'] := .char rfl
  exact .line rfl rfl (.append (.string key) (hcolon.append (.append .blank h)))

end Parts

mutual

/-- The two texts of a value are two layouts of one text. -/
theorem laid_write (depth : Nat) : ∀ json : Json,
    Laid depth depth (write .pretty depth json) (write .compact depth json)
  | .null | .bool true | .bool false => by
      rw [write, write]
      exact .plain (List.all_eq_true.mp rfl)
  | .number n => by
      rw [write, write]
      exact .plain (isPlain_writeNumber n)
  | .string s => by
      rw [write, write]
      exact .string s
  | .array [] => by
      rw [write, write]
      exact .append (.opening rfl) (.closing rfl)
  | .array (v :: vs) => by
      have hitems := (laid_value_line (laid_write (depth + 1) v)).append (laid_writeItems (depth + 1) vs)
      have h := (Laid.opening (c := '[') rfl).append (hitems.append (laid_closing_line (c := ']') rfl))
      simpa [write, Layout.newline] using h
  | .object [] => by
      have h := (Laid.opening (n := depth) (c := '\x7b') rfl).append (laid_closing_line (c := '\x7d') rfl)
      simpa [write, Layout.newline] using h
  | .object ((key, v) :: ms) => by
      have hmembers := (laid_member_line key (laid_write (depth + 1) v)).append (laid_writeMembers (depth + 1) ms)
      have h := (Laid.opening (c := '\x7b') rfl).append (hmembers.append (laid_closing_line (c := '\x7d') rfl))
      simpa [write, Layout.newline, Layout.blank] using h

theorem laid_writeItems (depth : Nat) : ∀ items : List Json,
    Laid depth depth (writeItems .pretty depth items) (writeItems .compact depth items)
  | [] => by
      rw [writeItems, writeItems]
      exact .plain (List.forall_mem_nil _)
  | v :: vs => by
      have hcomma : Laid depth depth [','] [','] := .char rfl
      have h := hcomma.append ((laid_value_line (laid_write depth v)).append (laid_writeItems depth vs))
      simpa [writeItems, Layout.newline] using h

theorem laid_writeMembers (depth : Nat) : ∀ members : List (String × Json),
    Laid depth depth (writeMembers .pretty depth members) (writeMembers .compact depth members)
  | [] => by
      rw [writeMembers, writeMembers]
      exact .plain (List.forall_mem_nil _)
  | (key, v) :: ms => by
      have hcomma : Laid depth depth [','] [','] := .char rfl
      have h := hcomma.append ((laid_member_line key (laid_write depth v)).append (laid_writeMembers depth ms))
      simpa [writeMembers, Layout.newline, Layout.blank] using h

end

/-- What the two layouts of a value have to do with each other, and how the one on several lines is indented. -/
theorem write_pretty (json : Json) :
    stripped (write .pretty 0 json) = write .compact 0 json ∧
      Indented 0 (write .pretty 0 json) ∧
      ∀ front line, write .pretty 0 json = front ++ '\n' :: line → Indented (opened front) line := by
  have hlaid := laid_write 0 json
  refine ⟨hlaid.stripped_eq, ?_, fun front line htext => ?_⟩
  · obtain ⟨c, s, hcons, hlayout, hclosing⟩ := exists_first 0 json
    exact ⟨0, c, s, hcons, hlayout, by rw [hclosing]; rfl⟩
  · have hline := hlaid.indented htext
    rwa [Int.ofNat_zero, Int.zero_add] at hline

/-- A character inside a string stays when the text is stripped, and the text on one line has no control
characters. -/
theorem noControl_quoted (layout : Layout) (json : Json) : NoControl (quoted (write layout 0 json)) := by
  have hcompact := noControl_write 0 json
  cases layout with
  | compact => exact fun c hc => hcompact c (mem_of_mem_quoted hc)
  | pretty =>
      intro c hc
      have hkept := quoted_subset_stripped _ hc
      rw [(write_pretty json).1] at hkept
      exact hcompact c hkept

end MessageFormat.Json

namespace MessageFormat.Wire

/-- The JSON text of a message on several lines is the one on a single line, but for spaces and line breaks outside
strings. In neither of them there is a control character inside a string. Each line, the first one and those behind
the line breaks, begins with two spaces for each array and each object that is open there, but for the one that the
line begins by closing. -/
theorem render_pretty_is_compact_laid_out (es : List Element) :
    Json.stripped (render .pretty es).toList = (render .compact es).toList ∧
      (∀ layout, ∀ c ∈ Json.quoted (render layout es).toList, 0x20 ≤ c.toNat) ∧
      Json.Indented 0 (render .pretty es).toList ∧
      ∀ front line, (render .pretty es).toList = front ++ '\n' :: line → Json.Indented (Json.opened front) line := by
  obtain ⟨hstripped, hfirst, hlines⟩ := Json.write_pretty (encode es)
  have htext : ∀ layout, (render layout es).toList = Json.write layout 0 (encode es) :=
    fun _ => String.toList_ofList
  simp only [htext]
  exact ⟨hstripped, fun layout => Json.noControl_quoted layout (encode es), hfirst, hlines⟩

theorem render_pretty_is_compact_laid_out_empty :
    (render .pretty [.select "a\n[ " []]).toList =
        "[\n  \x7b\n    \"type\": 5,\n    \"value\": \"a\\n[ \",\n    \"options\": \x7b".toList ++
          '\n' :: "    \x7d\n  \x7d\n]".toList ∧
      Json.Indented 3 "    \x7d\n  \x7d\n]".toList := by
  have htext : (render .pretty [.select "a\n[ " []]).toList =
      "[\n  \x7b\n    \"type\": 5,\n    \"value\": \"a\\n[ \",\n    \"options\": \x7b".toList ++
        '\n' :: "    \x7d\n  \x7d\n]".toList := by
    decide
  exact ⟨htext, (render_pretty_is_compact_laid_out _).2.2.2 _ _ htext⟩

end MessageFormat.Wire
