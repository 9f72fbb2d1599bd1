import MessageFormat.Proofs.Text.Position
import Mathlib.Data.List.DropRight
import Mathlib.Data.Prod.Lex

/-! The line and the column of a place. The line of a place counts the line feeds before it, and its column
counts the characters behind the last of them. Text in front of a text moves all places by its bytes and its line
feeds, and those of the first line by its last line as well. Of two places of a text the one further on has the
greater line, or the greater column in the same line. -/

namespace MessageFormat.Position

/-- The characters behind the last line feed of a text. -/
def lastLine (read : List Char) : List Char :=
  read.rtakeWhile (· ≠ '\n')

@[simp]
theorem lastLine_concat_feed (read : List Char) : lastLine (read ++ ['\n']) = [] :=
  List.rtakeWhile_concat_neg _ _ _ (by simp)

theorem lastLine_concat (read : List Char) {c : Char} (hc : c ≠ '\n') :
    lastLine (read ++ [c]) = lastLine read ++ [c] :=
  List.rtakeWhile_concat_pos _ _ _ (by simpa using hc)

/-- A line has no line feed in it, and what comes before it is nothing or ends with a line feed. -/
theorem exists_append_lastLine (read : List Char) :
    ∃ earlier, read = earlier ++ lastLine read ∧ '\n' ∉ lastLine read ∧
      (earlier = [] ∨ ∃ ended, earlier = ended ++ ['\n']) := by
  induction read using List.reverseRecOn with
  | nil => exact ⟨[], rfl, List.not_mem_nil, Or.inl rfl⟩
  | append_singleton read c ih =>
      by_cases hc : c = '\n'
      · subst hc
        exact ⟨read ++ ['\n'], by simp, by simp, Or.inr ⟨read, rfl⟩⟩
      · obtain ⟨earlier, hread, hfeed, hearlier⟩ := ih
        refine ⟨earlier, ?_, ?_, hearlier⟩
        · rw [lastLine_concat read hc, ← List.append_assoc, ← hread]
        · rw [lastLine_concat read hc]
          simpa using ⟨hfeed, Ne.symm hc⟩

theorem after_concat (read : List Char) (c : Char) : after (read ++ [c]) = (after read).advance c := by
  simp [after]

theorem line_after (read : List Char) : (after read).line = read.count '\n' := by
  induction read using List.reverseRecOn with
  | nil => rfl
  | append_singleton read c ih =>
      rw [after_concat, advance, List.count_append, ← ih]
      split
      · rename_i hc
        rw [hc]
        rfl
      · rename_i hc
        rw [List.count_eq_zero_of_not_mem (by simpa using Ne.symm hc)]
        rfl

theorem column_after (read : List Char) : (after read).column = (lastLine read).length := by
  induction read using List.reverseRecOn with
  | nil => rfl
  | append_singleton read c ih =>
      rw [after_concat, advance]
      split
      · rename_i hc
        rw [hc, lastLine_concat_feed]
        rfl
      · rename_i hc
        rw [lastLine_concat read hc, List.length_append, ← ih]
        rfl

/-- The place where the part `read` of a text ends: the bytes of the part, its line feeds, and the characters
behind the last of these. -/
structure Behind (p : Position) (read : String) : Prop where
  offset_eq : p.offset = read.utf8ByteSize
  line_eq : p.line = read.toList.count '\n'
  column_eq : p.column = (lastLine read.toList).length

theorem behind_after (read : List Char) : (after read).Behind (.ofList read) where
  offset_eq := offset_after read
  line_eq := by rw [line_after, String.toList_ofList]
  column_eq := by rw [column_after, String.toList_ofList]

/-- The place when the text `before` is put in front of everything. Only in the first line the columns move. -/
def translate (before : String) (p : Position) : Position where
  line := before.toList.count '\n' + p.line
  column := if p.line = 0 then (lastLine before.toList).length + p.column else p.column
  offset := before.utf8ByteSize + p.offset

theorem translate_start (before : String) : start.translate before = after before.toList := by
  obtain ⟨hoffset, hline, hcolumn⟩ := behind_after before.toList
  rw [String.ofList_toList] at hoffset hline hcolumn
  rw [translate, ← hoffset, ← hline, ← hcolumn]
  rfl

theorem translate_advance (before : String) (p : Position) (c : Char) :
    (p.advance c).translate before = (p.translate before).advance c := by
  unfold advance
  split
  · simp [translate, Nat.add_assoc]
  · simp only [translate, Nat.add_assoc]
    split <;> simp [Nat.add_assoc]

theorem after_append (before : String) (read : List Char) :
    after (before.toList ++ read) = (after read).translate before := by
  induction read using List.reverseRecOn with
  | nil =>
      rw [List.append_nil]
      exact (translate_start before).symm
  | append_singleton read c ih =>
      rw [← List.append_assoc, after_concat, ih, after_concat, translate_advance]

theorem ofRest_append_left (before : String) {whole rest : List Char} (h : rest <:+ whole) :
    ofRest (before.toList ++ whole) rest = (ofRest whole rest).translate before := by
  obtain ⟨read, rfl⟩ := h
  rw [← List.append_assoc, ofRest_append, ofRest_append, after_append]

/-! ### Order -/

/-- The line and the column of a place, to be compared by the line first. -/
def lineColumn (p : Position) : ℕ ×ₗ ℕ :=
  toLex (p.line, p.column)

theorem lineColumn_lt_advance (p : Position) (c : Char) : p.lineColumn < (p.advance c).lineColumn := by
  rw [lineColumn, lineColumn, Prod.Lex.toLex_lt_toLex, advance]
  split
  · exact Or.inl (Nat.lt_succ_self _)
  · exact Or.inr ⟨rfl, Nat.lt_succ_self _⟩

theorem lineColumn_le_after_append (read more : List Char) :
    (after read).lineColumn ≤ (after (read ++ more)).lineColumn := by
  induction more using List.reverseRecOn with
  | nil => rw [List.append_nil]
  | append_singleton more c ih =>
      rw [← List.append_assoc, after_concat]
      exact ih.trans (lineColumn_lt_advance _ c).le

/-- A place further on has another line or another column. -/
theorem lineColumn_lt_after_append (read : List Char) {more : List Char} (h : more ≠ []) :
    (after read).lineColumn < (after (read ++ more)).lineColumn := by
  rw [← List.dropLast_append_getLast h, ← List.append_assoc, after_concat]
  exact (lineColumn_le_after_append read more.dropLast).trans_lt (lineColumn_lt_advance _ _)

theorem offset_after_append (read more : List Char) :
    (after (read ++ more)).offset = (after read).offset + (String.ofList more).utf8ByteSize := by
  rw [offset_after, offset_after, String.ofList_append, String.utf8ByteSize_append]

theorem lineColumn_eq_iff_offset_eq (read more : List Char) :
    (after read).lineColumn = (after (read ++ more)).lineColumn ↔
      (after read).offset = (after (read ++ more)).offset := by
  by_cases hmore : more = []
  · subst hmore
    rw [List.append_nil]
    exact iff_of_true rfl rfl
  · have hsize : (String.ofList more).utf8ByteSize ≠ 0 := by
      simpa using hmore
    refine iff_of_false (lineColumn_lt_after_append read hmore).ne ?_
    rw [offset_after_append]
    omega

end MessageFormat.Position
