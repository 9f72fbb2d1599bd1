import MessageFormat.Diagnostic
import MessageFormat.Proofs.Pattern.Edges
import MessageFormat.Proofs.Pattern.Spans

/-! What is shown of an error. The line that is shown has lost the carriage return at its end, and behind the
last line feed of a pattern there may be no line to show, while positions count every character up to a line
feed. The caret and the line under the fault keep inside of the shown line all the same, because no fault
begins at a line end and none ends inside of one. -/

namespace MessageFormat.Diagnostic

open Position (lastLine)

section Lines

variable {c : Char} {line s : List Char}

/-- A carriage return before a line feed is not shown. -/
theorem lines_return_feed (s : List Char) : lines ('\r' :: '\n' :: s) = lines ('\n' :: s) := rfl

theorem lines_cons (hfeed : c ≠ '\n') (hreturn : c = '\r' → s.head? ≠ some '\n') :
    lines (c :: s) = (c :: (lines s).headD []) :: (lines s).tail := by
  rw [lines]
  · cases lines s <;> rfl
  · exact hfeed
  · rintro t hc rfl
    exact hreturn hc rfl

theorem lines_eq_singleton (hfeed : '\n' ∉ line) (hne : line ≠ []) : lines line = [line] := by
  induction line with
  | nil => exact absurd rfl hne
  | cons c line ih =>
      rw [List.mem_cons, not_or] at hfeed
      rw [lines_cons (Ne.symm hfeed.1)]
      · by_cases hline : line = []
        · subst hline
          rfl
        · rw [ih hfeed.2 hline]
          rfl
      · exact fun _ hhead => hfeed.2 (List.mem_of_head? hhead)

/-- The first line is shown up to any of its characters that does not belong to a line end. -/
theorem exists_lines_eq_cons (hline : '\n' ∉ line) (hfeed : c ≠ '\n') (hreturn : c ≠ '\r') (s : List Char) :
    ∃ more ls, lines (line ++ c :: s) = (line ++ c :: more) :: ls := by
  induction line with
  | nil => exact ⟨_, _, lines_cons hfeed fun h => absurd h hreturn⟩
  | cons x line ih =>
      rw [List.mem_cons, not_or] at hline
      obtain ⟨more, ls, hlines⟩ := ih hline.2
      refine ⟨more, ls, ?_⟩
      rw [List.cons_append, lines_cons (Ne.symm hline.1), hlines]
      · rfl
      · intro _ hhead
        have hmem := List.mem_of_head? hhead
        cases line with
        | nil => exact hfeed (Option.some.inj hhead)
        | cons y line =>
            cases hhead
            exact hline.2 (.head _)

/-- Every line feed ends a line. -/
theorem exists_lines_append (ended : List Char) : ∃ ls : List (List Char),
    ls.length = (ended ++ ['\n']).count '\n' ∧ ∀ s, lines (ended ++ '\n' :: s) = ls ++ lines s := by
  induction ended with
  | nil => exact ⟨[[]], rfl, fun _ => rfl⟩
  | cons c ended ih =>
      obtain ⟨ls, hlength, hlines⟩ := ih
      by_cases hfeed : c = '\n'
      · subst hfeed
        refine ⟨[] :: ls, by simp [hlength], fun s => ?_⟩
        rw [List.cons_append, lines, hlines]
        rfl
      · have hcount : (c :: ended ++ ['\n']).count '\n' = ls.length := by
          rw [hlength, List.cons_append, List.count_cons_of_ne hfeed]
        by_cases hreturn : c = '\r' ∧ (ended ++ ['\n']).head? = some '\n'
        · refine ⟨ls, hcount.symm, fun s => ?_⟩
          rw [← hlines s, hreturn.1]
          cases ended with
          | nil => exact lines_return_feed s
          | cons x ended =>
              obtain rfl : x = '\n' := Option.some.inj hreturn.2
              exact lines_return_feed _
        · obtain ⟨l, ls, rfl⟩ : ∃ l rest, ls = l :: rest := by
            apply List.exists_cons_of_length_pos
            rw [hlength, List.count_append]
            exact Nat.succ_pos _
          refine ⟨(c :: l) :: ls, by rw [hcount]; rfl, fun s => ?_⟩
          rw [List.cons_append, lines_cons hfeed, hlines]
          · rfl
          · intro hc hhead
            refine hreturn ⟨hc, ?_⟩
            cases ended with
            | nil => rfl
            | cons x ended => exact hhead

end Lines

/-- The line that is shown of a text; it is empty if the text has no such line. -/
def shown (text : List Char) (n : Nat) : List Char :=
  ((lines text)[n]?).getD []

section Shown

variable {read rest : List Char}

/-- The line of a place begins with what has been read of it. -/
theorem shown_append (read rest : List Char) :
    shown (read ++ rest) (read.count '\n') = (lines (lastLine read ++ rest)).headD [] := by
  obtain ⟨earlier, hread, hfeed, hearlier⟩ := Position.exists_append_lastLine read
  have hcount : read.count '\n' = earlier.count '\n' := by
    rw [hread, List.count_append, List.count_eq_zero_of_not_mem hfeed, Nat.add_zero]
  have htext : read ++ rest = earlier ++ (lastLine read ++ rest) := by
    rw [← List.append_assoc, ← hread]
  rw [shown, hcount, htext, List.headD_eq_head?_getD]
  rcases hearlier with rfl | ⟨ended, rfl⟩
  · rw [List.nil_append, List.count_nil, List.head?_eq_getElem?]
  · obtain ⟨ls, hlength, hlines⟩ := exists_lines_append ended
    rw [List.append_assoc, List.singleton_append, hlines, ← hlength, List.getElem?_append_right (Nat.le_refl _),
      Nat.sub_self, List.head?_eq_getElem?]

/-- A character that belongs to no line end is shown, behind what was read of its line before. -/
theorem exists_shown_eq {c : Char} (hc : isWhiteSpace c = false) (read s : List Char) :
    ∃ more, shown (read ++ c :: s) (read.count '\n') = lastLine read ++ c :: more := by
  have hne : ∀ x, isWhiteSpace x = true → c ≠ x := by
    rintro x hx rfl
    rw [hc] at hx
    cases hx
  obtain ⟨-, -, hfeed, -⟩ := Position.exists_append_lastLine read
  obtain ⟨more, ls, hlines⟩ := exists_lines_eq_cons hfeed (hne '\n' rfl) (hne '\r' rfl) s
  exact ⟨more, by rw [shown_append, hlines]; rfl⟩

theorem shown_at_end (read : List Char) : shown read (read.count '\n') = lastLine read := by
  obtain ⟨-, -, hfeed, -⟩ := Position.exists_append_lastLine read
  have hshown := shown_append read []
  rw [List.append_nil, List.append_nil] at hshown
  rw [hshown]
  by_cases hnil : lastLine read = []
  · rw [hnil]
    rfl
  · rw [lines_eq_singleton hfeed hnil]
    rfl

/-- A place at the edge of white space has a column in the shown line, or right behind it. -/
theorem length_lastLine_le_length_shown (h : Pattern.AtEdge (read ++ rest) rest) :
    (lastLine read).length ≤ (shown (read ++ rest) (read.count '\n')).length := by
  rcases h with hstops | ⟨c, hc, hsuffix⟩
  · cases rest with
    | nil => rw [List.append_nil, shown_at_end]
    | cons c rest =>
        obtain ⟨more, hshown⟩ := exists_shown_eq (stops_cons.mp hstops) read rest
        rw [hshown, List.length_append]
        exact Nat.le_add_right _ _
  · obtain ⟨earlier, hearlier⟩ := hsuffix
    obtain rfl : earlier ++ [c] = read := by
      rw [List.append_cons] at hearlier
      exact List.append_cancel_right hearlier
    have hfeed : c ≠ '\n' := by
      rintro rfl
      cases hc
    obtain ⟨more, hshown⟩ := exists_shown_eq hc earlier rest
    have hsingle : [c].count '\n' = 0 := List.count_eq_zero_of_not_mem (by simpa using Ne.symm hfeed)
    have hcount : (earlier ++ [c]).count '\n' = earlier.count '\n' := by
      rw [List.count_append, hsingle, Nat.add_zero]
    rw [Position.lastLine_concat earlier hfeed, hcount, List.append_assoc, List.singleton_append, hshown]
    simp

end Shown

/-! ### The line under the fault -/

section Underline

variable (n : Nat) (e : Pattern.Error)

/-- There is a column for the caret. -/
theorem start_column_lt_endColumn : e.start.column < endColumn n e := by
  unfold endColumn
  split
  · rename_i h
    exact h.2
  · split
    · assumption
    · exact Nat.lt_succ_self _

theorem endColumn_le (h : e.start.line = e.stop.line → e.stop.column ≤ n) :
    endColumn n e ≤ max n (e.start.column + 1) := by
  unfold endColumn
  split
  · rename_i hspan
    exact (h hspan.1).trans (Nat.le_max_left _ _)
  · split
    · exact Nat.le_max_left _ _
    · exact Nat.le_max_right _ _

end Underline

/-- An error is shown with a caret that points into the line above it. What is shown is the number of the line,
the line, the caret and what is wrong. The caret stands in the column of the error, which is at most the length
of the line; behind it there are only underscores, as many as there are columns up to the last one, and so the
whole is no longer than the line or ends with the caret. If the line goes on in the column of the error, it has
there the character of the pattern at which the fault begins. -/
theorem report_points_into_line {d : Pattern.Dialect} {pattern : String} {e : Pattern.Error}
    (h : Pattern.parse d pattern = .error e) :
    ∃ line : List Char, line = ((lines pattern.toList)[e.start.line]?).getD [] ∧
      report pattern e = "ERROR AT LINE " ++ (e.start.line + 1).repr ++ ":\n" ++ .ofList line ++ "\n" ++
        .ofList (underline line e) ++ "\n" ++ e.cause.message ++ " (" ++ e.cause.code ++ ")\n\n" ∧
      e.start.column ≤ line.length ∧
      (∃ n, underline line e = List.replicate e.start.column ' ' ++ '^' :: List.replicate n '_' ∧
        endColumn line.length e = e.start.column + 1 + n) ∧
      (underline line e).length ≤ max line.length (e.start.column + 1) ∧
      (e.start.column < line.length → ∃ (before : String) (c : Char) (rest : String),
        pattern = before ++ String.singleton c ++ rest ∧ before.utf8ByteSize = e.start.offset ∧
          (line)[e.start.column]? = some c) := by
  obtain ⟨before, fault, rest, hpattern, hread, hstart, hstop⟩ := Pattern.exists_fault_of_parse h
  obtain ⟨hstops, hedge⟩ := Pattern.tight_of_readElements hread
  have hline : e.start.line = before.count '\n' := by rw [hstart, Position.line_after]
  have hcolumn : e.start.column = (lastLine before).length := by rw [hstart, Position.column_after]
  have hstartLe : e.start.column ≤ (shown pattern.toList e.start.line).length := by
    rw [hcolumn, hline, hpattern]
    exact length_lastLine_le_length_shown (Or.inl hstops)
  have hstopLe : e.start.line = e.stop.line →
      e.stop.column ≤ (shown pattern.toList e.start.line).length := by
    intro hsame
    rw [hsame, hstop, Position.line_after, Position.column_after]
    rw [hpattern, ← List.append_assoc] at hedge ⊢
    exact length_lastLine_le_length_shown hedge
  have hlt := start_column_lt_endColumn (shown pattern.toList e.start.line).length e
  have hle := endColumn_le _ e hstopLe
  refine ⟨shown pattern.toList e.start.line, rfl, rfl, hstartLe, ⟨_, rfl, by omega⟩, ?_, fun hinside => ?_⟩
  · simp only [underline, List.length_append, List.length_cons, List.length_replicate]
    omega
  · have htext : fault ++ rest ≠ [] := by
      intro hnil
      rw [hcolumn, hline, hpattern, hnil, List.append_nil, shown_at_end] at hinside
      exact Nat.lt_irrefl _ hinside
    obtain ⟨c, more, hcons⟩ := List.exists_cons_of_ne_nil htext
    rw [hcons] at hpattern hstops
    obtain ⟨shownMore, hshown⟩ := exists_shown_eq (stops_cons.mp hstops) before more
    refine ⟨.ofList before, c, .ofList more, ?_, ?_, ?_⟩
    · rw [String.singleton_eq_ofList, ← String.ofList_append, ← String.ofList_append, List.append_assoc,
        List.singleton_append, ← hpattern, String.ofList_toList]
    · rw [hstart, Position.offset_after]
    · rw [hline, hpattern, hshown, hcolumn, List.getElem?_append_right (Nat.le_refl _), Nat.sub_self]
      rfl

/-- An unknown type in a line that ends with a carriage return and a line feed; the fault ends in the next
line. -/
theorem report_points_into_line_returns :
    Pattern.parse .lenient "\x7bn,\r\n  foo\r\n\x7d" = .error ⟨.unknownType "foo", ⟨1, 2, 7⟩, ⟨2, 0, 12⟩⟩ ∧
      report "\x7bn,\r\n  foo\r\n\x7d" ⟨.unknownType "foo", ⟨1, 2, 7⟩, ⟨2, 0, 12⟩⟩ =
        "ERROR AT LINE 2:\n  foo\n  ^__\nUnknown argument type \"foo\" (invalid-argument-type)\n\n" ∧
      ∃ line : List Char, line = ((lines "\x7bn,\r\n  foo\r\n\x7d".toList)[1]?).getD [] ∧ 2 ≤ line.length ∧
        (underline line ⟨.unknownType "foo", ⟨1, 2, 7⟩, ⟨2, 0, 12⟩⟩).length ≤ max line.length 3 := by
  have hread : Pattern.readElements .lenient .top
      ['\x7b', 'n', ',', '\r', '\n', ' ', ' ', 'f', 'o', 'o', '\r', '\n', '\x7d'] =
        .error ⟨.unknownType "foo", ['f', 'o', 'o', '\r', '\n', '\x7d'], ['\x7d']⟩ :=
    Pattern.readElements_argument rfl
  have hparse : Pattern.parse .lenient "\x7bn,\r\n  foo\r\n\x7d" =
      .error ⟨.unknownType "foo", ⟨1, 2, 7⟩, ⟨2, 0, 12⟩⟩ := by
    rw [Pattern.parse_eq]
    simp only [String.reduceToList, hread]
    rfl
  obtain ⟨line, hline, -, hstart, -, hlength, -⟩ := report_points_into_line hparse
  exact ⟨hparse, by decide +kernel, line, hline, hstart, hlength⟩

end MessageFormat.Diagnostic
