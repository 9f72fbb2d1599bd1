import MessageFormat.Proofs.Pattern.Faults
import MessageFormat.Proofs.Text.Lines

/-! Where an error says that a pattern is wrong. The fault of a reader is a part of the pattern, perhaps an
empty one, and the two positions of the error are the places where this part begins and where it ends. They
are therefore places between two characters, in the order of the text, and their lines and columns are in
that order as well. -/

namespace MessageFormat.Pattern

/-- A pattern that is refused falls into what comes before the fault, the fault itself and the rest, which is
what the reader had not yet read; the positions of the error are the two ends of the fault. -/
theorem exists_fault_of_parse {d : Dialect} {pattern : String} {e : Error}
    (h : parse d pattern = .error e) :
    ∃ before fault rest : List Char, pattern.toList = before ++ (fault ++ rest) ∧
      readElements d .top pattern.toList = .error ⟨e.cause, fault ++ rest, rest⟩ ∧
      e.start = .after before ∧ e.stop = .after (before ++ fault) := by
  rw [parse_eq] at h
  split at h
  · rename_i f hf
    cases h
    obtain ⟨hstart, ⟨fault, hfault⟩, -⟩ := within_of_readElements hf
    obtain ⟨before, hbefore⟩ := hstart
    refine ⟨before, fault, f.stop, ?_, ?_, ?_, ?_⟩
    · rw [hfault, hbefore]
    · rw [hf, hfault]
      rfl
    · rw [Failure.locate, ← hbefore, Position.ofRest_append]
    · rw [Failure.locate, ← hbefore, ← hfault, ← List.append_assoc, Position.ofRest_append]
  · cases h

/-- The two positions of an error enclose a part of the pattern: they lie between two characters and in the
order of the text, each has the line feeds before it for its line and the characters behind the last of these
for its column, and the two are apart in line or column exactly when they are apart in the text. -/
theorem error_encloses_part_of_pattern {d : Dialect} {pattern : String} {e : Error}
    (h : parse d pattern = .error e) :
    (∃ before fault rest : String, pattern = before ++ fault ++ rest ∧ e.start.Behind before ∧
      e.stop.Behind (before ++ fault)) ∧
    e.start.offset ≤ e.stop.offset ∧ e.stop.offset ≤ pattern.utf8ByteSize ∧
    (String.Pos.Raw.mk e.start.offset).IsValid pattern ∧
    (String.Pos.Raw.mk e.stop.offset).IsValid pattern ∧
    e.start.lineColumn ≤ e.stop.lineColumn ∧
    (e.start.lineColumn = e.stop.lineColumn ↔ e.start.offset = e.stop.offset) := by
  obtain ⟨before, fault, rest, hpattern, -, hstart, hstop⟩ := exists_fault_of_parse h
  have hparts : pattern = .ofList before ++ .ofList fault ++ .ofList rest := by
    rw [← String.ofList_append, ← String.ofList_append, List.append_assoc, ← hpattern,
      String.ofList_toList]
  have hbefore := Position.behind_after before
  have hthrough := Position.behind_after (before ++ fault)
  rw [← hstart] at hbefore
  rw [← hstop, String.ofList_append] at hthrough
  have hvalidStart : (String.Pos.Raw.mk e.start.offset).IsValid pattern := by
    refine String.Pos.Raw.isValid_iff_exists_append.mpr ⟨.ofList before, .ofList fault ++ .ofList rest, ?_, ?_⟩
    · rw [hparts, String.append_assoc]
    · rw [hbefore.offset_eq]
      rfl
  have hvalidStop : (String.Pos.Raw.mk e.stop.offset).IsValid pattern := by
    refine String.Pos.Raw.isValid_iff_exists_append.mpr ⟨_, _, hparts, ?_⟩
    rw [hthrough.offset_eq]
    rfl
  refine ⟨⟨_, _, _, hparts, hbefore, hthrough⟩, ?_, ?_, hvalidStart, hvalidStop, ?_, ?_⟩
  · rw [hbefore.offset_eq, hthrough.offset_eq, String.utf8ByteSize_append]
    exact Nat.le_add_right _ _
  · rw [hthrough.offset_eq, hparts]
    simp only [String.utf8ByteSize_append]
    omega
  · rw [hstart, hstop]
    exact Position.lineColumn_le_after_append before fault
  · rw [hstart, hstop]
    exact Position.lineColumn_eq_iff_offset_eq before fault

/-- An unknown type in the second line, behind characters of more than one byte. -/
theorem error_encloses_part_of_pattern_secondLine :
    parse .strict "ï\n\x7bné, foo \x7d" = .error ⟨.unknownType "foo", ⟨1, 5, 9⟩, ⟨1, 9, 13⟩⟩ ∧
      (∃ before fault rest : String, "ï\n\x7bné, foo \x7d" = before ++ fault ++ rest ∧
        Position.Behind ⟨1, 5, 9⟩ before ∧ Position.Behind ⟨1, 9, 13⟩ (before ++ fault)) := by
  have hread : readElements .strict .top ['ï', '\n', '\x7b', 'n', 'é', ',', ' ', 'f', 'o', 'o', ' ', '\x7d'] =
      .error ⟨.unknownType "foo", ['f', 'o', 'o', ' ', '\x7d'], ['\x7d']⟩ := by
    have hargument : readElements .strict .top ['\x7b', 'n', 'é', ',', ' ', 'f', 'o', 'o', ' ', '\x7d'] =
        .error ⟨.unknownType "foo", ['f', 'o', 'o', ' ', '\x7d'], ['\x7d']⟩ :=
      readElements_argument rfl
    have htext : (literalText .strict .top false
        ['ï', '\n', '\x7b', 'n', 'é', ',', ' ', 'f', 'o', 'o', ' ', '\x7d']).2 =
          ['\x7b', 'n', 'é', ',', ' ', 'f', 'o', 'o', ' ', '\x7d'] := rfl
    rw [readElements_text rfl, htext, hargument]
    rfl
  have hparse : parse .strict "ï\n\x7bné, foo \x7d" =
      .error ⟨.unknownType "foo", ⟨1, 5, 9⟩, ⟨1, 9, 13⟩⟩ := by
    rw [parse_eq]
    simp only [String.reduceToList, hread]
    rfl
  exact ⟨hparse, (error_encloses_part_of_pattern hparse).1⟩

end MessageFormat.Pattern
