import MessageFormat.Text.Position
import Mathlib.Data.List.Basic

/-! The byte offset of a place. A place of a text is given by what is left of the text there; its offset is
the number of bytes of what comes before, and so it always lies between two characters. -/

namespace MessageFormat.Position

@[simp]
theorem offset_advance (p : Position) (c : Char) : (p.advance c).offset = p.offset + c.utf8Size := by
  unfold advance
  split
  · rfl
  · rfl

theorem offset_foldl_advance (p : Position) (read : List Char) :
    (read.foldl advance p).offset = p.offset + (String.ofList read).utf8ByteSize := by
  induction read generalizing p with
  | nil => simp
  | cons c read ih =>
      rw [List.foldl_cons, ih, offset_advance, String.ofList_cons, String.utf8ByteSize_append,
        String.utf8ByteSize_singleton, Nat.add_assoc]

theorem offset_after (read : List Char) : (after read).offset = (String.ofList read).utf8ByteSize := by
  rw [after, offset_foldl_advance]
  exact Nat.zero_add _

@[simp]
theorem ofRest_append (read rest : List Char) : ofRest (read ++ rest) rest = after read := by
  rw [ofRest, List.length_append, Nat.add_sub_cancel, List.take_left]

/-- The offset of a place lies between two characters of the text. -/
theorem isValid_offset_ofRest {whole : String} {rest : List Char} (h : rest <:+ whole.toList) :
    (String.Pos.Raw.mk (ofRest whole.toList rest).offset).IsValid whole := by
  obtain ⟨read, hread⟩ := h
  have hwhole : whole = String.ofList read ++ String.ofList rest := by
    rw [← String.ofList_append, hread, String.ofList_toList]
  refine String.Pos.Raw.isValid_iff_exists_append.mpr ⟨_, _, hwhole, ?_⟩
  rw [← hread, ofRest_append, offset_after]
  rfl

theorem offset_ofRest_nil (whole : String) : (ofRest whole.toList []).offset = whole.utf8ByteSize := by
  have h := ofRest_append whole.toList []
  rw [List.append_nil] at h
  rw [h, offset_after, String.ofList_toList]

/-- Every line feed and every character of the last line is at least one byte. -/
theorem line_add_column_le_offset_advance {p : Position} (h : p.line + p.column ≤ p.offset) (c : Char) :
    (p.advance c).line + (p.advance c).column ≤ (p.advance c).offset := by
  have hsize := c.utf8Size_pos
  unfold advance
  split
  · dsimp only
    omega
  · dsimp only
    omega

theorem line_add_column_le_offset_after (read : List Char) :
    (after read).line + (after read).column ≤ (after read).offset := by
  suffices hfold : ∀ p : Position, p.line + p.column ≤ p.offset →
      (read.foldl advance p).line + (read.foldl advance p).column ≤ (read.foldl advance p).offset from
    hfold start (Nat.le_refl 0)
  induction read with
  | nil => exact fun p h => h
  | cons c read ih => exact fun p h => ih _ (line_add_column_le_offset_advance h c)

/-- No place of a text lies behind its end. -/
theorem offset_ofRest_le (whole : String) (rest : List Char) :
    (ofRest whole.toList rest).offset ≤ whole.utf8ByteSize := by
  rw [ofRest, offset_after]
  generalize whole.toList.length - rest.length = n
  have hwhole : whole = String.ofList (whole.toList.take n) ++ String.ofList (whole.toList.drop n) := by
    rw [← String.ofList_append, List.take_append_drop, String.ofList_toList]
  have hsize := congrArg String.utf8ByteSize hwhole
  rw [String.utf8ByteSize_append] at hsize
  omega

end MessageFormat.Position
