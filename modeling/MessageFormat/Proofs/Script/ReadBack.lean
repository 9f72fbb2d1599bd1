import MessageFormat.Proofs.Script.Atoms
import MessageFormat.Proofs.Script.Shape

/-! The source text of a compiled function is read as the program that the function is. Text of a template
is escaped so that no character of it ends the template or opens an expression, and the chain of tests of a
choice is read up to its fallback. -/

namespace MessageFormat.Program

section Expressions

variable {s t : List Char}

theorem readExpr_template {r₁ r₂ : List Char} {parts : List Part} (hs : skipSpaces s = '\x60' :: r₁)
    (h : readParts r₁ = some (parts, r₂)) : readExpr s = some (.template parts, r₂) := by
  rw [readExpr]
  split
  · rename_i r hr
    cases hs.symm.trans hr
    rw [h]
    rfl
  · rename_i hne
    exact absurd hs (hne r₁)

theorem readExpr_atom {r : List Char} {a : Atom} (hs : skipSpaces s = t) (ht : ∀ u, t ≠ '\x60' :: u)
    (ha : readAtom t = some (a, r)) (hr : readComparison r = none) : readExpr s = some (.atom a, r) := by
  subst hs
  rw [readExpr]
  split
  · rename_i u hu
    exact absurd hu (ht u)
  · simp [ha, hr]

theorem readExpr_conditional {r₁ r₂ r₃ r₄ r₅ r₆ r₇ : List Char} {strict : Bool} {left right : Atom}
    {yes no : Expr} (hs : skipSpaces s = t) (ht : ∀ u, t ≠ '\x60' :: u)
    (hleft : readAtom t = some (left, r₁)) (hsign : readComparison r₁ = some (strict, r₂))
    (hright : readAtom r₂ = some (right, r₃)) (hmark : token ['?'] r₃ = some r₄)
    (hyes : readExpr r₄ = some (yes, r₅)) (hcolon : token [':'] r₅ = some r₆)
    (hno : readExpr r₆ = some (no, r₇)) (hlt₄ : r₄.length < s.length) (hlt₆ : r₆.length < s.length) :
    readExpr s = some (.conditional strict left right yes no, r₇) := by
  subst hs
  rw [readExpr]
  split
  · rename_i u hu
    exact absurd hu (ht u)
  · simp [hleft, hsign, hright, hmark, hlt₄, hyes, hcolon, hlt₆, hno]

theorem StartsAtom.ne_template (h : StartsAtom s) : ∀ u, s ≠ '\x60' :: u := by
  obtain ⟨c, t, rfl, -, hc⟩ := h
  intro u hu
  exact hc (List.cons.inj hu).1

/-- Text of spaces alone. -/
def IsSpaces (w : List Char) : Prop :=
  ∀ c ∈ w, c = ' '

theorem isSpaces_nil : IsSpaces [] := by
  simp [IsSpaces]

theorem isSpaces_space : IsSpaces [' '] := by
  simp [IsSpaces]

theorem IsSpaces.skipSpaces {w : List Char} (hw : IsSpaces w) {c : Char} (hc : c ≠ ' ') (s : List Char) :
    Program.skipSpaces (w ++ c :: s) = c :: s :=
  dropWhile_run_append (by simpa [IsSpaces] using hw) (stops_cons.mpr (by simpa using hc))

theorem IsSpaces.skipSpaces_atom {w : List Char} (hw : IsSpaces w) (h : StartsAtom s) :
    Program.skipSpaces (w ++ s) = s := by
  obtain ⟨c, t, rfl, hc, -⟩ := h
  exact hw.skipSpaces hc t

end Expressions

section Parts

variable {r r₁ : List Char} {parts : List Part}

theorem readParts_end (r : List Char) : readParts ('\x60' :: r) = some ([], r) := by
  rw [readParts]

theorem readParts_char {c : Char} (hc : Script.escapeTemplateChar c = [c])
    (h : readParts r = some (parts, r₁)) : readParts (c :: r) = some (.char c :: parts, r₁) := by
  have hplain : c ≠ '\\' ∧ c ≠ '\x60' ∧ c ≠ '$' := by
    refine ⟨?_, ?_, ?_⟩ <;> rintro rfl <;> cases hc
  rw [readParts]
  · rw [h]
    rfl
  · exact hplain.2.1
  · rintro d s rfl
    exact absurd rfl hplain.1
  · rintro s rfl
    exact absurd rfl hplain.2.2

theorem readParts_escaped (c : Char) (h : readParts r = some (parts, r₁)) :
    readParts ('\\' :: c :: r) = some (.char c :: parts, r₁) := by
  rw [readParts, h]
  rfl

/-- Escaped text is read as its characters. -/
theorem readParts_text (s : List Char) (h : readParts r = some (parts, r₁)) :
    readParts (s.flatMap Script.escapeTemplateChar ++ r) = some (s.map .char ++ parts, r₁) := by
  induction s with
  | nil => exact h
  | cons c s ih =>
      rw [List.flatMap_cons, List.append_assoc]
      by_cases hc : Script.escapeTemplateChar c = [c]
      · rw [hc]
        exact readParts_char hc ih
      · have hescape : Script.escapeTemplateChar c = ['\\', c] := by
          unfold Script.escapeTemplateChar at hc ⊢
          split at hc
          · rename_i hspecial
            exact if_pos hspecial
          · exact absurd rfl hc
        rw [hescape]
        exact readParts_escaped c ih

theorem readParts_hole {e : Expr} (t : List Char) (he : readExpr (t ++ '\x7d' :: r) = some (e, '\x7d' :: r))
    (h : readParts r = some (parts, r₁)) :
    readParts ('$' :: '\x7b' :: (t ++ '\x7d' :: r)) = some (.hole e :: parts, r₁) := by
  have hlt : r.length < (t ++ '\x7d' :: r).length := by
    rw [List.length_append, List.length_cons]
    omega
  rw [readParts]
  simp only [he, bind, Option.bind, token_singleton (show '\x7d' ≠ ' ' by decide), if_pos hlt, h]

end Parts

section Pieces

variable {locale : String}

theorem readExpr_emptyText {w : List Char} (hw : IsSpaces w) (r : List Char) :
    readExpr (w ++ '"' :: '"' :: '\x7d' :: r) = some (.atom (.constant (.text "")), '\x7d' :: r) := by
  have hempty : Script.Quotable "" := by simp [Script.Quotable]
  exact readExpr_atom (hw.skipSpaces (by decide) _) (by simp) (readAtom_quote hempty ('\x7d' :: r)) rfl

mutual

theorem readParts_piece (hlocale : Script.IsPlain locale) {r r₁ : List Char} {parts : List Part}
    (hr : readParts r = some (parts, r₁)) : ∀ p, Script.PieceReadable p →
      readParts ((Script.pieceSource locale p).toList ++ r) = some (Script.pieceParts locale p ++ parts, r₁)
  | .text s, _ => by
      simpa [Script.pieceSource, Script.pieceParts, Script.escapeTemplate] using readParts_text s.toList hr
  | .value name, h => by
      have hatom := readExpr_atom (skipSpaces_name h _) (startsAtom_name h _).ne_template
        (readAtom_name h (s := '\x7d' :: r) (stops_cons.mpr rfl)) rfl
      simpa [Script.pieceSource, Script.pieceParts, Script.placeholder] using readParts_hole _ hatom hr
  | .formatted formatter subject, h => by
      have hstarts := startsAtom_formatter locale formatter subject ('\x7d' :: r)
      have hatom := readExpr_atom (isSpaces_nil.skipSpaces_atom hstarts) hstarts.ne_template
        (readAtom_formatter hlocale formatter h ('\x7d' :: r)) rfl
      simpa [Script.pieceSource, Script.pieceParts, Script.placeholder] using readParts_hole _ hatom hr
  | .choice arms none, h => by
      have hexpr := readExpr_arms hlocale (fun hw => readExpr_emptyText hw r) arms h isSpaces_nil
      have hhole := readParts_hole ((Script.armsSource locale arms).toList ++ ['"', '"']) (by simpa using hexpr) hr
      simpa [Script.pieceSource, Script.pieceParts, Script.placeholder] using hhole
  | .choice arms (some body), h => by
      have hbody := readParts_pieces hlocale (readParts_end ('\x7d' :: r)) body h.2
      rw [List.append_nil] at hbody
      have hexpr := readExpr_arms hlocale (fun hw => readExpr_template (hw.skipSpaces (by decide) _) hbody)
        arms h.1 isSpaces_nil
      have hhole := readParts_hole ((Script.armsSource locale arms).toList ++
        '\x60' :: ((Script.piecesSource locale body).toList ++ ['\x60'])) (by simpa using hexpr) hr
      simpa [Script.pieceSource, Script.pieceParts, Script.placeholder, Script.template] using hhole

theorem readParts_pieces (hlocale : Script.IsPlain locale) {r r₁ : List Char} {parts : List Part}
    (hr : readParts r = some (parts, r₁)) : ∀ ps, Script.PiecesReadable ps →
      readParts ((Script.piecesSource locale ps).toList ++ r) = some (Script.piecesParts locale ps ++ parts, r₁)
  | [], _ => by
      simpa [Script.piecesSource, Script.piecesParts] using hr
  | p :: ps, h => by
      have hpiece := readParts_piece hlocale (readParts_pieces hlocale hr ps h.2) p h.1
      simpa [Script.piecesSource, Script.piecesParts] using hpiece

/-- What follows the arms of a choice is read behind the space of the last colon, or at the very front of the
expression when there are no arms: hence behind any number of spaces. -/
theorem readExpr_arms (hlocale : Script.IsPlain locale) {u r : List Char} {e : Expr}
    (hu : ∀ {w : List Char}, IsSpaces w → readExpr (w ++ u) = some (e, r)) :
    ∀ arms, Script.ArmsReadable arms → ∀ {w : List Char}, IsSpaces w →
      readExpr (w ++ ((Script.armsSource locale arms).toList ++ u)) = some (Script.armsExpr locale e arms, r)
  | [], _, w, hw => by
      simpa [Script.armsSource, Script.armsExpr] using hu hw
  | (test, body) :: arms, h, w, hw => by
      obtain ⟨htest, hbody, harms⟩ := h
      have hno := readExpr_arms hlocale hu arms harms isSpaces_space
      have hparts := readParts_pieces hlocale
        (readParts_end (' ' :: ':' :: ' ' :: ((Script.armsSource locale arms).toList ++ u))) body hbody
      rw [List.append_nil] at hparts
      have htext : (Script.armsSource locale ((test, body) :: arms)).toList ++ u =
          (test.source locale).toList ++ ' ' :: '?' :: ' ' :: '\x60' ::
            ((Script.piecesSource locale body).toList ++ '\x60' :: ' ' :: ':' :: ' ' ::
              ((Script.armsSource locale arms).toList ++ u)) := by
        simp [Script.armsSource, Script.template]
      obtain ⟨hstarts, r₁, r₂, hleft, hsign, hright⟩ := readTest hlocale htest ('?' :: ' ' :: '\x60' ::
        ((Script.piecesSource locale body).toList ++ '\x60' :: ' ' :: ':' :: ' ' ::
          ((Script.armsSource locale arms).toList ++ u)))
      rw [htext, Script.armsExpr]
      refine readExpr_conditional (hw.skipSpaces_atom hstarts) hstarts.ne_template hleft hsign hright
        (token_singleton (by decide) _) (readExpr_template rfl hparts) (token_singleton (by decide) _) hno ?_ ?_
      · simp only [List.length_append, List.length_cons]
        omega
      · simp only [List.length_append, List.length_cons]
        omega

end

end Pieces

/-! ### Programs -/

section Programs

variable {names : List String}

theorem ne_brace_of_mem_intercalate (hnames : ∀ x ∈ names, isName x) :
    ∀ c ∈ (",".intercalate names).toList, c ≠ '\x7d' := by
  apply forall_mem_intercalate
  · simp
  · rintro x hx c hc rfl
    exact Bool.false_ne_true (isIdentifierPart_of_mem (hnames x hx) hc)

theorem splitOn_intercalate_names (hne : names ≠ []) (hnames : ∀ x ∈ names, isName x) :
    ((",".intercalate names).toList.splitOn ',').map String.ofList = names := by
  have hcomma : ∀ s ∈ names.map String.toList, ',' ∉ s := by
    intro s hs hmem
    obtain ⟨x, hx, rfl⟩ := List.mem_map.mp hs
    exact Bool.false_ne_true (isIdentifierPart_of_mem (hnames x hx) hmem)
  have hsplit : (",".intercalate names).toList.splitOn ',' = names.map String.toList := by
    rw [String.toList_intercalate]
    exact List.splitOn_intercalate ',' hcomma (by simpa using hne)
  rw [hsplit, List.map_map]
  exact List.map_id'' (fun x => String.ofList_toList) names

/-- The names of the parameters are read from between their braces. -/
theorem readParameters_intercalate (hne : names ≠ []) (hnames : ∀ x ∈ names, isName x)
    (hnodup : names.Nodup) (r : List Char) :
    readParameters ('\x7b' :: ((",".intercalate names).toList ++ '\x7d' :: r)) = some (names, r) := by
  have hbrace : ∀ c ∈ (",".intercalate names).toList, decide (c ≠ '\x7d') = true :=
    fun c hc => decide_eq_true (ne_brace_of_mem_intercalate hnames c hc)
  unfold readParameters
  rw [token_singleton (by decide)]
  dsimp only
  rw [takeWhile_run_append hbrace (stops_cons.mpr rfl), dropWhile_run_append hbrace (stops_cons.mpr rfl),
    token_singleton (by decide), splitOn_intercalate_names hne hnames]
  exact if_pos (by simpa [hnodup] using hnames)

end Programs

theorem read_eq_some {source : String} {s r r₁ r₂ : List Char} {names : List String} {body : List Part}
    (hsource : source.toList = '(' :: s) (hnames : readParameters s = some (names, ')' :: r))
    (harrow : token ['=', '>'] r = some r₁) (hopen : token ['\x60'] r₁ = some r₂)
    (hbody : readParts r₂ = some (body, [])) : read source = some ⟨names, body⟩ := by
  have hend : skipSpaces [] = [] := rfl
  rw [read, hsource]
  simp [hnames, harrow, hopen, hbody, hend]

/-- The source text of a function is read as the program that the function is. -/
theorem read_source {script : Script} {locale : String} (hlocale : Script.IsPlain locale)
    (h : script.Readable) : read (script.source locale) = some (script.toProgram locale) := by
  obtain ⟨parameters, body⟩ := script
  have hbody := readParts_pieces hlocale (readParts_end []) body h.body
  rw [List.append_nil] at hbody
  cases parameters with
  | nil =>
      have htext : (Script.source locale ⟨[], body⟩).toList = '(' :: ')' :: '=' :: '>' :: '\x60' ::
          ((Script.piecesSource locale body).toList ++ ['\x60']) := by
        simp [Script.source, Script.template]
      exact read_eq_some htext rfl rfl rfl hbody
  | cons x names =>
      have htext : (Script.source locale ⟨x :: names, body⟩).toList = '(' :: '\x7b' ::
          ((",".intercalate (x :: names)).toList ++ '\x7d' :: ')' :: ' ' :: '=' :: '>' :: ' ' :: '\x60' ::
            ((Script.piecesSource locale body).toList ++ ['\x60'])) := by
        simp [Script.source, Script.template]
      have hnames := readParameters_intercalate (List.cons_ne_nil x names) h.names h.nodup
      exact read_eq_some htext (hnames _) rfl rfl hbody

end MessageFormat.Program
