import MessageFormat.Proofs.Pattern.Parts
import MessageFormat.Proofs.Pattern.Quoting

/-! The reader undoes the printer: a message that is well formed for a dialect is what its pattern is read
as, in any layout. A derivation is built along the message, for the pattern of the message before any text
that ends it. -/

namespace MessageFormat.Pattern

/-- A text at which whatever is open around it ends. -/
def Ends (d : Dialect) (σ : Scope) (s : List Char) : Prop :=
  ∀ c r, s = c :: r → lead d σ c r.head? = .stop

theorem Ends.reads {d : Dialect} {σ : Scope} {s : List Char} (h : Ends d σ s) : Reads d σ s [] s := by
  cases s with
  | nil => exact .nil
  | cons c s => exact .stop (h c s rfl)

section Texts

variable (layout : Layout) (inPlural : Bool) (s : List Char)

theorem printName_append (name : String) :
    printName layout name ++ s =
      '\x7b' :: (layout.blank 0 ++ (name.toList ++ (layout.blank 1 ++ s))) := by
  simp [printName]

theorem printType_append (keyword : String) :
    printType layout keyword ++ s =
      ',' :: (layout.blank 2 ++ (keyword.toList ++ (layout.blank 3 ++ s))) := by
  simp [printType]

theorem printElement_tag_append (name : String) (children : List Element) :
    printElement layout inPlural (.tag name children) ++ s =
      '<' :: (name.toList ++ (layout.blank 0 ++ '>' ::
        (printElements (layout.part 1) inPlural children ++
          '<' :: '/' :: (name.toList ++ (layout.blank 2 ++ '>' :: s))))) := by
  simp [printElement]

theorem printOptions_cons_append (plural : Bool) (key : String) (branch : List Element)
    (options : List (String × List Element)) :
    printOptions layout plural ((key, branch) :: options) ++ s =
      layout.blank 0 ++ (key.toList ++ (layout.blank 1 ++ '\x7b' ::
        (printElements (layout.part 2) plural branch ++
          '\x7d' :: (printOptions (layout.part 3) plural options ++ s)))) := by
  simp [printOptions]

end Texts

/-- What is printed for an element that is no literal ends a literal before it. -/
theorem endsLiteral_printElement {d : Dialect} {σ : Scope} {layout : Layout} {e : Element}
    (h : ElementWellFormed d σ.inPlural e) (hliteral : e.isLiteral = false) (s : List Char) :
    EndsLiteral d σ (printElement layout σ.inPlural e ++ s) := by
  intro c r hcons
  cases e with
  | literal text => cases hliteral
  | pound =>
      cases hcons
      have hplural : σ.inPlural = true := h
      simp [lead, hplural]
  | tag name children =>
      obtain ⟨htags, hname, -⟩ := h
      rw [printElement_tag_append] at hcons
      obtain ⟨rfl, rfl⟩ := List.cons.inj hcons
      rw [lead_tag htags hname]
      exact Lead.noConfusion
  | argument | number | date | time | select | plural =>
      obtain ⟨rfl, -⟩ : '\x7b' = c ∧ _ := List.cons.inj hcons
      exact Lead.noConfusion

theorem endsLiteral_printElements {d : Dialect} {σ : Scope} {layout : Layout} {es : List Element}
    {s : List Char} (h : WellFormed d σ.inPlural es) (hnext : ∀ next ∈ es.head?, ¬ next.isLiteral)
    (hs : Ends d σ s) : EndsLiteral d σ (printElements layout σ.inPlural es ++ s) := by
  cases es with
  | nil =>
      intro c r hcons
      rw [hs c r hcons]
      exact Lead.noConfusion
  | cons e es =>
      rw [printElements, List.append_assoc]
      exact endsLiteral_printElement h.1 (by simpa using hnext e rfl) _

theorem consLiteral_eq_cons {text : String} {es : List Element} (hne : text ≠ "")
    (h : ∀ next ∈ es.head?, ¬ next.isLiteral) : consLiteral text es = .literal text :: es := by
  unfold consLiteral
  split
  · exact absurd rfl (h _ rfl)
  · exact if_neg hne

theorem ReadsOptions.of_skipWhiteSpace_eq {d : Dialect} {k : Chooser} {seen : List String}
    {s t r : List Char} {os : Options} (h : ReadsOptions d k seen s os r)
    (hskip : skipWhiteSpace s = skipWhiteSpace t) : ReadsOptions d k seen t os r := by
  have hhead : optionHead d k seen s = optionHead d k seen t := by
    unfold optionHead
    rw [hskip]
  cases h with
  | done head => exact .done (hhead ▸ head)
  | branch head body tail => exact .branch (hhead ▸ head) body tail

theorem KeysWellFormed.keysFollow {d : Dialect} {k : Chooser} {keys : List String}
    (h : KeysWellFormed d k.plural keys) : KeysFollow d k [] keys where
  ne_nil := Or.inr h.ne_nil
  nodup := h.nodup
  fresh _ _ := List.not_mem_nil
  other_mem hrequires := Or.inr (h.other_mem hrequires)
  isKey := h.isKey

theorem KeysFollow.of_cons {d : Dialect} {k : Chooser} {seen keys : List String} {key : String}
    (h : KeysFollow d k seen (key :: keys)) : KeysFollow d k (key :: seen) keys where
  ne_nil := Or.inl (List.cons_ne_nil _ _)
  nodup := (List.nodup_cons.mp h.nodup).2
  fresh x hx := by
    intro hmem
    rcases List.mem_cons.mp hmem with rfl | hmem
    · exact (List.nodup_cons.mp h.nodup).1 hx
    · exact h.fresh x (.tail _ hx) hmem
  other_mem hrequires := by
    rcases h.other_mem hrequires with hother | hother
    · exact Or.inl (.tail _ hother)
    · rcases List.mem_cons.mp hother with heq | hother
      · exact Or.inl (heq ▸ .head _)
      · exact Or.inr hother
  isKey x hx := h.isKey x (.tail _ hx)

theorem ends_branch {d : Dialect} {plural : Bool} {r : List Char} :
    Ends d (.branch plural) ('\x7d' :: r) := by
  intro c t hcons
  obtain ⟨rfl, -⟩ := List.cons.inj hcons
  rfl

theorem ends_tag {d : Dialect} (hd : d.tags = true) {σ : Scope} {r : List Char} :
    Ends d σ.tag ('<' :: '/' :: r) := by
  intro c t hcons
  obtain ⟨rfl, rfl⟩ := List.cons.inj hcons
  simp [lead, hd, Scope.tag]

theorem reads_printLiteral {d : Dialect} {σ : Scope} {text : String} {s r : List Char}
    {es : List Element} (hne : text ≠ "") (hnext : ∀ next ∈ es.head?, ¬ next.isLiteral)
    (htail : Reads d σ s es r) (hs : EndsLiteral d σ s) :
    Reads d σ (printLiteral σ.inPlural text.toList ++ s) (.literal text :: es) r := by
  have hread := literalText_printLiteral text.toList hs
  obtain ⟨c, t, ht, hc⟩ := printLiteral_eq_cons σ.inPlural (mt String.toList_eq_nil_iff.mp hne)
  rw [ht, List.cons_append] at hread ⊢
  refine .literal (lead_of_needsQuoting_eq_false hc _) hread htail ?_
  rw [String.ofList_toList]
  exact consLiteral_eq_cons hne hnext

/-- What follows the type of an argument without branches is read as its style. -/
theorem reads_printStyle {d : Dialect} {σ : Scope} {layout : Layout} {name keyword : String}
    {type : ArgumentType} {style? : Option String} {e : Element} {s r : List Char} {es : List Element}
    (hname : IsName name) (htype : ArgumentType.ofKeyword? keyword = some type)
    (hstyle : ∀ text ∈ style?, IsStyle text)
    (hhead : ∀ start t, style start t = .ok (style?, s) → headOfType start name type t = .ok (.whole e, s))
    (htail : Reads d σ s es r) :
    Reads d σ (printName layout name ++ printType layout keyword ++ printStyle layout style? ++ s)
      (e :: es) r := by
  obtain ⟨c, t, ht, hc⟩ : ∃ c t, printStyle layout style? ++ s = c :: t ∧ isDelimiter c := by
    cases style? <;> exact ⟨_, _, rfl, rfl⟩
  have hread := fun start => style_printStyle layout start (r := s) hstyle
  rw [List.append_assoc, List.append_assoc, printName_append, printType_append]
  rw [ht] at hread ⊢
  obtain ⟨start, hargument⟩ := argumentHead_printType layout (r := t) hname htype hc
  exact .whole rfl (hargument.trans (hhead start _ (hread start))) htail

theorem isStyle_name (style : DateStyle) : IsStyle style.name := by
  cases style <;> simp [DateStyle.name, IsStyle, isWhiteSpace, Stops]

theorem isStyle_of_mem_map_name {style? : Option DateStyle} :
    ∀ text ∈ style?.map DateStyle.name, IsStyle text := by
  intro text htext
  obtain ⟨style, -, rfl⟩ := Option.map_eq_some_iff.mp htext
  exact isStyle_name style

theorem bind_ofName?_map_name (style? : Option DateStyle) :
    (style?.map DateStyle.name).bind DateStyle.ofName? = style? := by
  cases style? with
  | none => rfl
  | some style => exact DateStyle.ofName?_name style

/-- A printed offset is told from the keys behind it. -/
theorem offset_printOptions {d : Dialect} (layout : Layout) (n : Int64) (r : List Char)
    {options : List (String × List Element)}
    (h : KeysWellFormed d true (options.map Prod.fst)) :
    ∃ s, offset (skipWhiteSpace
        (printOffset layout n (printOptions (layout.part 6) true options) ++ r)) = .ok (n, s) ∧
      skipWhiteSpace s = skipWhiteSpace (printOptions (layout.part 6) true options ++ r) := by
  cases options with
  | nil => exact absurd rfl h.ne_nil
  | cons option options =>
      obtain ⟨key, branch⟩ := option
      have hkey := h.isKey key (.head _)
      refine offset_printOffset ?_ ?_
      · simp [printOptions]
      · rw [printOptions_cons_append, skipWhiteSpace_key hkey (Layout.isBlank_blank _ 0)]
        exact not_prefix_key hkey (Layout.isBlank_blank _ 1)

mutual

theorem reads_printElement {d : Dialect} (layout : Layout) (σ : Scope) {s r : List Char}
    {es : List Element} (htail : Reads d σ s es r) :
    ∀ e : Element, ElementWellFormed d σ.inPlural e → e.isLiteral = false →
      Reads d σ (printElement layout σ.inPlural e ++ s) (e :: es) r
  | .literal _, _, hliteral => by
      cases hliteral
  | .argument name, h, _ => by
      rw [printElement, List.append_assoc, printName_append]
      refine .whole rfl ?_ htail
      rw [List.singleton_append, argumentHead_name h (layout.isBlank_blank 0) (layout.isBlank_blank 1) rfl]
      rfl
  | .number name style, h, _ => by
      refine reads_printStyle h.1 (show ArgumentType.ofKeyword? _ = some .number from rfl) h.2 ?_ htail
      intro start t hstyle
      simp only [headOfType, hstyle, bind, Except.bind]
  | .date name style, h, _ => by
      refine reads_printStyle h (show ArgumentType.ofKeyword? _ = some .date from rfl) isStyle_of_mem_map_name ?_ htail
      intro start t hstyle
      simp only [headOfType, hstyle, bind, Except.bind, bind_ofName?_map_name]
  | .time name style, h, _ => by
      refine reads_printStyle h (show ArgumentType.ofKeyword? _ = some .time from rfl) isStyle_of_mem_map_name ?_ htail
      intro start t hstyle
      simp only [headOfType, hstyle, bind, Except.bind, bind_ofName?_map_name]
  | .select name options, h, _ => by
      obtain ⟨hname, hkeys, hbranches⟩ := h
      rw [printElement, List.append_assoc, List.append_assoc, printName_append, printType_append,
        List.cons_append]
      obtain ⟨start, hargument⟩ := argumentHead_printType layout (c := ',')
        (r := printOptions (layout.part 6) false options ++ s) hname
        (show ArgumentType.ofKeyword? "select" = some .select from rfl) rfl
      have hhead := hargument.trans (show _ = .ok (.select name, skipWhiteSpace _) by
        rw [headOfType, expect_cons]
        rfl)
      refine .select rfl hhead (.of_skipWhiteSpace_eq ?_ (skipWhiteSpace_idem _).symm) htail
      exact readsOptions_printOptions (layout.part 6) _ s options [] (KeysWellFormed.keysFollow hkeys) hbranches
  | .plural name kind offset options, h, _ => by
      obtain ⟨hname, hkeys, hbranches⟩ := h
      have hkind : ArgumentType.ofKeyword? (pluralKeyword kind) = some (.plural kind) := by
        cases kind <;> rfl
      rw [printElement, List.append_assoc, List.append_assoc, printName_append, printType_append,
        List.cons_append]
      obtain ⟨start, hargument⟩ := argumentHead_printType layout (c := ',')
        (r := printOffset layout offset (printOptions (layout.part 6) true options) ++ s) hname hkind rfl
      obtain ⟨t, hoffset, hskip⟩ := offset_printOptions layout offset s hkeys
      have hhead := hargument.trans (show _ = .ok (.plural name kind offset, t) by
        rw [headOfType, expect_cons]
        simp only [bind, Except.bind, hoffset])
      refine .plural rfl hhead (.of_skipWhiteSpace_eq ?_ hskip.symm) htail
      exact readsOptions_printOptions (layout.part 6) _ s options [] (KeysWellFormed.keysFollow hkeys) hbranches
  | .pound, h, _ => by
      have hplural : σ.inPlural = true := h
      exact .pound (by simp [lead, hplural]) htail
  | .tag name children, h, _ => by
      obtain ⟨htags, hname, hchildren⟩ := h
      rw [printElement_tag_append]
      exact .tag (lead_tag htags hname _) (tagHead_append hname (layout.isBlank_blank 0))
        (reads_printElements (layout.part 1) σ.tag (ends_tag htags) children hchildren)
        (closingTag_append _ hname (layout.isBlank_blank 2)) htail

theorem reads_printElements {d : Dialect} (layout : Layout) (σ : Scope) {s : List Char}
    (hs : Ends d σ s) :
    ∀ es : List Element, WellFormed d σ.inPlural es →
      Reads d σ (printElements layout σ.inPlural es ++ s) es s
  | [], _ => hs.reads
  | e :: es, h => by
      obtain ⟨he, hnext, hes⟩ := h
      have htail := reads_printElements (layout.part 1) σ hs es hes
      rw [printElements, List.append_assoc]
      cases hliteral : e.isLiteral with
      | false => exact reads_printElement (layout.part 0) σ htail e he hliteral
      | true =>
          cases e with
          | literal text =>
              rw [printElement]
              exact reads_printLiteral he (hnext rfl) htail (endsLiteral_printElements hes (hnext rfl) hs)
          | _ => cases hliteral

theorem readsOptions_printOptions {d : Dialect} (layout : Layout) (k : Chooser) (r : List Char) :
    ∀ (options : List (String × List Element)) (seen : List String),
      KeysFollow d k seen (options.map Prod.fst) → BranchesWellFormed d k.plural options →
        ReadsOptions d k seen (printOptions layout k.plural options ++ r) options r
  | [], seen, hkeys, _ => by
      have hne := hkeys.ne_nil.resolve_right (fun hne => hne rfl)
      have hother := fun hrequires => (hkeys.other_mem hrequires).resolve_right List.not_mem_nil
      rw [printOptions, List.append_assoc]
      exact .done (optionHead_close hne hother (layout.isBlank_blank 0))
  | (key, branch) :: options, seen, hkeys, h => by
      have hkey := hkeys.isKey key (.head _)
      have hseen := hkeys.fresh key (.head _)
      rw [printOptions_cons_append]
      exact .branch (optionHead_key hkey hseen (layout.isBlank_blank 0) (layout.isBlank_blank 1))
        (reads_printElements (layout.part 2) (.branch k.plural) ends_branch branch h.1)
        (readsOptions_printOptions (layout.part 3) k r options (key :: seen) hkeys.of_cons h.2)

end

/-- A message that is well formed for a dialect is what its pattern is read as, in any layout. -/
theorem parse_print_of_wellFormed {d : Dialect} (layout : Layout) {es : List Element}
    (h : WellFormed d false es) : parse d (print layout es) = .ok es := by
  apply parse_eq_ok_of_reads (r := [])
  have hend : Ends d .top [] := fun _ _ hcons => nomatch hcons
  have hreads := reads_printElements layout .top hend es h
  rw [List.append_nil] at hreads
  rw [print, String.toList_ofList]
  exact hreads

/-- A message with text to be quoted, a negative offset before a key that begins with a digit, and a key
that is the word before an offset. -/
def intricate : List Element :=
  [.literal "it's \x7b", .plural "n" .cardinal (-1)
    [("2x", [.pound]), ("offset", [.tag "b" [.literal "#'"]]), ("=+07", []), ("other", [.argument "n"])]]

theorem wellFormed_intricate : WellFormed .strict false intricate := by
  have hname : IsName "n" ∧ IsName "2x" ∧ IsName "offset" ∧ IsName "other" := by
    simp [IsName, isWhiteSpace, isDelimiter]
  have hexact : IsExactKey "=+07" :=
    ⟨"+07".toList, 7, rfl, .plus ⟨by decide, List.all_eq_true.mp rfl⟩, by decide, by decide⟩
  have htag : IsTagName "b" := isTagName_of_isTagLetter (c := 'b') rfl rfl
  obtain ⟨hn, hx, hoffset, hother⟩ := hname
  have hkeys : KeysWellFormed .strict true ["2x", "offset", "=+07", "other"] := by
    refine ⟨by simp, by decide, by decide, ?_⟩
    simp only [List.forall_mem_cons]
    exact ⟨.inl hx, .inl hoffset, .inr ⟨rfl, hexact⟩, .inl hother, by simp⟩
  have htags : Dialect.strict.tags = true := rfl
  simp [intricate, WellFormed, ElementWellFormed, BranchesWellFormed, Element.isLiteral, htags, hn, htag,
    hkeys]

theorem parse_print_intricate :
    WellFormed .strict false intricate ∧
      print (fun _ => ⟨[], fun _ h => nomatch h⟩) intricate =
        "it''s '\x7b'\x7bn,plural,offset:-1 2x\x7b#\x7doffset\x7b<b>'#'''</b>\x7d=+07\x7b\x7dother\x7b\x7bn\x7d\x7d\x7d" ∧
      parse .strict (print (fun _ => ⟨[], fun _ h => nomatch h⟩) intricate) = .ok intricate :=
  ⟨wellFormed_intricate, by decide, parse_print_of_wellFormed _ wellFormed_intricate⟩

end MessageFormat.Pattern
