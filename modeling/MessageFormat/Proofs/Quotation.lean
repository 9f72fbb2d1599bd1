import MessageFormat.Proofs.Fragment
import MessageFormat.Proofs.Script.StringValue
import MessageFormat.Proofs.Wire.Stability

/-! Whether what is put between quotation marks for a message is a string by the rules of ECMAScript. If the message
was read from a pattern, no key and no name of it has a line end, so that each is written as a string which is worth
the key or the name. From JSON a message may have a key or a name with a line end, and what is written for that is no
string. -/

namespace MessageFormat

namespace Pattern

open LiteralValue (isLineEnd hasLineEnd)

theorem hasLineEnd_eq_false {text : String} (h : ∀ c ∈ text.toList, isWhiteSpace c = false) :
    hasLineEnd text = false := by
  rw [hasLineEnd, List.any_eq_false]
  intro c hc hline
  have hspace := h c hc
  simp only [isLineEnd, Bool.or_eq_true, decide_eq_true_eq] at hline
  rcases hline with rfl | rfl <;> cases hspace

theorem hasLineEnd_of_isName {name : String} (h : IsName name) : hasLineEnd name = false :=
  hasLineEnd_eq_false fun c hc => (h.2 c hc).1

theorem hasLineEnd_of_isTagName {name : String} (h : IsTagName name) : hasLineEnd name = false :=
  hasLineEnd_eq_false fun c hc => isWhiteSpace_of_isTagNameChar (h.2 c hc)

theorem hasLineEnd_of_isKey {plural : Bool} {key : String} (h : IsKey plural key) : hasLineEnd key = false := by
  rcases h with hname | ⟨-, digits, n, hkey, hdigits, -⟩
  · exact hasLineEnd_of_isName hname
  · apply hasLineEnd_eq_false
    rw [hkey]
    exact List.forall_mem_cons.mpr ⟨rfl, Integer.isWhiteSpace_of_denotes hdigits⟩

section WellFormed

variable {d : Dialect}

mutual

/-- No name and no key of a message that was read from a pattern has a line end. -/
theorem hasLineEnd_of_elementWellFormed : ∀ {inPlural} (e : Element), ElementWellFormed d inPlural e →
    ∀ text ∈ e.keys ++ e.mentions, hasLineEnd text = false
  | _, .literal _, _ | _, .pound, _ => by simp [Element.keys, Element.mentions]
  | _, .argument _, h | _, .date _ _, h | _, .time _ _, h | _, .number _ _, ⟨h, _⟩ => by
      simpa [Element.keys, Element.mentions] using hasLineEnd_of_isName h
  | _, .select _ options, ⟨hname, hkeys, hbranches⟩
  | _, .plural _ _ _ options, ⟨hname, hkeys, hbranches⟩ => by
      have hoptions := hasLineEnd_of_branchesWellFormed options hbranches fun key hkey =>
        hasLineEnd_of_isKey (hkeys.isKey key hkey)
      rw [List.forall_mem_append] at hoptions ⊢
      exact ⟨hoptions.1, List.forall_mem_cons.mpr ⟨hasLineEnd_of_isName hname, hoptions.2⟩⟩
  | _, .tag name children, ⟨_, hname, hchildren⟩ => by
      have hinside := hasLineEnd_of_wellFormed children hchildren
      rw [List.forall_mem_append] at hinside ⊢
      exact ⟨hinside.1, List.forall_mem_cons.mpr ⟨hasLineEnd_of_isTagName hname, hinside.2⟩⟩

theorem hasLineEnd_of_wellFormed : ∀ {inPlural} (es : List Element), WellFormed d inPlural es →
    ∀ text ∈ Element.listKeys es ++ Element.listMentions es, hasLineEnd text = false
  | _, [], _ => by simp [Element.listKeys, Element.listMentions]
  | _, e :: es, ⟨he, _, hes⟩ => by
      have hfirst := hasLineEnd_of_elementWellFormed e he
      have hrest := hasLineEnd_of_wellFormed es hes
      rw [List.forall_mem_append] at hfirst hrest
      rw [Element.listKeys, Element.listMentions, List.forall_mem_append, List.forall_mem_append,
        List.forall_mem_append]
      exact ⟨⟨hfirst.1, hrest.1⟩, hfirst.2, hrest.2⟩

theorem hasLineEnd_of_branchesWellFormed : ∀ {inPlural} (options : Options), BranchesWellFormed d inPlural options →
    (∀ key ∈ options.map Prod.fst, hasLineEnd key = false) →
      ∀ text ∈ Element.optionKeys options ++ Element.optionMentions options, hasLineEnd text = false
  | _, [], _, _ => by simp [Element.optionKeys, Element.optionMentions]
  | _, (key, branch) :: options, ⟨hbranch, hoptions⟩, hkeys => by
      rw [List.map_cons, List.forall_mem_cons] at hkeys
      have hfirst := hasLineEnd_of_wellFormed branch hbranch
      have hrest := hasLineEnd_of_branchesWellFormed options hoptions hkeys.2
      rw [List.forall_mem_append] at hfirst hrest
      rw [Element.optionKeys, Element.optionMentions, List.forall_mem_append, List.forall_mem_cons,
        List.forall_mem_append, List.forall_mem_append]
      exact ⟨⟨hkeys.1, hfirst.1, hrest.1⟩, hfirst.2, hrest.2⟩

end

end WellFormed

theorem hasLineEnd_of_parse {d : Dialect} {pattern : String} {es : List Element} (h : parse d pattern = .ok es) :
    ∀ text ∈ Element.listKeys es ++ Element.listMentions es, hasLineEnd text = false := by
  obtain ⟨r, hreads⟩ := reads_of_parse h
  exact hasLineEnd_of_wellFormed es hreads.wellFormed

end Pattern

/-! ### What is quoted for a message -/

/-- What is written for a message puts `text` between quotation marks: the source text of its function for the
locale does, or the text of the type of its arguments. -/
def Quoted (es : List Element) (locale text : String) : Prop :=
  (∃ script, Script.ofElements? es = some script ∧ .quoted text ∈ script.fragments locale) ∨
    .quoted text ∈ (TypeExpr.ofElements es).fragments

theorem Quoted.mem {es : List Element} {locale text : String} (h : Quoted es locale text) :
    text ∈ Element.listKeys es ∨ text ∈ Element.listMentions es ∧ TypeExpr.isIdentifier text = false := by
  rcases h with ⟨script, hscript, hquoted⟩ | hquoted
  · exact Or.inl (Script.quotes_fragments hscript text hquoted)
  · exact TypeExpr.quotes_fragments es text hquoted

open LiteralValue (hasLineEnd string? utf16)

/-- What is written for a message falls into stretches. Each text that is put between quotation marks there is a
key of the message, or a name that is no identifier; by the rules of ECMAScript it is a string exactly when it has
no line end, and then its value is the text. For a message that was read from a pattern it always is one. -/
theorem quoted_text_is_string_iff_no_line_end (es : List Element) (locale : String) :
    (∀ source, Message.compileElements es locale = .ok source →
      ∃ script, Script.ofElements? es = some script ∧ source = Fragment.join (script.fragments locale)) ∧
    Message.typeOfElements es = Fragment.join (TypeExpr.ofElements es).fragments ∧
    (∀ text, Quoted es locale text →
      (text ∈ Element.listKeys es ∨ text ∈ Element.listMentions es ∧ TypeExpr.isIdentifier text = false) ∧
      string? (Script.quote text) = if hasLineEnd text then none else some (utf16 text.toList)) ∧
    ∀ d pattern, Pattern.parse d pattern = .ok es →
      ∀ text, Quoted es locale text → string? (Script.quote text) = some (utf16 text.toList) := by
  refine ⟨?_, ?_, ?_, ?_⟩
  · intro source h
    rw [Message.compileElements_eq] at h
    split at h
    · cases h
    · rename_i script hscript
      cases h
      exact ⟨script, hscript, (Script.join_fragments locale script).symm⟩
  · exact (TypeExpr.join_fragments _).symm
  · exact fun text h => ⟨h.mem, LiteralValue.string?_quote text⟩
  · intro d pattern hparse text h
    have hmem : text ∈ Element.listKeys es ++ Element.listMentions es :=
      List.mem_append.mpr (h.mem.imp_right And.left)
    rw [LiteralValue.string?_quote, Pattern.hasLineEnd_of_parse hparse text hmem]
    rfl

/-- A selection of which the key has a line feed. -/
def lineFeedKey : List Element := [.select "g" [("a\nb", [])]]

theorem read_lineFeedKey :
    Wire.read "[\x7b\"type\":5,\"value\":\"g\",\"options\":\x7b\"a\\nb\":\x7b\"value\":[]\x7d\x7d\x7d]" =
      .ok lineFeedKey := by
  have hkeys : Wire.KeysDistinct lineFeedKey := ⟨⟨by simp, trivial, trivial⟩, trivial⟩
  have hread := Wire.read_render_append .compact hkeys (by decide) (w := "") (by simp)
  rwa [String.append_empty, show Wire.render .compact lineFeedKey =
    "[\x7b\"type\":5,\"value\":\"g\",\"options\":\x7b\"a\\nb\":\x7b\"value\":[]\x7d\x7d\x7d]" by rfl] at hread

/-- Read from JSON, the key is put between quotation marks with its line feed as it is, in the function and in the
type of the message, and is no string. -/
theorem quoted_line_feed_is_no_string :
    Wire.read "[\x7b\"type\":5,\"value\":\"g\",\"options\":\x7b\"a\\nb\":\x7b\"value\":[]\x7d\x7d\x7d]" =
        .ok lineFeedKey ∧
      Message.compileElements lineFeedKey "en" =
        .ok "(\x7bg\x7d) => \x60$\x7bg === \"a\nb\" ? \x60\x60 : \"\"\x7d\x60" ∧
      (∃ script, Script.ofElements? lineFeedKey = some script ∧ .quoted "a\nb" ∈ script.fragments "en") ∧
      Message.typeOfElements lineFeedKey = "\x7b g: \"a\nb\" \x7d" ∧
      .quoted "a\nb" ∈ (TypeExpr.ofElements lineFeedKey).fragments ∧
      string? (Script.quote "a\nb") = none := by
  refine ⟨read_lineFeedKey, rfl, ⟨_, rfl, ?_⟩, rfl, ?_, ?_⟩
  · decide
  · decide
  · rw [LiteralValue.string?_quote]
    rfl

end MessageFormat
