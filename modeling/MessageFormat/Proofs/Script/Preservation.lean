import MessageFormat.Message
import MessageFormat.Proofs.Pattern.Parts
import MessageFormat.Proofs.Script.Evaluation
import MessageFormat.Proofs.Script.ReadBack

/-! Compiling preserves meaning: the source text of a compiled message is a program, and for every record of
arguments the program gives the text that the message stands for. -/

namespace MessageFormat.Script

open Pattern (ElementWellFormed WellFormed BranchesWellFormed Dialect)
open Program (binding facility)

theorem setting_number (style : Option String) :
    (Formatter.number (.ofStyle style)).setting = Meaning.numberSetting style := by
  unfold NumberStyle.ofStyle
  split
  · rfl
  · rfl
  · rename_i hpercent hinteger
    exact (Meaning.numberSetting.eq_3 style hpercent hinteger).symm

theorem map_fst_ofOptions {host : Host} {locale : String} {record : String → Value host.Object}
    {pound : Option (Value host.Object)} (options : Options) :
    (Meaning.ofOptions host locale record pound options).map Prod.fst = options.map Prod.fst := by
  induction options with
  | nil => rfl
  | cons option options ih => rw [Meaning.ofOptions, List.map_cons, List.map_cons, ih]

section Messages

variable {host : Host} {locale : String} {parameters : List String} {record : String → Value host.Object}

mutual

/-- The value of a pound sign in the meaning is the value of its subject, so that the plural around both need not
be known. -/
theorem renders_element (hfacility : facility ∉ parameters) {d : Dialect} {inPlural : Bool}
    {pound : Option Subject} (hpound : ∀ subject ∈ pound, subject.name ∈ parameters) :
    ∀ e {pieces}, ElementWellFormed d inPlural e → (∀ x ∈ e.mentions, x ∈ parameters) →
      compileElement pound e = some pieces →
        Renders (binding host parameters record) locale pieces
          (Meaning.ofElement host locale record (pound.map (Subject.value record)) e)
  | .literal text, _, _, _, h => by
      cases h
      exact renders_text text
  | .argument name, _, _, hnames, h => by
      cases h
      exact renders_value (hnames name (.head _))
  | .number name style, _, _, hnames, h => by
      cases h
      rw [Meaning.ofElement, ← setting_number]
      exact renders_formatted hfacility _ ⟨name, 0⟩ (hnames name (.head _))
  | .date name style, _, _, hnames, h => by
      cases h
      exact renders_formatted hfacility (.date style) ⟨name, 0⟩ (hnames name (.head _))
  | .time name style, _, _, hnames, h => by
      cases h
      exact renders_formatted hfacility (.time style) ⟨name, 0⟩ (hnames name (.head _))
  | .select name options, _, hwf, hnames, h => by
      obtain ⟨branches, hbranches, h⟩ := Option.bind_eq_some_iff.mp h
      cases h
      have htexts := renders_options hfacility hpound options hwf.2.2
        (fun x hx => hnames x (.tail _ hx)) hbranches
      exact renders_selectPiece (hnames name (.head _)) htexts
  | .plural name kind offset options, _, hwf, hnames, h => by
      obtain ⟨branches, hbranches, h⟩ := Option.bind_eq_some_iff.mp h
      cases h
      have hname := hnames name (.head _)
      have hsubject : ∀ subject ∈ some (Subject.mk name offset), subject.name ∈ parameters := by
        simpa using hname
      have htexts := renders_options hfacility hsubject options hwf.2.2
        (fun x hx => hnames x (.tail _ hx)) hbranches
      refine renders_pluralPiece hfacility kind ⟨name, offset⟩ hname ?_ htexts
      rw [map_fst_ofOptions]
      exact hwf.2.1.isKey
  | .pound, _, _, _, h => by
      obtain ⟨subject, hsubject, h⟩ := Option.bind_eq_some_iff.mp h
      cases h
      subst hsubject
      exact renders_formatted hfacility (.number .plain) subject (hpound subject rfl)
  | .tag name children, _, hwf, hnames, h => by
      obtain ⟨inside, hinside, h⟩ := Option.bind_eq_some_iff.mp h
      cases h
      have hname := hnames name (.head _)
      have hchildren := renders_list hfacility hpound children hwf.2.2
        (fun x hx => hnames x (.tail _ hx)) hinside
      exact renders_tagPieces hname hchildren

theorem renders_list (hfacility : facility ∉ parameters) {d : Dialect} {inPlural : Bool}
    {pound : Option Subject} (hpound : ∀ subject ∈ pound, subject.name ∈ parameters) :
    ∀ es {pieces}, WellFormed d inPlural es → (∀ x ∈ Element.listMentions es, x ∈ parameters) →
      compileList pound es = some pieces →
        Renders (binding host parameters record) locale pieces
          (Meaning.ofElements host locale record (pound.map (Subject.value record)) es)
  | [], _, _, _, h => by
      cases h
      rfl
  | e :: es, _, hwf, hnames, h => by
      obtain ⟨pieces, hpieces, h⟩ := Option.bind_eq_some_iff.mp h
      obtain ⟨rest, hrest, h⟩ := Option.bind_eq_some_iff.mp h
      cases h
      have hhead := renders_element hfacility hpound e hwf.1
        (fun x hx => hnames x (List.mem_append_left _ hx)) hpieces
      have htail := renders_list hfacility hpound es hwf.2.2
        (fun x hx => hnames x (List.mem_append_right _ hx)) hrest
      exact hhead.append htail

theorem renders_options (hfacility : facility ∉ parameters) {d : Dialect} {inPlural : Bool}
    {pound : Option Subject} (hpound : ∀ subject ∈ pound, subject.name ∈ parameters) :
    ∀ options {branches}, BranchesWellFormed d inPlural options →
      (∀ x ∈ Element.optionMentions options, x ∈ parameters) → compileOptions pound options = some branches →
        List.Forall₂ (RendersBranch (binding host parameters record) locale) branches
          (Meaning.ofOptions host locale record (pound.map (Subject.value record)) options)
  | [], _, _, _, h => by
      cases h
      exact .nil
  | (key, branch) :: options, _, hwf, hnames, h => by
      obtain ⟨body, hbody, h⟩ := Option.bind_eq_some_iff.mp h
      obtain ⟨rest, hrest, h⟩ := Option.bind_eq_some_iff.mp h
      cases h
      have hhead := renders_list hfacility hpound branch hwf.1
        (fun x hx => hnames x (List.mem_append_left _ hx)) hbody
      have htail := renders_options hfacility hpound options hwf.2
        (fun x hx => hnames x (List.mem_append_right _ hx)) hrest
      exact .cons ⟨rfl, hhead⟩ htail

end

end Messages

end MessageFormat.Script

namespace MessageFormat.Message

open Script (IsPlain)

/-- Compiling preserves meaning. When the names of a message can be the parameters of a function, its
source text for a locale is a program, which gives for every record of arguments the text that the message
stands for. -/
theorem compile_preserves_meaning {pattern locale : String} {es : List Element}
    (hparse : Pattern.parse .lenient pattern = .ok es) (hlocale : IsPlain locale)
    (hnames : ∀ x ∈ Element.listMentions es,
      TypeExpr.isIdentifier x ∧ x ∉ Program.reservedWords ∧ x ≠ Program.facility) :
    ∃ source program, compile pattern locale = .ok source ∧ Program.read source = some program ∧
      ∀ (host : Host) (record : String → Value host.Object),
        program.run host record = some (Meaning.ofElements host locale record none es) := by
  obtain ⟨r, hreads⟩ := Pattern.reads_of_parse hparse
  have hwf : Pattern.WellFormed .lenient false es := hreads.wellFormed
  have hisName : ∀ x ∈ Element.listMentions es, Program.isName x := by
    intro x hx
    obtain ⟨hidentifier, hreserved, -⟩ := hnames x hx
    simp [Program.isName, hidentifier, hreserved]
  obtain ⟨script, hscript, hreadable⟩ := Script.exists_ofElements? hwf hisName
  refine ⟨script.source locale, script.toProgram locale, ?_, Program.read_source hlocale hreadable, ?_⟩
  · simp [compile, hparse, compileElements_eq, hscript]
  · intro host record
    obtain ⟨body, hbody, rfl⟩ := Option.map_eq_some_iff.mp hscript
    have hmem : ∀ x ∈ Element.listMentions es, x ∈ Element.names es := fun x hx => Element.mem_names.mpr hx
    have hfacility : Program.facility ∉ Element.names es := by
      intro hx
      exact (hnames _ (Element.mem_names.mp hx)).2.2 rfl
    have hpound : ∀ subject ∈ (none : Option Script.Subject), subject.name ∈ Element.names es := by simp
    exact Script.renders_list hfacility hpound es hwf hmem hbody

/-- A plural with a tag and a selection by text inside, both selections without a branch for all other keys. -/
def nested : List Element :=
  [.plural "n" .cardinal 1 [("=0", [.literal "$"]), ("one", [.tag "b" [.pound]]),
    ("few", [.select "g" [("m", [.literal "#"])]])]]

/-- The pattern of that message. -/
def nestedPattern : String :=
  "\x7bn, plural, offset:1 =0 \x7b$\x7d one \x7b<b>#</b>\x7d few \x7b\x7bg, select, m \x7b#\x7d\x7d\x7d\x7d"

theorem parse_nestedPattern : Pattern.parse .lenient nestedPattern = .ok nested := by
  apply Pattern.parse_eq_ok_of_reads (r := [])
  simp only [nestedPattern, String.reduceToList]
  refine .plural rfl rfl (.branch rfl (.literal rfl rfl (.stop rfl) rfl) ?_) .nil
  refine .branch rfl (.tag rfl (Pattern.tagHead_letter rfl rfl) (.pound rfl (.stop rfl))
    (Pattern.closingTag_letter _ rfl rfl) (.stop rfl)) ?_
  exact .branch rfl (.select rfl rfl (.branch rfl (.literal rfl rfl (.stop rfl) rfl) (.done rfl)) (.stop rfl))
    (.done rfl)

theorem compile_preserves_meaning_nested : Pattern.parse .lenient nestedPattern = .ok nested ∧
    ∃ source program, compile nestedPattern "en" = .ok source ∧ Program.read source = some program ∧
      ∀ (host : Host) (record : String → Value host.Object),
        program.run host record = some (Meaning.ofElements host "en" record none nested) := by
  have hlocale : IsPlain "en" := by
    simp [IsPlain, Script.Quotable, Program.isLineTerminator]
  have hnames : ∀ x ∈ ["n", "b", "g"],
      TypeExpr.isIdentifier x ∧ x ∉ Program.reservedWords ∧ x ≠ Program.facility := by
    decide
  exact ⟨parse_nestedPattern, compile_preserves_meaning parse_nestedPattern hlocale hnames⟩

end MessageFormat.Message
