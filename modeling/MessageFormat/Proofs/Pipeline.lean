import MessageFormat.Proofs.Frontends
import MessageFormat.Proofs.Pattern.Strictness
import MessageFormat.Proofs.Wire.Stability

/-! The command in two steps does what it does in one. A first run turns a message into JSON; a second run that
reads this JSON, line feed and all, ends as a run on the message itself, whatever it is asked to write. -/

namespace MessageFormat

/-- What the strict reader accepts the lenient one reads the same way. -/
theorem Pattern.parse_dialect_of_strict {message : String} {es : List Element} (h : parse .strict message = .ok es)
    (mode : Command.Mode) : parse mode.dialect message = .ok es := by
  have hlenient : parse .lenient message = .ok es := by
    rcases parse_follows true message with heq | ⟨e, herror, -⟩
    · exact heq.symm.trans h
    · cases herror.symm.trans h
  cases mode with
  | script | types => exact hlenient
  | elements => exact h

namespace Command

/-- A run of the command whose input is a text. -/
def runOn (args : List String) (localeVariable : Option String) (text : String) : Outcome :=
  run args localeVariable (Utf8.decode? (Utf8.encode text))

theorem Config.read_append {config config' : Config} {args : List String} (h : config.read args = .ok config')
    (more : List String) : config.read (args ++ more) = config'.read more := by
  fun_induction Config.read config args with
  | case1 config =>
      cases h
      rfl
  | case2 config args ih | case3 config args ih | case4 config args ih | case5 config args ih =>
      rw [List.cons_append, Config.read]
      exact ih h
  | case7 config locale args ih =>
      rw [List.cons_append, List.cons_append, Config.read]
      exact ih h
  | case6 | case8 | case9 | case10 => cases h

/-- Arguments that are accepted and for which the input is a pattern. -/
structure TakesPattern (args : List String) (localeVariable : Option String) (config : Config) : Prop where
  accepted : (Config.initial localeVariable).read args = .ok config
  fromElements : config.fromElements = false

theorem Config.fromElements_read {config config' : Config} {args : List String}
    (h : config.read args = .ok config') (hflag : "--from-ast" ∉ args) :
    config'.fromElements = config.fromElements := by
  fun_induction Config.read config args with
  | case1 config =>
      cases h
      rfl
  | case2 config args ih | case3 config args ih | case4 config args ih =>
      exact ih h fun hmem => hflag (.tail _ hmem)
  | case5 config args ih => exact absurd (.head _) hflag
  | case7 config locale args ih => exact ih h fun hmem => hflag (.tail _ (.tail _ hmem))
  | case6 | case8 | case9 | case10 => cases h

variable {args : List String} {localeVariable : Option String} {config : Config}

/-- The input is a pattern unless one of the arguments says otherwise. -/
theorem takesPattern_of_notMem (h : (Config.initial localeVariable).read args = .ok config)
    (hflag : "--from-ast" ∉ args) : TakesPattern args localeVariable config :=
  ⟨h, Config.fromElements_read h hflag⟩

theorem TakesPattern.read_append_fromAst (h : TakesPattern args localeVariable config) :
    (Config.initial localeVariable).read (args ++ ["--from-ast"]) = .ok { config with fromElements := true } := by
  rw [Config.read_append h.accepted]
  rfl

/-! ### Runs -/

theorem runOn_eq_answer (h : (Config.initial localeVariable).read args = .ok config) (text : String) :
    runOn args localeVariable text = answer config (some text) := by
  rw [runOn, run, h, Utf8.decode?_encode]

theorem answer_of_parse {message : String} {es : List Element} (hpattern : config.fromElements = false)
    (h : Pattern.parse config.mode.dialect message = .ok es) :
    answer config (some message) = writeMessage config es := by
  simp only [answer, readMessage, hpattern, h, Bool.false_eq_true, if_false]

/-- What is written of a message does not depend on how it was read. -/
theorem answer_of_read {text : String} {es : List Element} (h : Wire.read text = .ok es) :
    answer { config with fromElements := true } (some text) = writeMessage config es := by
  simp only [answer, readMessage, h, if_true]
  rfl

/-- A run that shows the elements of a message and succeeds has read the message strictly, and its output is the
JSON text of what was read, on a line. -/
theorem exists_of_shown {message : String} (h : TakesPattern args localeVariable config)
    (hmode : config.mode = .elements) (hcode : (runOn args localeVariable message).code = 0) :
    ∃ es layout, Pattern.parse .strict message = .ok es ∧
      (runOn args localeVariable message).stdout = Wire.render layout es ++ "\n" := by
  rw [runOn_eq_answer h.accepted] at hcode ⊢
  cases hparse : Pattern.parse .strict message with
  | error e =>
      simp [answer, readMessage, h.fromElements, hmode, Mode.dialect, hparse, failure] at hcode
  | ok es =>
      have hdialect : Pattern.parse config.mode.dialect message = .ok es := by
        rw [hmode]
        exact hparse
      rw [answer_of_parse h.fromElements hdialect, writeMessage, hmode]
      exact ⟨es, _, rfl, rfl⟩

/-- Two runs do what one does. If a first run shows the elements of a message, in either layout, and the JSON
form of the message is nested at most 127 deep, a second run that is told to read elements and is given the
output of the first one ends exactly as a run with the same arguments on the message. -/
theorem runOn_fromAst_eq {shown : Config} {first : List String} {firstVariable : Option String}
    {message : String} (hfirst : TakesPattern first firstVariable shown) (hshown : shown.mode = .elements)
    (hcode : (runOn first firstVariable message).code = 0)
    (hdepth : ∀ es, Pattern.parse .strict message = .ok es → (Wire.encode es).depth ≤ 127)
    (hargs : TakesPattern args localeVariable config) :
    runOn (args ++ ["--from-ast"]) localeVariable (runOn first firstVariable message).stdout =
      runOn args localeVariable message := by
  obtain ⟨es, layout, hparse, hstdout⟩ := exists_of_shown hfirst hshown hcode
  obtain ⟨r, hreads⟩ := Pattern.reads_of_parse hparse
  have hkeys := Pattern.keysDistinct_of_wellFormed es hreads.wellFormed
  have hread : Wire.read (Wire.render layout es ++ "\n") = .ok es :=
    Wire.read_render_append layout hkeys (Wire.depth_encode es ▸ hdepth es hparse) (by simp [Json.isBlank])
  rw [hstdout, runOn_eq_answer hargs.read_append_fromAst, runOn_eq_answer hargs.accepted, answer_of_read hread,
    answer_of_parse hargs.fromElements (Pattern.parse_dialect_of_strict hparse config.mode)]

/-- A selection by text with an apostrophe and a pound sign in its branches. -/
def selectionPattern : String :=
  "\x7bg, select, m \x7bit''s\x7d other \x7b#\x7d\x7d"

theorem parse_selectionPattern : Pattern.parse .strict selectionPattern =
    .ok [.select "g" [("m", [.literal "it's"]), ("other", [.literal "#"])]] := by
  apply Pattern.parse_eq_ok_of_reads (r := [])
  simp only [selectionPattern, String.reduceToList]
  refine .select rfl rfl (.branch rfl (.literal rfl rfl (.stop rfl) rfl) ?_) .nil
  exact .branch rfl (.literal rfl rfl (.stop rfl) rfl) (.done rfl)

theorem runOn_fromAst_eq_selection :
    (runOn ["--ast", "--pretty"] none selectionPattern).code = 0 ∧
      runOn ["--locale", "de", "--from-ast"] none (runOn ["--ast", "--pretty"] none selectionPattern).stdout =
        runOn ["--locale", "de"] none selectionPattern := by
  have hfirst : TakesPattern ["--ast", "--pretty"] none ⟨.elements, "en", true, false⟩ :=
    takesPattern_of_notMem rfl (by decide)
  have hargs : TakesPattern ["--locale", "de"] none ⟨.script, "de", false, false⟩ :=
    takesPattern_of_notMem rfl (by decide)
  have hcode : (runOn ["--ast", "--pretty"] none selectionPattern).code = 0 := by
    rw [runOn_eq_answer hfirst.accepted, answer_of_parse hfirst.fromElements parse_selectionPattern]
    rfl
  have hdepth : ∀ es, Pattern.parse .strict selectionPattern = .ok es → (Wire.encode es).depth ≤ 127 := by
    intro es hes
    cases parse_selectionPattern.symm.trans hes
    decide
  exact ⟨hcode, runOn_fromAst_eq hfirst rfl hcode hdepth hargs⟩

end Command
end MessageFormat
