import MessageFormat.Command
import MessageFormat.Document
import MessageFormat.Proofs.Pattern.WellFormed
import MessageFormat.Proofs.Script.Shape
import MessageFormat.Proofs.Text.Position
import MessageFormat.Proofs.Text.Utf8
import MessageFormat.Proofs.Wire.RoundTrip

/-! The documents and the command give what the functions on messages give. A document is JSON whatever
characters the message has, no zero byte is in it, and it is read back as the result or as the error with its
code, its message and its place; the command writes the same result on a line of its own, or fails and writes
nothing. The bytes of a message are those of its text, so that nothing of it is lost on the way in. -/

namespace MessageFormat

/-- A text is read as a value, with no limit other than the depth of the value itself. -/
def Json.Decodes (text : String) (json : Json) : Prop :=
  ∀ limit, json.depth ≤ limit → readWithin limit text = .ok json

theorem Json.decodes_render {json : Json} (h : Recoverable json) : Decodes (render .compact json) json :=
  fun limit hlimit => (readWithin_render .compact limit h).ok hlimit

/-- A place that lies inside a text, or at its end. -/
structure Position.Inside (text : String) (p : Position) : Prop where
  line_add_column_le : p.line + p.column ≤ p.offset
  offset_le : p.offset ≤ text.utf8ByteSize

theorem Position.inside_ofRest (text : String) (rest : List Char) : Inside text (ofRest text.toList rest) :=
  ⟨line_add_column_le_offset_after _, offset_ofRest_le text rest⟩

theorem Pattern.inside_of_parse {d : Dialect} {pattern : String} {e : Error} (h : parse d pattern = .error e) :
    e.start.Inside pattern ∧ e.stop.Inside pattern := by
  unfold parse at h
  split at h
  · cases h
    exact ⟨Position.inside_ofRest _ _, Position.inside_ofRest _ _⟩
  · cases h

namespace Pattern

variable {d : Dialect}

mutual

theorem elementKeysDistinct_of_wellFormed {inPlural : Bool} :
    ∀ e : Element, ElementWellFormed d inPlural e → Wire.ElementKeysDistinct e
  | .literal _, _ | .argument _, _ | .number _ _, _ | .date _ _, _ | .time _ _, _ | .pound, _ => trivial
  | .select _ options, ⟨_, hkeys, hoptions⟩ =>
    ⟨hkeys.nodup, branchKeysDistinct_of_wellFormed options hoptions⟩
  | .plural _ _ _ options, ⟨_, hkeys, hoptions⟩ =>
    ⟨hkeys.nodup, branchKeysDistinct_of_wellFormed options hoptions⟩
  | .tag _ children, ⟨_, _, hchildren⟩ => keysDistinct_of_wellFormed children hchildren

/-- In a message that was read no options have a key twice. -/
theorem keysDistinct_of_wellFormed {inPlural : Bool} :
    ∀ es : List Element, WellFormed d inPlural es → Wire.KeysDistinct es
  | [], _ => trivial
  | e :: es, ⟨he, _, hes⟩ => ⟨elementKeysDistinct_of_wellFormed e he, keysDistinct_of_wellFormed es hes⟩

theorem branchKeysDistinct_of_wellFormed {inPlural : Bool} :
    ∀ options : Options, BranchesWellFormed d inPlural options → Wire.BranchKeysDistinct options
  | [], _ => trivial
  | (_, branch) :: options, ⟨hbranch, hoptions⟩ =>
    ⟨keysDistinct_of_wellFormed branch hbranch, branchKeysDistinct_of_wellFormed options hoptions⟩

end
end Pattern

namespace Document

variable {α : Type}

/-- A document says what a result for a message is. Offsets in a message are read back as integers when they
fit a machine word, as those of every text in memory do. -/
structure Reports (encode : α → Json) (message : String) (result : Except Message.Error α)
    (document : String) : Prop where
  no_nul : '\x00' ∉ document.toList
  terminated : (Utf8.encode document ++ [0]).takeWhile (· ≠ 0) = Utf8.encode document
  ok : ∀ a, result = .ok a → Json.Decodes document (.object [("ok", encode a)])
  patternError : ∀ e, result = .error (.pattern e) → message.utf8ByteSize < UInt64.size →
    Json.Decodes document (.object [("error", .object
      [("code", .string e.cause.code), ("message", .string e.cause.message),
        ("begin", ofPosition e.start), ("end", ofPosition e.stop)])])
  strayPound : result = .error .strayPound →
    Json.Decodes document (.object [("error", .object
      [("code", .string "pound-outside-context"),
        ("message", .string "Pound sign used outside of plural/select element")])])

theorem recoverable_ofPosition {text : String} {p : Position} (hp : p.Inside text)
    (htext : text.utf8ByteSize < UInt64.size) : (ofPosition p).Recoverable := by
  have hword : ∀ n : Nat, n ≤ p.offset → Json.InWord n := by
    intro n hn
    have hoffset := hp.offset_le
    have hsize : UInt64.size = 18446744073709551616 := rfl
    unfold Json.InWord
    omega
  have hle := hp.line_add_column_le
  exact ⟨by simp, hword _ (by omega), hword _ (by omega), hword _ (Nat.le_refl _), trivial⟩

theorem noControl_render (encode : α → Json) (result : Except Message.Error α) :
    Json.NoControl (render encode result).toList := by
  unfold render Json.render
  rw [String.toList_ofList]
  exact Json.noControl_write 0 _

theorem nul_notMem_render (encode : α → Json) (result : Except Message.Error α) :
    '\x00' ∉ (render encode result).toList := by
  intro h
  exact absurd (noControl_render encode result _ h) (by decide)

/-- The document of a result that JSON can hold, or of an error at a place of the message, says what the result
is. -/
theorem reports_render {encode : α → Json} {message : String} {result : Except Message.Error α}
    (hok : ∀ a, result = .ok a → (encode a).Recoverable)
    (herror : ∀ e, result = .error (.pattern e) → e.start.Inside message ∧ e.stop.Inside message) :
    Reports encode message result (render encode result) where
  no_nul := nul_notMem_render encode result
  terminated := Utf8.takeWhile_encode_append_zero (nul_notMem_render encode result)
  ok a ha := by
    have hvalue := hok a ha
    subst ha
    exact Json.decodes_render ⟨by simp, hvalue, trivial⟩
  patternError e he htext := by
    obtain ⟨hstart, hstop⟩ := herror e he
    have hbegin := recoverable_ofPosition hstart htext
    have hend := recoverable_ofPosition hstop htext
    subst he
    exact Json.decodes_render ⟨by simp, ⟨by simp, trivial, trivial, hbegin, hend, trivial⟩, trivial⟩
  strayPound he := by
    subst he
    exact Json.decodes_render ⟨by simp, ⟨by decide, trivial, trivial, trivial⟩, trivial⟩

theorem ofPattern_eq_ok_iff {result : Except Pattern.Error α} {a : α} :
    ofPattern result = .ok a ↔ result = .ok a := by
  cases result <;> simp [ofPattern]

theorem ofPattern_eq_error_iff {result : Except Pattern.Error α} {e : Pattern.Error} :
    ofPattern result = .error (.pattern e) ↔ result = .error e := by
  cases result <;> simp [ofPattern]

theorem reports_compile (message locale : String) :
    Reports .string message (Message.compile message locale)
      (compileBytes (Utf8.encode message) (Utf8.encode locale)) := by
  rw [compileBytes, Utf8.decodeLossy_encode, Utf8.decodeLossy_encode]
  apply reports_render
  · exact fun _ _ => trivial
  · intro e he
    unfold Message.compile at he
    split at he
    · rename_i hparse
      cases he
      exact Pattern.inside_of_parse hparse
    · rw [Message.compileElements_eq] at he
      split at he <;> cases he

theorem reports_typeOf (message : String) :
    Reports .string message (ofPattern (Message.typeOf message)) (typeOfBytes (Utf8.encode message)) := by
  rw [typeOfBytes, Utf8.decodeLossy_encode]
  apply reports_render
  · exact fun _ _ => trivial
  · intro e he
    rw [ofPattern_eq_error_iff, Message.typeOf] at he
    split at he
    · rename_i hparse
      cases he
      exact Pattern.inside_of_parse hparse
    · cases he

theorem reports_parse (message : String) :
    Reports Wire.encode message (ofPattern (Pattern.parse .strict message))
      (parseBytes (Utf8.encode message)) := by
  rw [parseBytes, Utf8.decodeLossy_encode]
  apply reports_render
  · intro es hes
    obtain ⟨r, hreads⟩ := Pattern.reads_of_parse (ofPattern_eq_ok_iff.mp hes)
    exact Wire.recoverableItems_encodeList es (Pattern.keysDistinct_of_wellFormed es hreads.wellFormed)
  · intro e he
    exact Pattern.inside_of_parse (ofPattern_eq_error_iff.mp he)

end Document

/-! ### The command -/

namespace Command

/-- A run ends as a result asks for: what is written of it is all that is written, or nothing is. -/
structure Reports {α : Type} (line : α → String) (result : Except Message.Error α) (outcome : Outcome) :
    Prop where
  ok : ∀ a, result = .ok a → outcome = ⟨0, line a ++ "\n", ""⟩
  error : ∀ e, result = .error e → outcome.code = 1 ∧ outcome.stdout = ""

/-- The argument that asks for a mode; there is none for the first one. -/
def Mode.flags : Mode → List String
  | .script => []
  | .types => ["--types"]
  | .elements => ["--ast"]

/-- The arguments that ask for a mode and a locale, in either order. -/
def calls (mode : Mode) (locale : String) : List (List String) :=
  [mode.flags ++ ["--locale", locale], "--locale" :: locale :: mode.flags]

/-- Whatever the environment has for the locale, the arguments count. -/
theorem read_calls {mode : Mode} {locale : String} {args : List String} (h : args ∈ calls mode locale)
    (localeVariable : Option String) :
    (Config.initial localeVariable).read args = .ok ⟨mode, locale, false, false⟩ := by
  simp only [calls, List.mem_cons, List.not_mem_nil, or_false] at h
  rcases h with rfl | rfl
  · cases mode <;> simp [Mode.flags, Config.read, Config.initial]
  · cases mode <;> simp [Mode.flags, Config.read, Config.initial]

variable {mode : Mode} {message locale : String}

theorem run_calls {args : List String} (h : args ∈ calls mode locale) (localeVariable : Option String) :
    run args localeVariable (Utf8.decode? (Utf8.encode message)) =
      answer ⟨mode, locale, false, false⟩ (some message) := by
  rw [run, read_calls h localeVariable, Utf8.decode?_encode]

theorem reports_failure {α : Type} (line : α → String) (e : Message.Error) (text : String) :
    Reports line (.error e) (failure text) :=
  ⟨nofun, fun _ _ => ⟨rfl, rfl⟩⟩

theorem reports_success {α : Type} (line : α → String) (a : α) :
    Reports line (.ok a) (success (line a)) where
  ok _ := by
    rintro ⟨⟩
    rfl
  error := nofun

theorem reports_script : Reports id (Message.compile message locale)
    (answer ⟨.script, locale, false, false⟩ (some message)) := by
  simp only [answer, readMessage, Bool.false_eq_true, if_false, Mode.dialect, Message.compile]
  cases Pattern.parse .lenient message with
  | error e => exact reports_failure _ _ _
  | ok es =>
      simp only [writeMessage]
      cases Message.compileElements es locale with
      | error e => exact reports_failure _ _ _
      | ok source => exact reports_success id source

theorem reports_types : Reports id (Document.ofPattern (Message.typeOf message))
    (answer ⟨.types, locale, false, false⟩ (some message)) := by
  simp only [answer, readMessage, Bool.false_eq_true, if_false, Mode.dialect, Message.typeOf]
  cases Pattern.parse .lenient message with
  | error e => exact reports_failure _ _ _
  | ok es => exact reports_success id (Message.typeOfElements es)

theorem reports_elements : Reports (Wire.render .compact) (Document.ofPattern (Pattern.parse .strict message))
    (answer ⟨.elements, locale, false, false⟩ (some message)) := by
  simp only [answer, readMessage, Bool.false_eq_true, if_false, Mode.dialect]
  cases Pattern.parse .strict message with
  | error e => exact reports_failure _ _ _
  | ok es => exact reports_success (Wire.render .compact) es

end Command

/-- Every front end reports exactly the result of the function behind it. For every text of a message and of a
locale, the document of the source text, the one of the type and the one of the elements have no NUL, are
JSON, and hold the result, or else the code, the message and the place of the error; and the command, asked
for the same, exits with 0 and writes the result and a line feed, or exits with 1 and writes nothing to its
output. -/
theorem frontends_report_results (message locale : String) (localeVariable : Option String) :
    (Document.Reports .string message (Message.compile message locale)
        (Document.compileBytes (Utf8.encode message) (Utf8.encode locale)) ∧
      ∀ args ∈ Command.calls .script locale,
        Command.Reports id (Message.compile message locale)
          (Command.run args localeVariable (Utf8.decode? (Utf8.encode message)))) ∧
    (Document.Reports .string message (Document.ofPattern (Message.typeOf message))
        (Document.typeOfBytes (Utf8.encode message)) ∧
      ∀ args ∈ Command.calls .types locale,
        Command.Reports id (Document.ofPattern (Message.typeOf message))
          (Command.run args localeVariable (Utf8.decode? (Utf8.encode message)))) ∧
    Document.Reports Wire.encode message (Document.ofPattern (Pattern.parse .strict message))
        (Document.parseBytes (Utf8.encode message)) ∧
      ∀ args ∈ Command.calls .elements locale,
        Command.Reports (Wire.render .compact) (Document.ofPattern (Pattern.parse .strict message))
          (Command.run args localeVariable (Utf8.decode? (Utf8.encode message))) := by
  refine ⟨⟨Document.reports_compile message locale, ?_⟩, ⟨Document.reports_typeOf message, ?_⟩,
    Document.reports_parse message, ?_⟩
  · intro args hargs
    rw [Command.run_calls hargs]
    exact Command.reports_script
  · intro args hargs
    rw [Command.run_calls hargs]
    exact Command.reports_types
  · intro args hargs
    rw [Command.run_calls hargs]
    exact Command.reports_elements

/-- A type of an argument that is a NUL and a backslash stands in the message of the error. -/
theorem frontends_report_results_unknownType :
    Json.Decodes (Document.compileBytes (Utf8.encode "\x7bn, \x00\\\x7d") (Utf8.encode "en"))
        (.object [("error", .object [("code", .string "invalid-argument-type"),
          ("message", .string "Unknown argument type \"\x00\\\""),
          ("begin", .object [("line", .ofInt 0), ("column", .ofInt 4), ("offset", .ofInt 4)]),
          ("end", .object [("line", .ofInt 0), ("column", .ofInt 6), ("offset", .ofInt 6)])])]) ∧
      (Command.run ["--locale", "en"] none (Utf8.decode? (Utf8.encode "\x7bn, \x00\\\x7d"))).code = 1 := by
  have hparse : Pattern.parse .lenient "\x7bn, \x00\\\x7d" =
      .error ⟨.unknownType "\x00\\", ⟨0, 4, 4⟩, ⟨0, 6, 6⟩⟩ := by
    rw [Pattern.parse_eq]
    simp only [String.reduceToList]
    rw [Pattern.readElements_argument rfl]
    rfl
  have hcompile : Message.compile "\x7bn, \x00\\\x7d" "en" =
      .error (.pattern ⟨.unknownType "\x00\\", ⟨0, 4, 4⟩, ⟨0, 6, 6⟩⟩) := by
    rw [Message.compile, hparse]
  obtain ⟨⟨hdocument, hcommand⟩, -⟩ := frontends_report_results "\x7bn, \x00\\\x7d" "en" none
  exact ⟨hdocument.patternError _ hcompile (by decide), (hcommand _ (.head _)).error _ hcompile |>.1⟩

end MessageFormat
