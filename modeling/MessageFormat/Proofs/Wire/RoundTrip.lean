import MessageFormat.Proofs.Json.RoundTrip
import MessageFormat.Proofs.Wire.Decoding
import MessageFormat.Wire.Text

/-! The JSON text of a message is read back as the message, its options in their order, as long as its
form is not nested too deep for the reader; from that depth on it is refused as JSON. -/

namespace MessageFormat.Wire

mutual

/-- How deep the form of an element is nested: it is one object, around its children or its options. -/
def elementDepth : Element → Nat
  | .literal _ | .argument _ | .number _ _ | .date _ _ | .time _ _ | .pound => 1
  | .select _ options => 1 + optionsDepth options
  | .plural _ _ _ options => 1 + optionsDepth options
  | .tag _ children => 1 + depth children

/-- How deep the form of a list of elements is nested: it is one array around them. -/
def depth : List Element → Nat
  | [] => 1
  | e :: es => max (1 + elementDepth e) (depth es)

/-- How deep the form of options is nested: it is one object around one more for each branch. -/
def optionsDepth : List (String × List Element) → Nat
  | [] => 1
  | (_, branch) :: options => max (1 + (1 + depth branch)) (optionsDepth options)

end

theorem depth_front_append (kind : Kind) (value : String) (members : List (String × Json)) :
    (Json.object (front kind value ++ members)).depth = 1 + Json.membersDepth members := by
  simp [front, Json.depth, Json.membersDepth, Json.ofInt]

mutual

theorem depth_encodeElement : ∀ e : Element, (encodeElement e).depth = elementDepth e
  | .literal _ | .argument _ | .pound => rfl
  | .number _ none | .number _ (some _) => rfl
  | .date _ none | .date _ (some _) | .time _ none | .time _ (some _) => rfl
  | .select _ options => by
      rw [encodeElement, depth_front_append, elementDepth, ← depth_encodeOptions options]
      simp [Json.membersDepth]
  | .plural _ _ _ options => by
      rw [encodeElement, depth_front_append, elementDepth, ← depth_encodeOptions options]
      simp [Json.membersDepth, Json.depth, Json.ofInt]
  | .tag _ children => by
      have h := depth_encode children
      rw [encode] at h
      rw [encodeElement, depth_front_append, elementDepth, ← h]
      simp [Json.membersDepth]

/-- The depth of a message is the depth of its JSON form. -/
theorem depth_encode : ∀ es : List Element, (encode es).depth = depth es
  | [] => rfl
  | e :: es => by
      rw [depth, ← depth_encodeElement e, ← depth_encode es]
      simp only [encode, encodeList, Json.depth, Json.itemsDepth]
      omega

theorem depth_encodeOptions : ∀ options : List (String × List Element),
    (Json.object (encodeOptions options)).depth = optionsDepth options
  | [] => rfl
  | (_, branch) :: options => by
      rw [optionsDepth, ← depth_encode branch, ← depth_encodeOptions options]
      simp only [encode, encodeOptions, Json.depth, Json.membersDepth]
      omega

end

mutual

/-- No options inside an element have a key twice. -/
def ElementKeysDistinct : Element → Prop
  | .literal _ | .argument _ | .number _ _ | .date _ _ | .time _ _ | .pound => True
  | .select _ options => (options.map Prod.fst).Nodup ∧ BranchKeysDistinct options
  | .plural _ _ _ options => (options.map Prod.fst).Nodup ∧ BranchKeysDistinct options
  | .tag _ children => KeysDistinct children

/-- No options inside a list of elements have a key twice. -/
def KeysDistinct : List Element → Prop
  | [] => True
  | e :: es => ElementKeysDistinct e ∧ KeysDistinct es

/-- No options inside the branches of a selection have a key twice. -/
def BranchKeysDistinct : List (String × List Element) → Prop
  | [] => True
  | (_, branch) :: options => KeysDistinct branch ∧ BranchKeysDistinct options

end

theorem keys_encodeOptions (options : List (String × List Element)) :
    (encodeOptions options).map Prod.fst = options.map Prod.fst := by
  induction options with
  | nil => rfl
  | cons option options ih => rw [encodeOptions, List.map_cons, List.map_cons, ih]

theorem inWord_code (kind : Kind) : Json.InWord kind.code := by
  have hcode : kind.code ≤ 8 := by cases kind <;> decide
  unfold Json.InWord
  omega

theorem recoverable_optionalText (text : Option String) : (optionalText text).Recoverable := by
  cases text <;> trivial

theorem inWord_toInt (n : Int64) : Json.InWord n.toInt := by
  obtain ⟨hlow, hhigh⟩ := Integer.inRange_toInt n
  exact ⟨hlow, by omega⟩

theorem recoverable_front_append (kind : Kind) (value : String) {members : List (String × Json)}
    (hkeys : ("type" :: "value" :: members.map Prod.fst).Nodup) (h : Json.RecoverableMembers members) :
    (Json.object (front kind value ++ members)).Recoverable :=
  ⟨hkeys, inWord_code kind, trivial, h⟩

mutual

theorem recoverable_encodeElement :
    ∀ e : Element, ElementKeysDistinct e → (encodeElement e).Recoverable
  | .literal _, _ => recoverable_front_append .literal _ (by simp) trivial
  | .argument _, _ => recoverable_front_append .argument _ (by simp) trivial
  | .number _ style, _ =>
      recoverable_front_append .number _ (by simp) ⟨recoverable_optionalText style, trivial⟩
  | .date _ _, _ => recoverable_front_append .date _ (by simp) ⟨recoverable_optionalText _, trivial⟩
  | .time _ _, _ => recoverable_front_append .time _ (by simp) ⟨recoverable_optionalText _, trivial⟩
  | .select _ options, h =>
      have hoptions := recoverableMembers_encodeOptions options h.2
      recoverable_front_append .select _ (by simp) ⟨⟨keys_encodeOptions options ▸ h.1, hoptions⟩, trivial⟩
  | .plural _ _ offset options, h =>
      have hoptions := recoverableMembers_encodeOptions options h.2
      recoverable_front_append .plural _ (by simp)
        ⟨⟨keys_encodeOptions options ▸ h.1, hoptions⟩, inWord_toInt offset, trivial, trivial⟩
  | .pound, _ => ⟨by decide, inWord_code .pound, trivial⟩
  | .tag _ children, h =>
      recoverable_front_append .tag _ (by simp) ⟨recoverableItems_encodeList children h, trivial⟩

theorem recoverableItems_encodeList :
    ∀ es : List Element, KeysDistinct es → Json.RecoverableItems (encodeList es)
  | [], _ => trivial
  | e :: es, h => ⟨recoverable_encodeElement e h.1, recoverableItems_encodeList es h.2⟩

theorem recoverableMembers_encodeOptions :
    ∀ options : List (String × List Element), BranchKeysDistinct options →
      Json.RecoverableMembers (encodeOptions options)
  | [], _ => trivial
  | (_, branch) :: options, h =>
      ⟨⟨by simp, recoverableItems_encodeList branch h.1, trivial⟩,
        recoverableMembers_encodeOptions options h.2⟩

end

/-! ### The form of a message determines it -/

theorem lookup_cons_of_ne {key k : String} (h : key ≠ k) (v : Json) (members : List (String × Json)) :
    List.lookup key ((k, v) :: members) = List.lookup key members := by
  rw [List.lookup_cons, beq_eq_false_iff_ne.mpr h]

theorem kindOf_of_get? {members : List (String × Json)} {v : Json} {code : Nat} {kind : Kind}
    (hget : (Json.object members).get? "type" = some v) (hcode : v.natural? = some code)
    (hkind : Kind.ofCode? code = some kind) : kindOf (.object members) = .ok kind := by
  simp only [kindOf, hget, hcode, hkind]

section Front

variable (kind : Kind) (value : String) (members : List (String × Json))

theorem natural?_code : (Json.ofInt kind.code).natural? = some kind.code := by
  have hcode : kind.code ≤ 8 := by cases kind <;> decide
  have hfits : 0 ≤ (kind.code : Int) ∧ (kind.code : Int) < UInt64.size := by
    simp only [UInt64.size]
    omega
  rw [Json.ofInt, Json.natural?, if_pos hfits, Int.toNat_natCast]

theorem kindOf_front : kindOf (.object (front kind value ++ members)) = .ok kind := by
  have htype : (Json.object (front kind value ++ members)).get? "type" = some (.ofInt kind.code) := by
    rw [Json.get?, front, List.cons_append]
    exact List.lookup_cons_self
  exact kindOf_of_get? htype (natural?_code kind) (Kind.ofCode?_code kind)

theorem valueText_front : valueText (.object (front kind value ++ members)) = .ok value := by
  have hvalue : (Json.object (front kind value ++ members)).get? "value" = some (.string value) := by
    rw [Json.get?, front, List.cons_append, lookup_cons_of_ne (by decide)]
    exact List.lookup_cons_self
  rw [valueText, hvalue]
  rfl

/-- A member behind the first two is looked up behind them. -/
theorem get?_front (key : String) (htype : key ≠ "type") (hvalue : key ≠ "value") :
    (Json.object (front kind value ++ members)).get? key = members.lookup key := by
  rw [Json.get?, front, List.cons_append, lookup_cons_of_ne htype, List.cons_append,
    lookup_cons_of_ne hvalue, List.nil_append]

end Front

theorem decodeOptions_of_get? {json : Json} {members : List (String × Json)} {options : Options}
    (hget : json.get? "options" = some (.object members))
    (h : decodeBranches members = .ok options) : decodeOptions json = .ok options := by
  rw [decodeOptions_object hget, h]
  rfl

theorem decodeBranch_singleton {v : Json} {branch : List Element} (h : decode v = .ok branch) :
    decodeBranch (.object [("value", v)]) = .ok branch := by
  have hget : (Json.object [("value", v)]).get? "value" = some v := by
    rw [Json.get?]
    exact List.lookup_cons_self
  rw [decodeBranch_some hget, h]
  rfl

theorem integer?_ofInt (n : Int64) : (Json.ofInt n.toInt).integer? = some n := by
  rw [Json.ofInt, Json.integer?, if_pos (Integer.fits_iff.mpr (Integer.inRange_toInt n)),
    Int64.ofInt_toInt]

theorem dateStyle?_name (style : Option DateStyle) :
    (optionalText (style.map DateStyle.name)).text?.bind DateStyle.ofName? = style := by
  cases style with
  | none => rfl
  | some style => exact DateStyle.ofName?_name style

mutual

theorem decodeElement_encodeElement : ∀ e : Element, decodeElement (encodeElement e) = .ok e
  | .literal text => by
      have hkind := kindOf_front .literal text []
      have hvalue := valueText_front .literal text []
      rw [List.append_nil] at hkind hvalue
      rw [encodeElement, decodeElement, hkind]
      simp only [bind, Except.bind, hvalue]
  | .argument name => by
      have hkind := kindOf_front .argument name []
      have hvalue := valueText_front .argument name []
      rw [List.append_nil] at hkind hvalue
      rw [encodeElement, decodeElement, hkind]
      simp only [bind, Except.bind, hvalue]
  | .number name style => by
      have hstyle : optionalText? "style"
          (.object (front .number name ++ [("style", optionalText style)])) = style := by
        rw [optionalText?, get?_front _ _ _ _ (by decide) (by decide), List.lookup_cons_self]
        cases style <;> rfl
      rw [encodeElement, decodeElement, kindOf_front]
      simp only [bind, Except.bind, valueText_front, hstyle]
  | .date name style => by
      have hstyle : dateStyle?
          (.object (front .date name ++ [("style", optionalText (style.map DateStyle.name))])) = style := by
        rw [dateStyle?, optionalText?, get?_front _ _ _ _ (by decide) (by decide), List.lookup_cons_self]
        exact dateStyle?_name style
      rw [encodeElement, decodeElement, kindOf_front]
      simp only [bind, Except.bind, valueText_front, hstyle]
  | .time name style => by
      have hstyle : dateStyle?
          (.object (front .time name ++ [("style", optionalText (style.map DateStyle.name))])) = style := by
        rw [dateStyle?, optionalText?, get?_front _ _ _ _ (by decide) (by decide), List.lookup_cons_self]
        exact dateStyle?_name style
      rw [encodeElement, decodeElement, kindOf_front]
      simp only [bind, Except.bind, valueText_front, hstyle]
  | .select name options => by
      have hget := get?_front .select name [("options", .object (encodeOptions options))]
        "options" (by decide) (by decide)
      rw [List.lookup_cons_self] at hget
      have hoptions := decodeOptions_of_get? hget (decodeBranches_encodeOptions options)
      rw [encodeElement, decodeElement, kindOf_front]
      simp only [bind, Except.bind, valueText_front, hoptions]
  | .plural name kind offset options => by
      have hget := get?_front .plural name
        [("options", .object (encodeOptions options)), ("offset", .ofInt offset.toInt),
          ("pluralType", .string kind.name)]
      have hoptions := decodeOptions_of_get?
        ((hget _ (by decide) (by decide)).trans List.lookup_cons_self)
        (decodeBranches_encodeOptions options)
      have hoffset : pluralOffset (.object (front .plural name ++
          [("options", .object (encodeOptions options)), ("offset", .ofInt offset.toInt),
            ("pluralType", .string kind.name)])) = offset := by
        rw [pluralOffset, hget _ (by decide) (by decide), lookup_cons_of_ne (by decide),
          List.lookup_cons_self, Option.bind_some, integer?_ofInt, Option.getD_some]
      have hkind : pluralKind (.object (front .plural name ++
          [("options", .object (encodeOptions options)), ("offset", .ofInt offset.toInt),
            ("pluralType", .string kind.name)])) = kind := by
        rw [pluralKind, optionalText?, hget _ (by decide) (by decide), lookup_cons_of_ne (by decide),
          lookup_cons_of_ne (by decide), List.lookup_cons_self]
        cases kind <;> rfl
      rw [encodeElement, decodeElement, kindOf_front]
      simp only [bind, Except.bind, valueText_front, hoptions, hoffset, hkind]
  | .pound => by
      rw [encodeElement, decodeElement]
      rfl
  | .tag name children => by
      have hget := get?_front .tag name [("children", .array (encodeList children))]
        "children" (by decide) (by decide)
      rw [List.lookup_cons_self] at hget
      have hchildren : decode (.array (encodeList children)) = .ok children := by
        rw [decode, decodeItems_encodeList 0 children]
      rw [encodeElement, decodeElement_eq, kindOf_front]
      simp only [bind, Except.bind, valueText_front, decodeChildren_some hget, hchildren, within]

theorem decodeItems_encodeList (i : Nat) : ∀ es : List Element, decodeItems i (encodeList es) = .ok es
  | [] => by
      rw [encodeList, decodeItems]
  | e :: es => by
      rw [encodeList, decodeItems, decodeElement_encodeElement e, decodeItems_encodeList (i + 1) es]
      rfl

theorem decodeBranches_encodeOptions :
    ∀ options : List (String × List Element), decodeBranches (encodeOptions options) = .ok options
  | [] => by
      rw [encodeOptions, decodeBranches]
  | (key, branch) :: options => by
      have hbranch : decode (.array (encodeList branch)) = .ok branch := by
        rw [decode, decodeItems_encodeList 0 branch]
      rw [encodeOptions, decodeBranches, decodeBranch_singleton hbranch,
        decodeBranches_encodeOptions options]
      rfl

end

/-- The JSON form of a message is the form of no other one. -/
theorem decode_encode (es : List Element) : decode (encode es) = .ok es := by
  rw [encode, decode, decodeItems_encodeList]

/-- The JSON text of a message, in either layout, is read back as the message if its form is nested at most
127 deep, and refused as JSON if it is nested deeper. -/
theorem read_render_of_keysDistinct (layout : Json.Layout) {es : List Element} (h : KeysDistinct es) :
    (depth es ≤ 127 → read (render layout es) = .ok es) ∧
      (128 ≤ depth es → ∃ e, read (render layout es) = .error (.json e)) := by
  have hjson : Json.GivesIf (depth es ≤ 127) (Json.read (render layout es)) (encode es) :=
    depth_encode es ▸ Json.read_render layout (recoverableItems_encodeList es h)
  constructor
  · intro hdepth
    rw [read, hjson.ok hdepth]
    simp only [decode_encode]
  · intro hdepth
    obtain ⟨e, he⟩ := hjson.error (by omega)
    exact ⟨e, by rw [read, he]⟩

/-- A plural with an extreme offset inside `n` tags. -/
def nested : Nat → List Element
  | 0 => [.plural "n" .ordinal Int64.minValue [("other", [.pound]), ("=1", [.literal "\"\u0007"])]]
  | n + 1 => [.literal "\n", .tag "b" (nested n)]

theorem depth_nested (n : Nat) : depth (nested n) = 2 * n + 6 := by
  induction n with
  | zero => rfl
  | succ n ih =>
      simp only [nested, depth, elementDepth, ih]
      omega

theorem keysDistinct_nested (n : Nat) : KeysDistinct (nested n) := by
  induction n with
  | zero => simp [nested, KeysDistinct, ElementKeysDistinct, BranchKeysDistinct]
  | succ n ih => exact ⟨trivial, ih, trivial⟩

theorem read_render_nested :
    read (render .pretty (nested 60)) = .ok (nested 60) ∧
      ∃ e, read (render .pretty (nested 61)) = .error (.json e) :=
  ⟨(read_render_of_keysDistinct .pretty (keysDistinct_nested 60)).1 (by rw [depth_nested]; decide),
    (read_render_of_keysDistinct .pretty (keysDistinct_nested 61)).2 (by rw [depth_nested])⟩

end MessageFormat.Wire
