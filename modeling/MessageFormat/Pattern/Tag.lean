import MessageFormat.Pattern.Argument

/-! Opening and closing tags. A tag that closes itself is kept as text, because nothing is between its
ends for an argument to wrap. -/

namespace MessageFormat.Pattern

/-- An opening tag, or a tag that closes itself. -/
inductive TagHead where
  | opening (name : String)
  | selfClosing (name : String)

/-- The name of a tag at the front of a text, perhaps empty. -/
def tagName (s : List Char) : String :=
  .ofList (s.takeWhile isTagNameChar)

/-- The text behind the name of a tag. -/
def afterTagName (s : List Char) : List Char :=
  s.dropWhile isTagNameChar

/-- A tag that opens or closes itself, from behind its less sign. -/
def tagHead (s : List Char) : Except Failure (TagHead × List Char) :=
  match skipWhiteSpace (afterTagName s) with
  | '/' :: '>' :: r => .ok (.selfClosing (tagName s), r)
  | '>' :: r => .ok (.opening (tagName s), r)
  | r => fail (.openingTagUnfinished (tagName s)) ('<' :: s) r

/-- The text behind the tag that closes the tag `name`, which opens where `start` is left. -/
def closingTag (start : List Char) (name : String) (s : List Char) : Except Failure (List Char) :=
  match s with
  | '<' :: '/' :: r =>
    if tagName r = name then
      expect '>' (.closingTagUnfinished name) s (skipWhiteSpace (afterTagName r))
    else fail (.mismatchedClosingTag name (tagName r)) s (afterTagName r)
  | _ => fail (.unclosedTag name) start s

/-- The fault of a closing tag where none is open, from behind its less sign. -/
def strayClosingTag (s : List Char) : Failure :=
  let r := s.drop 1
  ⟨.unmatchedClosingTag (tagName r), '<' :: s, afterTagName r⟩

theorem suffix_of_tagHead {s r : List Char} {head : TagHead} (h : tagHead s = .ok (head, r)) :
    r <:+ s := by
  have hs : skipWhiteSpace (afterTagName s) <:+ s :=
    (skipWhiteSpace_suffix _).trans (List.dropWhile_suffix _)
  unfold tagHead at h
  split at h
  · rename_i t ht
    cases h
    rw [ht] at hs
    exact ((List.suffix_cons _ _).trans (List.suffix_cons _ _)).trans hs
  · rename_i t ht
    cases h
    rw [ht] at hs
    exact (List.suffix_cons _ _).trans hs
  · cases h

theorem suffix_of_closingTag {start s r : List Char} {name : String}
    (h : closingTag start name s = .ok r) : r <:+ s := by
  unfold closingTag at h
  split at h
  · rename_i t
    split at h
    · have hs : skipWhiteSpace (afterTagName t) <:+ t :=
        (skipWhiteSpace_suffix _).trans (List.dropWhile_suffix _)
      rw [eq_cons_of_expect h] at hs
      exact ((List.suffix_cons _ _).trans hs).trans
        ((List.suffix_cons _ _).trans (List.suffix_cons _ _))
    · cases h
  · cases h

end MessageFormat.Pattern
