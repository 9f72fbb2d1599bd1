import MessageFormat.Proofs.Pattern.Mirror
import MessageFormat.Proofs.Pattern.Spans

/-! How far the reader of patterns looks ahead. What it does up to some place is decided by the text up to there
and by the next two characters. In particular, no later text can hide a fault or change it. -/

namespace MessageFormat.Pattern

theorem endsIn_readElements (d : Dialect) (σ : Scope) (s : List Char) :
    EndsIn s Prod.snd (readElements d σ s) :=
  ⟨fun _ h => suffix_of_readElements h, fun _ h => (within_of_readElements h).stop_suffix⟩

theorem endsIn_readOptions {d : Dialect} {k : Chooser} {seen : List String} {s : List Char}
    (hle : s <:+ k.start) : EndsIn s Prod.snd (readOptions d k seen s) :=
  ⟨fun _ h => suffix_of_readOptions h, fun _ h => (within_of_readOptions hle h).stop_suffix⟩

/-- Behind the key of a branch come the branch, its closing brace and the branches after it. -/
theorem endsIn_branch {d : Dialect} {k : Chooser} {seen : List String} {key : String} {s : List Char}
    (hle : s <:+ k.start) :
    EndsIn s Prod.snd (readElements d (.branch k.plural) s >>= fun branch =>
      expect '\x7d' .branchEndExpected ('\x7b' :: s) branch.2 >>= fun r =>
        readOptions d k (key :: seen) r >>= fun tail => .ok ((key, branch.1) :: tail.1, tail.2)) := by
  apply (endsIn_readElements d _ s).bind
  rintro ⟨es, s₁⟩ hbody
  apply (endsIn_expect _ _ _ _).bind
  intro s₂ hclose
  exact (endsIn_readOptions ((suffix_of_expect hclose).trans ((suffix_of_readElements hbody).trans hle))).wrap

theorem endsIn_readOptions_behindName {d : Dialect} {k : Chooser} {seen : List String} {s : List Char}
    (hle : s <:+ k.start) : EndsIn (s.dropWhile isNameChar) Prod.snd (readOptions d k seen s) := by
  rw [readOptions_eq]
  apply (endsIn_optionHead d k seen s).bind
  rintro ⟨key?, s₁⟩ hhead
  cases key? with
  | none => exact .of_ok (List.suffix_refl _)
  | some key => exact endsIn_branch ((suffix_of_optionHead hhead).trans hle)

/-- Behind an opening tag come what is between the tags, the closing tag and the elements after it. -/
theorem endsIn_tag {d : Dialect} {σ : Scope} {name : String} {start s : List Char} (hle : s <:+ start) :
    EndsIn s Prod.snd (readElements d σ.tag s >>= fun children =>
      closingTag start name children.2 >>= fun r =>
        readElements d σ r >>= fun tail => .ok (.tag name children.1 :: tail.1, tail.2)) := by
  apply (endsIn_readElements d _ s).bind
  rintro ⟨es, s₁⟩ hinside
  apply (endsIn_closingTag _ ((suffix_of_readElements hinside).trans hle)).bind
  exact fun s₂ _ => (endsIn_readElements d σ s₂).wrap

section Runs

variable {φ : Fork}

theorem mirrors_strayClosingTag {s s' : List Char} (hs : φ.Twin ('<' :: '/' :: s) ('<' :: s')) :
    Mirrors (α := List Element × List Char) φ Prod.snd (TwinResult φ)
      (.error (strayClosingTag ('/' :: s))) (.error (strayClosingTag s')) := by
  obtain ⟨r', hr, hr'⟩ := hs.exists_pair
  obtain rfl := (List.cons.inj hr).2
  refine .of_fail fun hafter => ?_
  obtain ⟨hname, hrest⟩ := tagName_and_afterTagName (hr' (hafter.mono (List.dropWhile_suffix _))) hafter
  exact ⟨congrArg Cause.unmatchedClosingTag hname, hs, hrest⟩

mutual

/-- The reader does the same on the two texts, up to the fork. -/
theorem mirrors_readElements (d : Dialect) (σ : Scope) {s s' : List Char} (hs : φ.Ahead s → φ.Twin s s') :
    Mirrors φ Prod.snd (TwinResult φ) (readElements d σ s) (readElements d σ s') := by
  refine .of_endsIn (endsIn_readElements d σ s) fun hahead => ?_
  have htwin := hs hahead
  match s with
  | [] =>
      obtain rfl := htwin.eq_nil
      rw [readElements_nil]
      exact .of_ok fun _ => ⟨rfl, htwin⟩
  | c :: s =>
      obtain ⟨s', rfl, hhead, hs'⟩ := htwin.exists_cons
      cases hlead : lead d σ c s.head? with
      | stop =>
          rw [readElements_stop hlead, readElements_stop (hhead ▸ hlead)]
          exact .of_ok fun _ => ⟨rfl, htwin⟩
      | strayClosingTag =>
          rw [readElements_strayClosingTag hlead, readElements_strayClosingTag (hhead ▸ hlead)]
          obtain rfl := eq_less_of_lead_strayClosingTag hlead
          obtain ⟨t, rfl⟩ := exists_slash_of_lead hlead
          exact mirrors_strayClosingTag htwin
      | text =>
          have hle := literalText_cons_suffix hlead
          rw [readElements_text hlead, readElements_text (hhead ▸ hlead)]
          refine .of_endsIn (endsIn_readElements d σ _).wrap fun hafter => ?_
          obtain ⟨htext, hrest⟩ := literalText_twin htwin hafter
          rw [htext]
          exact (mirrors_readElements d σ fun _ => hrest).wrap
      | pound =>
          rw [readElements_pound hlead, readElements_pound (hhead ▸ hlead)]
          exact (mirrors_readElements d σ hs').wrap
      | argument =>
          rw [readElements_argument hlead, readElements_argument (hhead ▸ hlead)]
          apply (mirrors_argumentHead hs').bind
          · rintro ⟨head, s₁⟩ hargument
            have hle₁ := (suffix_of_argumentHead hargument).trans (List.suffix_cons c s)
            cases head with
            | whole e => exact (endsIn_readElements d σ s₁).wrap
            | select name | plural name kind n =>
                apply (endsIn_readOptions_behindName hle₁).bind
                exact fun branches _ => (endsIn_readElements d σ branches.2).wrap
          · rintro ⟨head, s₁⟩ p' hargument hp'
            obtain ⟨s₁', rfl, hs₁'⟩ := hp'.exists_rest
            have hs₁ := suffix_of_argumentHead hargument
            have hle₁ := hs₁.trans (List.suffix_cons c s)
            cases head with
            | whole e => exact (mirrors_readElements d σ fun _ => hs₁').wrap
            | select name | plural name kind n =>
                apply (mirrors_readOptions d _ _ [] htwin hle₁ fun _ => hs₁').bind
                · exact fun branches _ => (endsIn_readElements d σ branches.2).wrap
                · rintro ⟨os, s₂⟩ q' hos hq'
                  obtain ⟨s₂', rfl, hs₂'⟩ := hq'.exists_rest
                  have hs₂ := (suffix_of_readOptions hos).trans hs₁
                  exact (mirrors_readElements d σ fun _ => hs₂').wrap
      | openingTag =>
          rw [readElements_openingTag hlead, readElements_openingTag (hhead ▸ hlead)]
          apply (mirrors_tagHead hs').bind
          · rintro ⟨head, s₁⟩ htag
            cases head with
            | selfClosing name => exact (endsIn_readElements d σ s₁).wrap
            | opening name => exact endsIn_tag ((suffix_of_tagHead htag).trans (List.suffix_cons c s))
          · rintro ⟨head, s₁⟩ p' htag hp'
            obtain ⟨s₁', rfl, hs₁'⟩ := hp'.exists_rest
            have hs₁ := suffix_of_tagHead htag
            cases head with
            | selfClosing name => exact (mirrors_readElements d σ fun _ => hs₁').wrap
            | opening name =>
                have hle₂ : ∀ children s₂, readElements d σ.tag s₁ = .ok (children, s₂) → s₂ <:+ c :: s :=
                  fun _ _ h => ((suffix_of_readElements h).trans hs₁).trans (List.suffix_cons c s)
                apply (mirrors_readElements d σ.tag fun _ => hs₁').bind
                · rintro ⟨children, s₂⟩ hinside
                  apply (endsIn_closingTag _ (hle₂ _ _ hinside)).bind
                  exact fun s₃ _ => (endsIn_readElements d σ s₃).wrap
                · rintro ⟨children, s₂⟩ q' hinside hq'
                  obtain ⟨s₂', rfl, hs₂'⟩ := hq'.exists_rest
                  have hs₂ := (suffix_of_readElements hinside).trans hs₁
                  apply (mirrors_closingTag name htwin (hle₂ _ _ hinside) fun _ => hs₂').bind
                  · exact fun s₃ _ => (endsIn_readElements d σ s₃).wrap
                  · intro s₃ s₃' hclose hs₃'
                    have hs₃ := (suffix_of_closingTag hclose).trans hs₂
                    exact (mirrors_readElements d σ fun _ => hs₃').wrap
termination_by s.length
decreasing_by
  all_goals
    simp only [List.length_cons, Nat.lt_succ_iff]
    first
      | exact Nat.le_refl _
      | exact hle.length_le
      | exact hs₃.length_le
      | exact hs₂.length_le
      | exact hs₁.length_le

theorem mirrors_readOptions (d : Dialect) (name : String) (plural : Bool) (seen : List String)
    {start start' s s' : List Char} (hstart : φ.Twin start start') (hle : s <:+ start)
    (hs : φ.Ahead s → φ.Twin s s') :
    Mirrors φ Prod.snd (TwinResult φ) (readOptions d ⟨name, plural, start⟩ seen s)
      (readOptions d ⟨name, plural, start'⟩ seen s') := by
  rw [readOptions_eq, readOptions_eq]
  apply (mirrors_optionHead d name plural seen hstart hs).bind
  · rintro ⟨key?, s₁⟩ hhead
    cases key? with
    | none => exact .of_ok (List.suffix_refl _)
    | some key => exact endsIn_branch ((suffix_of_optionHead hhead).trans hle)
  · rintro ⟨key?, s₁⟩ p' hhead hp'
    obtain ⟨s₁', rfl, hs₁'⟩ := hp'.exists_rest
    have hlt := length_lt_of_optionHead hhead
    have hle₁ := (suffix_of_optionHead hhead).trans hle
    cases key? with
    | none => exact .of_ok fun _ => ⟨rfl, hs₁'⟩
    | some key =>
        apply (mirrors_readElements d _ fun _ => hs₁').bind
        · rintro ⟨es, s₂⟩ hbody
          apply (endsIn_expect _ _ _ _).bind
          intro s₃ hclose
          have hs₃ := (suffix_of_expect hclose).trans (suffix_of_readElements hbody)
          exact (endsIn_readOptions (hs₃.trans hle₁)).wrap
        · rintro ⟨es, s₂⟩ q' hbody hq'
          obtain ⟨s₂', rfl, hs₂'⟩ := hq'.exists_rest
          have hs₃ : ∀ s₃, expect '\x7d' .branchEndExpected ('\x7b' :: s₁) s₂ = .ok s₃ → s₃ <:+ s₁ :=
            fun _ hclose => (suffix_of_expect hclose).trans (suffix_of_readElements hbody)
          apply (mirrors_expect _ _ (hs₁'.cons _) fun _ => hs₂').bind
          · exact fun s₃ hclose => (endsIn_readOptions ((hs₃ s₃ hclose).trans hle₁)).wrap
          · intro s₃ s₃' hclose hs₃'
            have hle₃ := hs₃ s₃ hclose
            exact (mirrors_readOptions d name plural _ hstart (hle₃.trans hle₁) fun _ => hs₃').wrap
termination_by s.length
decreasing_by
  · exact hlt
  · exact Nat.lt_of_le_of_lt hle₃.length_le hlt

end

end Runs

/-- The same place in the two texts has the same position in them. -/
theorem ofRest_twin {φ : Fork} {s s' r r' : List Char} (hs : φ.Twin s s') (hr : φ.Twin r r') (hle : r <:+ s) :
    Position.ofRest s' r' = Position.ofRest s r := by
  obtain ⟨before, rfl⟩ := hle
  obtain ⟨part, rfl, rfl⟩ := hr
  obtain ⟨read, hread, rfl⟩ := hs
  obtain rfl : before ++ part = read := List.append_cancel_right ((List.append_assoc _ _ _).trans hread)
  rw [List.append_assoc, Position.ofRest_append, Position.ofRest_append]

theorem TwinFailure.locate_eq {φ : Fork} {s s' : List Char} {f f' : Failure} (h : TwinFailure φ f f')
    (hs : φ.Twin s s') (hf : f.Within s s) : f'.locate s' = f.locate s := by
  obtain ⟨hcause, hstart, hstop⟩ := h
  rw [Failure.locate, Failure.locate, hcause, ofRest_twin hs hstart hf.start_suffix,
    ofRest_twin hs hstop hf.stop_suffix]

/-- An error is decided by the text up to its end and by two more characters: every text that is the same so
far is refused for the same cause at the same positions. -/
theorem parse_eq_error_of_alikeBeyond {d : Dialect} {pattern pattern' : String} {e : Error}
    (h : parse d pattern = .error e) (halike : AlikeBeyond e.stop.offset pattern pattern') :
    parse d pattern' = .error e := by
  obtain ⟨before, fault, rest, hpattern, hread, -, hstop⟩ := exists_fault_of_parse h
  have hparts : pattern = .ofList (before ++ fault) ++ .ofList rest := by
    rw [← String.ofList_append, List.append_assoc, ← hpattern, String.ofList_toList]
  rw [hparts, hstop, Position.offset_after, alikeBeyond_append_iff, String.toList_ofList] at halike
  obtain ⟨rest', rfl, hnext⟩ := halike
  let φ : Fork := ⟨rest, rest'.toList, hnext.symm⟩
  have htwin : φ.Twin pattern.toList (String.ofList (before ++ fault) ++ rest').toList := by
    refine ⟨before ++ fault, ?_, ?_⟩
    · rw [hpattern, List.append_assoc]
    · rw [String.toList_append, String.toList_ofList]
  obtain ⟨f', hread', hfault⟩ :=
    (mirrors_readElements d .top fun _ => htwin).error _ hread (List.suffix_refl rest)
  rw [parse_eq, hread] at h
  rw [parse_eq, hread', ← h]
  exact congrArg Except.error (hfault.locate_eq htwin (within_of_readElements hread))

/-- A quotation and two arguments without an end behind an unknown type do not change what is wrong with it. -/
theorem parse_eq_error_of_alikeBeyond_unknownType :
    parse .strict "\x7bné, foo \x7d ok" = .error ⟨.unknownType "foo", ⟨0, 5, 6⟩, ⟨0, 9, 10⟩⟩ ∧
      AlikeBeyond 10 "\x7bné, foo \x7d ok" "\x7bné, foo \x7d \x27\x7b\x27 \x7b\x7b" ∧
      parse .strict "\x7bné, foo \x7d \x27\x7b\x27 \x7b\x7b" =
        .error ⟨.unknownType "foo", ⟨0, 5, 6⟩, ⟨0, 9, 10⟩⟩ := by
  have hread : readElements .strict .top ['\x7b', 'n', 'é', ',', ' ', 'f', 'o', 'o', ' ', '\x7d', ' ', 'o', 'k'] =
      .error ⟨.unknownType "foo", ['f', 'o', 'o', ' ', '\x7d', ' ', 'o', 'k'], ['\x7d', ' ', 'o', 'k']⟩ :=
    readElements_argument rfl
  have hparse : parse .strict "\x7bné, foo \x7d ok" = .error ⟨.unknownType "foo", ⟨0, 5, 6⟩, ⟨0, 9, 10⟩⟩ := by
    rw [parse_eq]
    simp only [String.reduceToList, hread]
    rfl
  have halike : AlikeBeyond 10 "\x7bné, foo \x7d ok" "\x7bné, foo \x7d \x27\x7b\x27 \x7b\x7b" :=
    (@alikeBeyond_append_iff "\x7bné, foo " "\x7d ok" _).mpr
      ⟨"\x7d \x27\x7b\x27 \x7b\x7b", by decide, by decide⟩
  exact ⟨hparse, halike, parse_eq_error_of_alikeBeyond hparse halike⟩

end MessageFormat.Pattern
