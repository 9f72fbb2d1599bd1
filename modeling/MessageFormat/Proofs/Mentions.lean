import MessageFormat.Element

/-! The names that a message mentions. The arguments of a message are collected by going through its elements
from left to right and putting each name behind the names that are there already, unless it is one of them. So
they are the names that the message mentions, without the later ones of two that are equal. -/

namespace MessageFormat.Element

mutual

/-- The names read by an element and by all elements inside it, from left to right. -/
def mentions : Element → List String
  | .literal _ | .pound => []
  | .argument name | .number name _ | .date name _ | .time name _ => [name]
  | .select name options => name :: optionMentions options
  | .plural name _ _ options => name :: optionMentions options
  | .tag name children => name :: listMentions children

/-- The names read by a list of elements. -/
def listMentions : List Element → List String
  | [] => []
  | e :: es => mentions e ++ listMentions es

/-- The names read by the branches of a selection. -/
def optionMentions : List (String × List Element) → List String
  | [] => []
  | (_, branch) :: options => listMentions branch ++ optionMentions options

end

mutual

theorem collect_eq_foldl (seen : List String) : ∀ e : Element, collect seen e = e.mentions.foldl insertName seen
  | .literal _ | .pound => rfl
  | .argument _ | .number _ _ | .date _ _ | .time _ _ => rfl
  | .select name options | .plural name _ _ options => by
      rw [collect, mentions, List.foldl_cons, collectOptions_eq_foldl _ options]
  | .tag name children => by rw [collect, mentions, List.foldl_cons, collectList_eq_foldl _ children]

theorem collectList_eq_foldl (seen : List String) : ∀ es : List Element,
    collectList seen es = (listMentions es).foldl insertName seen
  | [] => rfl
  | e :: es => by
      rw [collectList, listMentions, List.foldl_append, collect_eq_foldl seen e, collectList_eq_foldl _ es]

theorem collectOptions_eq_foldl (seen : List String) : ∀ options : List (String × List Element),
    collectOptions seen options = (optionMentions options).foldl insertName seen
  | [] => rfl
  | (_, branch) :: options => by
      rw [collectOptions, optionMentions, List.foldl_append, collectList_eq_foldl seen branch,
        collectOptions_eq_foldl _ options]

end

/-- Inserting names one after the other puts behind the names that are there the first of each new name. -/
theorem foldl_insertName (seen names : List String) :
    names.foldl insertName seen = seen ++ (names.filter (· ∉ seen)).eraseDups := by
  induction names generalizing seen with
  | nil => simp
  | cons name names ih =>
      rw [List.foldl_cons, ih, insertName]
      by_cases h : name ∈ seen
      · rw [if_pos h, List.filter_cons_of_neg (by simpa using h)]
      · have hfilter : names.filter (· ∉ seen ++ [name]) =
            (names.filter (· ∉ seen)).filter fun other => !other == name := by
          rw [List.filter_filter]
          refine List.filter_congr fun other _ => ?_
          by_cases hname : other = name <;> simp [hname]
        rw [if_neg h, List.filter_cons_of_pos (by simpa using h), List.eraseDups_cons, hfilter, List.append_assoc]
        rfl

theorem names_eq_eraseDups (es : List Element) : names es = (listMentions es).eraseDups := by
  rw [names, collectList_eq_foldl, foldl_insertName, List.nil_append,
    List.filter_eq_self.mpr fun _ _ => by simp]

theorem nodup_insertName {names : List String} (h : names.Nodup) (name : String) :
    (insertName names name).Nodup := by
  unfold insertName
  split
  · exact h
  · rename_i hname
    refine List.nodup_append.mpr ⟨h, List.pairwise_singleton _ name, ?_⟩
    rintro a ha b hb rfl
    exact hname (List.mem_singleton.mp hb ▸ ha)

/-- No argument of a message is there twice. -/
theorem nodup_names (es : List Element) : (names es).Nodup := by
  rw [names, collectList_eq_foldl]
  exact List.foldlRecOn _ _ List.nodup_nil fun _ h name _ => nodup_insertName h name

theorem mem_names {es : List Element} {name : String} : name ∈ names es ↔ name ∈ listMentions es := by
  rw [names_eq_eraseDups, List.mem_eraseDups]

theorem names_eq_nil_iff_listMentions {es : List Element} : names es = [] ↔ listMentions es = [] := by
  simp only [List.eq_nil_iff_forall_not_mem, mem_names]

end MessageFormat.Element
