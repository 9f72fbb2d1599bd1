import MessageFormat.Proofs.Mentions
import MessageFormat.Proofs.Pattern.WellFormed
import MessageFormat.Proofs.Script.Meaning
import MessageFormat.Proofs.Script.Translation
import MessageFormat.Script.Compile

/-! Every message that was read is compiled, and its function can be read. A pound sign is there only inside
a plural, so that compiling cannot fail; the keys of branches hold no white space, so that they can stand
between quotation marks; and exact keys are integers of 64 bits. -/

namespace MessageFormat.Script

open Pattern (IsName IsExactKey IsKey KeysWellFormed ElementWellFormed WellFormed BranchesWellFormed Dialect)
open Program (isName)

theorem quotable_of_isName {key : String} (h : IsName key) : Quotable key := by
  intro c hc
  have hspace := (h.2 c hc).1
  by_contra hline
  rw [Bool.not_eq_false] at hline
  simp only [Program.isLineTerminator, Bool.or_eq_true, decide_eq_true_eq] at hline
  rcases hline with ((rfl | rfl) | rfl) | rfl <;> cases hspace

theorem trim_of_denotes {digits : List Char} {n : Int} (h : Integer.Denotes digits n) :
    trim digits = digits := by
  have hskip : ∀ s : List Char, (∀ c ∈ s, isWhiteSpace c = false) → skipWhiteSpace s = s := by
    intro s hs
    exact dropWhile_eq_self fun c hc => hs c (List.mem_of_mem_head? hc)
  have hdigits := Integer.isWhiteSpace_of_denotes h
  rw [trim, hskip digits hdigits, hskip _ (by simpa using hdigits), List.reverse_reverse]

theorem ofText_of_denotes {digits : List Char} {n : Int} (h : Integer.Denotes digits n)
    (hn : Integer.InRange n) : Quantity.ofText (.ofList digits) = .integer (Int64.ofInt n) := by
  simp [Quantity.ofText, trim_of_denotes h, Integer.read?_of_denotes h hn]

theorem head?_ne_equals {key : String} (h : IsName key) : key.toList.head? ≠ some '=' := by
  intro hhead
  have hdelimiter := (h.2 '=' (List.mem_of_mem_head? hhead)).2
  cases hdelimiter

theorem exactText?_of_toList_eq {key : String} {digits : List Char} (h : key.toList = '=' :: digits) :
    exactText? key = some (.ofList digits) := by
  simp [exactText?, h]

theorem exactText?_of_isName {key : String} (h : IsName key) : exactText? key = none := by
  unfold exactText?
  split
  · rename_i s hs
    exact absurd (by rw [hs, List.head?_cons]) (head?_ne_equals h)
  · rfl

/-- A key is a name, which is not taken for an exact key, or an exact key of an integer of 64 bits, as
which the compiler and the meaning of messages take it. -/
theorem isKey_cases {plural : Bool} {key : String} (h : IsKey plural key) :
    (IsName key ∧ exactText? key = none ∧ Meaning.exactValue? key = none) ∨
      ∃ text n, exactText? key = some text ∧ Quantity.ofText text = .integer n ∧
        Meaning.exactValue? key = some n.toInt := by
  rcases h with hname | ⟨-, digits, n, hkey, hdigits, hrange⟩
  · exact .inl ⟨hname, exactText?_of_isName hname, if_neg (head?_ne_equals hname)⟩
  · refine .inr ⟨.ofList digits, Int64.ofInt n, exactText?_of_toList_eq hkey,
      ofText_of_denotes hdigits hrange, ?_⟩
    rw [Meaning.exactValue?, hkey, List.head?_cons, if_pos rfl, List.tail_cons,
      Int64.toInt_ofInt_of_le hrange.1 hrange.2]
    exact Integer.value?_eq_some_iff.mpr hdigits

theorem piecesReadable_append {ps qs : List Piece} :
    PiecesReadable (ps ++ qs) ↔ PiecesReadable ps ∧ PiecesReadable qs := by
  induction ps with
  | nil => simp [PiecesReadable]
  | cons p ps ih => simp [PiecesReadable, ih, and_assoc]

theorem armsReadable_iff {arms : List (Test × List Piece)} :
    ArmsReadable arms ↔ ∀ arm ∈ arms, arm.1.Readable ∧ PiecesReadable arm.2 := by
  induction arms with
  | nil => simp [ArmsReadable]
  | cons arm arms ih => simp [ArmsReadable, ih, and_assoc]

theorem pieceReadable_choice {arms : List (Test × List Piece)} {fallback : Option (List Piece)} :
    PieceReadable (.choice arms fallback) ↔
      (∀ arm ∈ arms, arm.1.Readable ∧ PiecesReadable arm.2) ∧ ∀ body ∈ fallback, PiecesReadable body := by
  cases fallback <;> simp [PieceReadable, armsReadable_iff]

theorem mem_of_lookup {branches : Branches} {key : String} {body : List Piece}
    (h : branches.lookup key = some body) : (key, body) ∈ branches := by
  obtain ⟨front, back, rfl, -⟩ := List.lookup_eq_some_iff.mp h
  exact List.mem_append_right front (.head back)

/-- Branches all of which can be read. -/
def BranchesReadable (branches : Branches) : Prop :=
  ∀ branch ∈ branches, PiecesReadable branch.2

theorem BranchesReadable.lookup {branches : Branches} (h : BranchesReadable branches) (key : String) :
    ∀ body ∈ branches.lookup key, PiecesReadable body :=
  fun body hbody => h (key, body) (mem_of_lookup hbody)

theorem selectPiece_readable {name : String} {branches : Branches} (hname : isName name)
    (hkeys : ∀ branch ∈ branches, IsName branch.1) (h : BranchesReadable branches) :
    PieceReadable (selectPiece name branches) := by
  refine pieceReadable_choice.mpr ⟨?_, h.lookup otherKey⟩
  intro arm harm
  obtain ⟨⟨key, body⟩, hbranch, harm⟩ := List.mem_filterMap.mp harm
  dsimp only at harm
  split at harm
  · cases harm
  · cases harm
    exact ⟨⟨hname, quotable_of_isName (hkeys _ hbranch)⟩, h _ hbranch⟩

theorem exactArms_readable {name : String} {branches : Branches} (hname : isName name)
    (hkeys : ∀ branch ∈ branches, IsKey true branch.1) (h : BranchesReadable branches) :
    ∀ arm ∈ exactArms name branches, arm.1.Readable ∧ PiecesReadable arm.2 := by
  intro arm harm
  obtain ⟨branch, hbranch, harm⟩ := List.mem_filterMap.mp harm
  obtain ⟨text, htext, rfl⟩ := Option.map_eq_some_iff.mp harm
  refine ⟨⟨hname, ?_⟩, h _ hbranch⟩
  rcases isKey_cases (hkeys _ hbranch) with ⟨-, hnone, -⟩ | ⟨text', n, hsome, hn, -⟩
  · cases hnone.symm.trans htext
  · cases hsome.symm.trans htext
    exact ⟨n, hn⟩

theorem categoryArms_readable {kind : PluralKind} {subject : Subject} {branches : Branches}
    (hname : isName subject.name) (hkeys : ∀ branch ∈ branches, IsKey true branch.1)
    (h : BranchesReadable branches) :
    ∀ arm ∈ categoryArms kind subject branches, arm.1.Readable ∧ PiecesReadable arm.2 := by
  intro arm harm
  obtain ⟨⟨key, body⟩, hbranch, harm⟩ := List.mem_filterMap.mp harm
  dsimp only at harm
  split at harm
  · cases harm
  · rename_i hcategory
    cases harm
    refine ⟨⟨hname, ?_⟩, h _ hbranch⟩
    rcases isKey_cases (hkeys _ hbranch) with ⟨hkey, -, -⟩ | ⟨text, n, hsome, -, -⟩
    · exact quotable_of_isName hkey
    · exact absurd (.inr (by rw [hsome]; rfl)) hcategory

theorem pluralPiece_readable {kind : PluralKind} {subject : Subject} {branches : Branches}
    (hname : isName subject.name) (hkeys : ∀ branch ∈ branches, IsKey true branch.1)
    (h : BranchesReadable branches) : PieceReadable (pluralPiece kind subject branches) := by
  refine pieceReadable_choice.mpr ⟨?_, h.lookup otherKey⟩
  intro arm harm
  rcases List.mem_append.mp harm with harm | harm
  · exact exactArms_readable hname hkeys h arm harm
  · exact categoryArms_readable hname hkeys h arm harm

/-! ### Whole messages -/

/-- What compiling relies on where the nearest selection is a plural or not: in a plural there is a subject
for a pound sign, and the name of a subject can be read. -/
structure PoundReadable (inPlural : Bool) (pound : Option Subject) : Prop where
  isSome : inPlural = true → pound.isSome
  names : ∀ subject ∈ pound, isName subject.name

theorem forall_key_of_map_eq {branches : Branches} {options : Options} {P : String → Prop}
    (h : branches.map Prod.fst = options.map Prod.fst) (hP : ∀ key ∈ options.map Prod.fst, P key) :
    ∀ branch ∈ branches, P branch.1 :=
  fun branch hbranch => hP branch.1 (h ▸ List.mem_map_of_mem hbranch)

mutual

theorem exists_compileElement {d : Dialect} {inPlural : Bool} {pound : Option Subject}
    (hpound : PoundReadable inPlural pound) :
    ∀ e, ElementWellFormed d inPlural e → (∀ x ∈ e.mentions, isName x) →
      ∃ pieces, compileElement pound e = some pieces ∧ PiecesReadable pieces
  | .literal text, _, _ => ⟨_, rfl, trivial, trivial⟩
  | .argument name, _, hnames => ⟨_, rfl, hnames name (.head _), trivial⟩
  | .number name style, _, hnames => ⟨_, rfl, hnames name (.head _), trivial⟩
  | .date name style, _, hnames => ⟨_, rfl, hnames name (.head _), trivial⟩
  | .time name style, _, hnames => ⟨_, rfl, hnames name (.head _), trivial⟩
  | .select name options, h, hnames => by
      obtain ⟨-, hkeys, hbranches⟩ := h
      have hselect : PoundReadable false pound := ⟨Bool.noConfusion, hpound.names⟩
      obtain ⟨branches, hcompile, hfst, hreadable⟩ :=
        exists_compileOptions hselect options hbranches fun x hx => hnames x (.tail _ hx)
      have hisName : ∀ key ∈ options.map Prod.fst, IsName key :=
        fun key hkey => (hkeys.isKey key hkey).resolve_right fun h => Bool.noConfusion h.1
      refine ⟨[selectPiece name branches], by simp [compileElement, hcompile], ?_, trivial⟩
      exact selectPiece_readable (hnames name (.head _)) (forall_key_of_map_eq hfst hisName) hreadable
  | .plural name kind offset options, h, hnames => by
      obtain ⟨-, hkeys, hbranches⟩ := h
      have hname := hnames name (.head _)
      have hplural : PoundReadable true (some ⟨name, offset⟩) := ⟨fun _ => rfl, by simpa using hname⟩
      obtain ⟨branches, hcompile, hfst, hreadable⟩ :=
        exists_compileOptions hplural options hbranches fun x hx => hnames x (.tail _ hx)
      refine ⟨[pluralPiece kind ⟨name, offset⟩ branches], by simp [compileElement, hcompile], ?_, trivial⟩
      exact pluralPiece_readable hname (forall_key_of_map_eq hfst hkeys.isKey) hreadable
  | .pound, h, _ => by
      obtain ⟨subject, hsubject⟩ := Option.isSome_iff_exists.mp (hpound.isSome h)
      refine ⟨[.formatted (.number .plain) subject], by simp [compileElement, hsubject], ?_, trivial⟩
      exact hpound.names subject hsubject
  | .tag name children, h, hnames => by
      obtain ⟨pieces, hcompile, hreadable⟩ :=
        exists_compileList hpound children h.2.2 fun x hx => hnames x (.tail _ hx)
      have hname := hnames name (.head _)
      refine ⟨tagPieces name pieces, by simp [compileElement, hcompile], ?_⟩
      simp [tagPieces, PiecesReadable, PieceReadable, piecesReadable_append, hname, hreadable]

theorem exists_compileList {d : Dialect} {inPlural : Bool} {pound : Option Subject}
    (hpound : PoundReadable inPlural pound) :
    ∀ es, WellFormed d inPlural es → (∀ x ∈ Element.listMentions es, isName x) →
      ∃ pieces, compileList pound es = some pieces ∧ PiecesReadable pieces
  | [], _, _ => ⟨_, rfl, trivial⟩
  | e :: es, h, hnames => by
      obtain ⟨pieces, hpieces, hreadable⟩ :=
        exists_compileElement hpound e h.1 fun x hx => hnames x (List.mem_append_left _ hx)
      obtain ⟨rest, hrest, hreadable'⟩ :=
        exists_compileList hpound es h.2.2 fun x hx => hnames x (List.mem_append_right _ hx)
      refine ⟨pieces ++ rest, by simp [compileList, hpieces, hrest], ?_⟩
      exact piecesReadable_append.mpr ⟨hreadable, hreadable'⟩

theorem exists_compileOptions {d : Dialect} {inPlural : Bool} {pound : Option Subject}
    (hpound : PoundReadable inPlural pound) :
    ∀ options, BranchesWellFormed d inPlural options → (∀ x ∈ Element.optionMentions options, isName x) →
      ∃ branches, compileOptions pound options = some branches ∧
        branches.map Prod.fst = options.map Prod.fst ∧ BranchesReadable branches
  | [], _, _ => ⟨_, rfl, rfl, fun _ h => absurd h List.not_mem_nil⟩
  | (key, branch) :: options, h, hnames => by
      obtain ⟨body, hbody, hreadable⟩ :=
        exists_compileList hpound branch h.1 fun x hx => hnames x (List.mem_append_left _ hx)
      obtain ⟨branches, hbranches, hfst, hreadable'⟩ :=
        exists_compileOptions hpound options h.2 fun x hx => hnames x (List.mem_append_right _ hx)
      refine ⟨(key, body) :: branches, by simp [compileOptions, hbody, hbranches], ?_, ?_⟩
      · rw [List.map_cons, List.map_cons, hfst]
      · exact List.forall_mem_cons.mpr ⟨hreadable, hreadable'⟩

end

/-- A message that was read is compiled to a function that can be read. -/
theorem exists_ofElements? {d : Dialect} {es : List Element} (h : WellFormed d false es)
    (hnames : ∀ x ∈ Element.listMentions es, isName x) :
    ∃ script, ofElements? es = some script ∧ script.Readable := by
  have hpound : PoundReadable false none := ⟨Bool.noConfusion, by simp⟩
  obtain ⟨body, hbody, hreadable⟩ := exists_compileList hpound es h hnames
  refine ⟨⟨Element.names es, body⟩, by simp [ofElements?, hbody], ?_, ?_, hreadable⟩
  · intro x hx
    exact hnames x (Element.mem_names.mp hx)
  · exact Element.nodup_names es

end MessageFormat.Script
