import ProjectCheck.Files.RealPath
import ProjectCheck.Proofs.Text.Loose

/-!
Names in paths. The text of a path is cut at its slashes into the names again; below one path,
different names give different texts.
-/
namespace ProjectCheck

structure IsName (name : LooseText) : Prop where
  ne_empty : name ≠ []
  ne_dot : name ≠ "."
  ne_dots : name ≠ ".."
  noSlash : .char '/' ∉ name

structure IsPathText (text : LooseText) : Prop where
  encodable : text.isEncodable = true
  zeroless : .char '\x00' ∉ text

theorem isPathText_ofString {s : String} (h : '\x00' ∉ s.toList) : IsPathText s where
  encodable := LooseText.isEncodable_ofString s
  zeroless hmem := by
    obtain ⟨c, hc, heq⟩ := List.mem_map.1 hmem
    exact h (Code.char.inj heq ▸ hc)

structure AreSteps (names : List LooseText) : Prop where
  ne_nil : names ≠ []
  names : ∀ name ∈ names, IsName name

theorem IsName.areSteps {name : LooseText} (h : IsName name) : AreSteps [name] :=
  ⟨nofun, List.forall_mem_singleton.2 h⟩

theorem length_octets_replicate (c : Char) (n : Nat) :
    (LooseText.octets (List.replicate n (.char c))).length = n * c.utf8Size := by
  induction n with
  | zero => rw [Nat.zero_mul]; rfl
  | succ n ih =>
    rw [List.replicate_succ', LooseText.octets_append, List.length_append, ih, Nat.succ_mul]
    exact congrArg _ (by simp [LooseText.octets, Code.octets?])

theorem isLongName_replicate {c : Char} {n : Nat} (h : 255 < n * c.utf8Size) :
    isLongName (List.replicate n (.char c)) = true := by
  rw [isLongName, length_octets_replicate]
  exact decide_eq_true h

theorem isName_replicate {c : Char} (hslash : c ≠ '/') {n : Nat} (h : 2 < n) :
    IsName (List.replicate n (.char c)) := by
  have hne : ∀ other : LooseText, other.length ≤ 2 → List.replicate n (.char c) ≠ other := by
    rintro other hshort rfl
    rw [List.length_replicate] at hshort
    omega
  refine ⟨hne [] (by decide), hne "." (by decide), hne ".." (by decide), ?_⟩
  exact fun hmem => hslash (Code.char.inj (List.eq_of_mem_replicate hmem)).symm

namespace Path

/-! Pieces of texts. -/

section Pieces

variable {α : Type} [DecidableEq α]

theorem splitOn_eq_singleton {separator : α} {text : List α} (h : separator ∉ text) :
    splitOn separator text = [text] := by
  induction text with
  | nil => rfl
  | cons c rest ih =>
    obtain ⟨hne, hrest⟩ : separator ≠ c ∧ separator ∉ rest := by simpa using h
    rw [splitOn, if_neg (Ne.symm hne), ih hrest]

theorem splitOn_ne_nil (separator : α) (text : List α) : splitOn separator text ≠ [] := by
  cases text with
  | nil => nofun
  | cons c rest =>
    rw [splitOn]
    split
    · nofun
    · split <;> nofun

/-- The pieces hold what the text holds, but for the separator. -/
theorem mem_of_mem_splitOn {separator : α} {text piece : List α}
    (h : piece ∈ splitOn separator text) : ∀ a ∈ piece, a ∈ text ∧ a ≠ separator := by
  induction text generalizing piece with
  | nil =>
    rw [List.mem_singleton.1 h]
    nofun
  | cons c rest ih =>
    have hlater : ∀ {later : List α}, later ∈ splitOn separator rest →
        ∀ a ∈ later, a ∈ c :: rest ∧ a ≠ separator := fun hmem a ha =>
      ⟨List.mem_cons_of_mem c (ih hmem a ha).1, (ih hmem a ha).2⟩
    rw [splitOn] at h
    split at h
    · rcases List.mem_cons.1 h with rfl | hrest
      · nofun
      · exact hlater hrest
    · rename_i hc
      cases hsplit : splitOn separator rest with
      | nil => exact absurd hsplit (splitOn_ne_nil separator rest)
      | cons first more =>
        rw [hsplit] at h hlater
        rcases List.mem_cons.1 h with rfl | hmore
        · intro a ha
          rcases List.mem_cons.1 ha with rfl | hfirst
          · exact ⟨List.mem_cons_self, hc⟩
          · exact hlater List.mem_cons_self a hfirst
        · exact hlater (List.mem_cons_of_mem _ hmore)

/-- A text is cut at each separator. -/
theorem splitOn_append (separator : α) (before after : List α) :
    splitOn separator (before ++ separator :: after) =
      splitOn separator before ++ splitOn separator after := by
  induction before with
  | nil => exact if_pos rfl
  | cons c rest ih =>
    rw [List.cons_append, splitOn, splitOn]
    split
    · rw [ih, List.cons_append]
    · rw [ih]
      cases hsplit : splitOn separator rest with
      | nil => exact absurd hsplit (splitOn_ne_nil separator rest)
      | cons first more => rfl

end Pieces

/-- The names in a text of characters are such texts. -/
theorem isPlain_of_mem_names {text : String} {name : LooseText} (h : name ∈ names text) :
    name.IsPlain := by
  refine LooseText.IsPlain.of_forall_mem fun code hcode => ?_
  obtain ⟨c, -, hc⟩ := List.mem_map.1 (mem_of_mem_splitOn (List.mem_filter.1 h).1 code hcode).1
  exact ⟨c, hc.symm⟩

theorem pieces_append (before after : LooseText) :
    pieces (before ++ .char '/' :: after) = pieces before ++ pieces after :=
  splitOn_append ..

theorem pieces_of_noSlash {text : LooseText} (h : .char '/' ∉ text) : pieces text = [text] :=
  splitOn_eq_singleton h

theorem joined_singleton (name : LooseText) : joined [name] = name := List.intercalate_singleton

theorem joined_cons_cons (name next : LooseText) (more : List LooseText) :
    joined (name :: next :: more) = name ++ .char '/' :: joined (next :: more) := by
  rw [joined, List.intercalate_cons_cons, List.append_assoc]
  rfl

/-- Names are the pieces of the text that they are put together to. -/
theorem pieces_joined {names : List LooseText} (h : AreSteps names) :
    pieces (joined names) = names := by
  obtain ⟨hne, hnames⟩ := h
  induction names with
  | nil => exact absurd rfl hne
  | cons name rest ih =>
    obtain ⟨hname, hrest⟩ := List.forall_mem_cons.1 hnames
    cases rest with
    | nil => rw [joined_singleton, pieces_of_noSlash hname.noSlash]
    | cons next more =>
      rw [joined_cons_cons, pieces_append, pieces_of_noSlash hname.noSlash, ih nofun hrest]
      rfl

theorem joined_append {before after : List LooseText} (hbefore : before ≠ [])
    (hafter : after ≠ []) :
    joined (before ++ after) = joined before ++ .char '/' :: joined after := by
  induction before with
  | nil => exact absurd rfl hbefore
  | cons name rest ih =>
    cases rest with
    | nil =>
      obtain ⟨next, more, rfl⟩ := List.exists_cons_of_ne_nil hafter
      rw [List.singleton_append, joined_cons_cons, joined_singleton]
    | cons next more =>
      rw [List.cons_append, List.cons_append, joined_cons_cons, ← List.cons_append, ih nofun,
        joined_cons_cons, List.append_assoc, List.cons_append]

/-- What is put together from names starts with a code that is no slash. -/
theorem exists_joined_eq_cons {names : List LooseText} (h : AreSteps names) :
    ∃ code rest, joined names = code :: rest ∧ code ≠ .char '/' := by
  obtain ⟨hne, hnames⟩ := h
  obtain ⟨name, more, rfl⟩ := List.exists_cons_of_ne_nil hne
  have hname := hnames name List.mem_cons_self
  obtain ⟨code, rest, rfl⟩ := List.exists_cons_of_ne_nil hname.ne_empty
  have hcode : code ≠ .char '/' := fun heq => hname.noSlash (heq ▸ List.mem_cons_self)
  cases more with
  | nil => exact ⟨code, rest, joined_singleton _, hcode⟩
  | cons next last => exact ⟨code, _, joined_cons_cons .., hcode⟩

/-! Paths below a path. -/

def below (path : Path) (names : List LooseText) : Path :=
    { path with parts := path.parts ++ names }

def lead (path : Path) : LooseText :=
  if path.parts = [] then List.replicate path.slashes (.char '/') else path.text ++ [.char '/']

theorem lead_eq (path : Path) : path.lead = [] ∨ ∃ before, path.lead = before ++ [.char '/'] := by
  rw [lead]
  split
  · cases path.slashes with
    | zero => exact .inl rfl
    | succ count => exact .inr ⟨_, List.replicate_succ'⟩
  · exact .inr ⟨_, rfl⟩

theorem child_eq_below (path : Path) (name : LooseText) : path.child name = path.below [name] := rfl

theorem below_below (path : Path) (names more : List LooseText) :
    (path.below names).below more = path.below (names ++ more) := by
  rw [below, below, below, List.append_assoc]

theorem text_eq_joined {path : Path} (h : path.slashes ≠ 0 ∨ path.parts ≠ []) :
    path.text = List.replicate path.slashes (.char '/') ++ joined path.parts := by
  refine if_neg fun hboth => ?_
  rcases h with h | h
  · exact h hboth.1
  · exact h (List.isEmpty_iff.1 hboth.2)

theorem text_below (path : Path) {names : List LooseText} (h : names ≠ []) :
    (path.below names).text = path.lead ++ joined names := by
  have hparts : (path.below names).parts = path.parts ++ names := rfl
  have hslashes : (path.below names).slashes = path.slashes := rfl
  have hbelow : (path.below names).parts ≠ [] := List.append_ne_nil_of_right_ne_nil _ h
  rw [text_eq_joined (.inr hbelow), hslashes, hparts, lead]
  by_cases hempty : path.parts = []
  · rw [if_pos hempty, hempty, List.nil_append]
  · rw [if_neg hempty, joined_append hempty h, text_eq_joined (.inr hempty)]
    simp only [List.append_assoc, List.cons_append, List.nil_append]

/-- Below one path different names have different texts. -/
theorem text_below_injective {path : Path} {names other : List LooseText} (h : AreSteps names)
    (hother : AreSteps other) (heq : (path.below names).text = (path.below other).text) :
    names = other := by
  rw [text_below path h.ne_nil, text_below path hother.ne_nil, List.append_right_inj] at heq
  rw [← pieces_joined h, heq, pieces_joined hother]

/-- Each slash that a text starts with has nothing before it. -/
theorem pieces_slashes (count : Nat) (after : LooseText) :
    pieces (List.replicate count (.char '/') ++ after) =
      List.replicate count [] ++ pieces after := by
  induction count with
  | zero => rfl
  | succ count ih =>
    rw [List.replicate_succ, List.cons_append, pieces, splitOn, if_pos rfl, List.replicate_succ,
      List.cons_append, ← ih, pieces]

/-- The pieces of the text of a path below are those of the path and the names. -/
theorem pieces_text_below (path : Path) :
    ∃ before, (before = pieces path.text ∨
        (∀ name ∈ before, name = []) ∧ ∀ name ∈ pieces path.text, name = [] ∨ name = ".") ∧
      ∀ names, AreSteps names → pieces (path.below names).text = before ++ names := by
  by_cases hempty : path.parts = []
  · refine ⟨List.replicate path.slashes [], .inr ⟨fun name hname => ?_, ?_⟩, fun names h => ?_⟩
    · exact List.eq_of_mem_replicate hname
    · rw [text, hempty]
      by_cases hzero : path.slashes = 0
      · rw [if_pos ⟨hzero, rfl⟩]
        decide
      · rw [if_neg fun hboth => hzero hboth.1, pieces_slashes]
        intro name hname
        obtain hname | hname := List.mem_append.1 hname
        · exact .inl (List.eq_of_mem_replicate hname)
        · exact .inl (List.mem_singleton.1 hname)
    · rw [text_below path h.ne_nil, lead, if_pos hempty, pieces_slashes, pieces_joined h]
  · refine ⟨pieces path.text, .inl rfl, fun names h => ?_⟩
    rw [text_below path h.ne_nil, lead, if_neg hempty, List.append_assoc, List.singleton_append,
      pieces_append, pieces_joined h]

/-- Whether a path is absolute is also seen below it. -/
theorem isAbsoluteText_below {path : Path} (hpath : path.text ≠ []) {names : List LooseText}
    (h : AreSteps names) :
    isAbsoluteText (path.below names).text = isAbsoluteText path.text := by
  obtain ⟨code, rest, hbody, hcode⟩ := exists_joined_eq_cons h
  rw [text_below path h.ne_nil, lead]
  by_cases hempty : path.parts = []
  · rw [if_pos hempty, text, hempty]
    cases hslashes : path.slashes with
    | zero =>
      rw [List.replicate_zero, List.nil_append, if_pos ⟨rfl, rfl⟩]
      have hdot : isAbsoluteText "." = false := by decide
      rw [hdot, isAbsoluteText, hbody]
      simp [hcode]
    | succ n =>
      rw [if_neg (by simp)]
      simp [isAbsoluteText, List.replicate_succ]
  · obtain ⟨code, more, hcodes⟩ := List.exists_cons_of_ne_nil hpath
    rw [if_neg hempty, isAbsoluteText, isAbsoluteText, hcodes]
    rfl

theorem names_append_slash (before after : LooseText) :
    names (before ++ .char '/' :: after) = names before ++ names after := by
  rw [names, splitOn_append, List.filter_append]
  rfl

/-- Names that are put after a text are the last names of the path. -/
theorem ofText_append {before : LooseText}
    (hbefore : before = [] ∨ ∃ text, before = text ++ [.char '/']) {names : List LooseText}
    (h : AreSteps names) : ofText (before ++ joined names) = (ofText before).below names := by
  obtain ⟨code, rest, hcodes, hcode⟩ := exists_joined_eq_cons h
  have hslash : (joined names).takeWhile (· = .char '/') = [] := by
    rw [hcodes]
    simp [hcode]
  have hrun : (before ++ joined names).takeWhile (· = .char '/') =
      before.takeWhile (· = .char '/') := by
    rw [List.takeWhile_append, hslash, List.append_nil]
    split
    · rename_i hall
      exact ((List.takeWhile_prefix _).eq_of_length hall).symm
    · rfl
  have hslashes : leadingSlashes (before ++ joined names) = leadingSlashes before := by
    rw [leadingSlashes, hrun, leadingSlashes]
  have hbody : Path.names (joined names) = names := by
    have hpieces := pieces_joined h
    rw [pieces] at hpieces
    rw [Path.names, hpieces, List.filter_eq_self]
    intro name hname
    simp [(h.names name hname).ne_empty, (h.names name hname).ne_dot]
  have hnames : Path.names (before ++ joined names) = Path.names before ++ names := by
    obtain rfl | ⟨text, rfl⟩ := hbefore
    · exact hbody
    · have hblank : Path.names [] = [] := by decide
      have hlead := names_append_slash text []
      rw [hblank, List.append_nil] at hlead
      rw [List.append_assoc, List.singleton_append, names_append_slash, hbody, hlead]
  rw [ofText, hslashes, hnames]
  rfl

/-- Pieces that end in names lead to a path above the names. -/
theorem exists_joinPieces (base : Path) (left : List LooseText) :
    ∃ reached : Path, ∀ names, AreSteps names →
      base.joinPieces (left ++ names) = reached.below names := by
  have hjoin : ∀ (other : Path) (names : List LooseText),
      base.join (other.below names) = (base.join other).below names := by
    intro other names
    have habsolute : (other.below names).isAbsolute = other.isAbsolute := rfl
    rw [join, join, habsolute]
    split
    · rfl
    · rw [below, below, List.append_assoc]
  by_cases hleft : left = []
  · refine ⟨base.join (ofText []), fun names h => ?_⟩
    rw [hleft, List.nil_append, joinPieces]
    exact (congrArg base.join (ofText_append (.inl rfl) h)).trans (hjoin ..)
  · refine ⟨base.join (ofText (joined left ++ [.char '/'])), fun names h => ?_⟩
    have htext := ofText_append (.inr ⟨joined left, rfl⟩) h
    rw [List.append_assoc, List.singleton_append] at htext
    rw [joinPieces, joined_append hleft h.ne_nil, htext, hjoin]

end Path

/-! Places. -/

theorem collapse_append_dots (names : List LooseText) :
    collapse (names ++ [(".." : LooseText)]) = (collapse names).dropLast := by
  rw [collapse, collapse, List.foldl_append, List.foldl_cons, List.foldl_nil, collapseStep,
    if_neg (by decide), if_pos rfl, List.dropLast_reverse]

theorem collapse_append {names more : List LooseText}
    (h : ∀ name ∈ more, name ≠ "." ∧ name ≠ "..") :
    collapse (names ++ more) = collapse names ++ more := by
  have hfold : ∀ stack, more.foldl collapseStep stack = more.reverse ++ stack := by
    induction more with
    | nil => exact fun _ => rfl
    | cons name rest ih =>
      obtain ⟨⟨hdot, hdots⟩, hrest⟩ := List.forall_mem_cons.1 h
      intro stack
      rw [List.foldl_cons, collapseStep, if_neg hdot, if_neg hdots, ih hrest, List.reverse_cons,
        List.append_assoc, List.singleton_append]
  rw [collapse, List.foldl_append, hfold, List.reverse_append, List.reverse_reverse, collapse]

theorem collapse_eq_self {names : List LooseText} (h : ∀ name ∈ names, name ≠ "." ∧ name ≠ "..") :
    collapse names = names :=
  (@collapse_append [] names h).trans (List.nil_append names)

namespace Path

/-- The place of a path below is below the place of the path. -/
theorem locationFrom_below (start : List LooseText) (path : Path) {names : List LooseText}
    (h : ∀ name ∈ names, name ≠ "." ∧ name ≠ "..") :
    (path.below names).locationFrom start = path.locationFrom start ++ names := by
  have habsolute : (path.below names).isAbsolute = path.isAbsolute := rfl
  have hparts : (path.below names).parts = path.parts ++ names := rfl
  rw [locationFrom, locationFrom, habsolute, hparts, ← collapse_append h]
  split
  · rfl
  · rw [List.append_assoc]

end Path

/-- The top directory is its own real path, whatever the files are. -/
theorem Node.realPath_root (files : Node) (start : List LooseText) :
    files.realPath start "/" = .ofLocation [] := by
  have hpieces : Path.pieces "/" = [[], []] := by decide
  have habsolute : isAbsoluteText "/" = true := by decide
  rw [realPath, hpieces, habsolute]
  simp [realWalk, Path.ofLocation, Path.locationFrom, Path.isAbsolute, collapse]

end ProjectCheck
