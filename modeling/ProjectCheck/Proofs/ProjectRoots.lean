import Mathlib.Data.List.Find
import Mathlib.Logic.Function.Iterate
import ProjectCheck.Proofs.Files.Linkless

/-!
Roots of projects. The root for a file is the nearest directory above it that has a marker, if it is
not too far up, else the directory of the file. How the markers are ordered and how often they are
named makes no difference, and a marker that cannot be looked up is not there.
-/
namespace ProjectCheck

/-! Lookups of paths without links. -/

namespace Path

/-- The parts of a path text are names, but for double dots. -/
theorem isName_of_mem_ofText {text name : LooseText} (h : name ∈ (ofText text).parts)
    (hdots : name ≠ "..") : IsName name := by
  obtain ⟨hpiece, hplain⟩ := List.mem_filter.1 h
  obtain ⟨hempty, hdot⟩ := of_decide_eq_true hplain
  exact ⟨hempty, hdot, hdots, fun hmem => (mem_of_mem_splitOn hpiece _ hmem).2 rfl⟩

/-- An absolute path is walked by its parts. -/
theorem walkSteps_text {path : Path} (habsolute : path.slashes ≠ 0)
    (hnames : ∀ name ∈ path.parts, IsName name) : walkSteps path.text = path.parts := by
  have hpieces := Node.pieces_text_of_isAbsolute habsolute
  rw [pieces] at hpieces
  have hblanks : (List.replicate path.slashes ([] : LooseText)).filter (· ≠ []) = [] := by simp
  rw [walkSteps, hpieces, List.filter_append, hblanks, List.nil_append]
  by_cases hempty : path.parts = []
  · have hnil : pieces (joined []) = [[]] := by decide
    rw [hempty, hnil]
    rfl
  · have hfilter : path.parts.filter (· ≠ []) = path.parts :=
      List.filter_eq_self.2 fun name hname => decide_eq_true (hnames name hname).ne_empty
    have hlast : (List.replicate path.slashes [] ++ path.parts).getLast? ≠ some [] := by
      rw [List.getLast?_append, List.getLast?_eq_some_getLast hempty, Option.some_or]
      exact fun hlast =>
        (hnames _ (List.getLast_mem hempty)).ne_empty (Option.some.inj hlast)
    rw [pieces_joined ⟨hempty, hnames⟩, hfilter, if_neg (by simp [hempty]), if_neg hlast]

end Path

namespace Node

variable {root : Node}

theorem ne_tooManyLinks_of_advance {followLast : Bool} {location names : List LooseText}
    {fault : LookupFault} (h : root.advance followLast location names = .failed fault) :
    fault ≠ .tooManyLinks := by
  fun_induction root.advance followLast location names with
  | case1 => cases h
  | case2 _ _ _ _ ih => exact ih h
  | case3 _ _ _ _ _ ih => exact ih h
  | case4 =>
    cases h
    rintro ⟨⟩
  | case5 =>
    cases h
    rintro ⟨⟩
  | case6 => cases h
  | case7 => cases h
  | case8 _ _ _ _ _ _ _ _ _ _ _ ih => exact ih h
  | case9 =>
    cases h
    rintro ⟨⟩
  | case10 =>
    cases h
    rintro ⟨⟩

/-- Names that pass no link are walked without one. -/
theorem advance_ne_atLink {location names : List LooseText} (hnames : ∀ name ∈ names, IsName name)
    (hlinks : ∀ way, way <+: names → ∀ target, root.at? (location ++ way) ≠ some (.link target))
    (target : LooseText) (base rest : List LooseText) :
    root.advance true location names ≠ .atLink target base rest := by
  induction names generalizing location with
  | nil =>
    rw [advance]
    rintro ⟨⟩
  | cons name names ih =>
    obtain ⟨hname, hnames⟩ := List.forall_mem_cons.1 hnames
    rw [advance]
    split
    · rename_i entries hplace
      rw [if_neg hname.ne_dot, if_neg hname.ne_dots]
      split
      · rintro ⟨⟩
      · have hentry : root.at? (location ++ [name]) = Members.get? name entries :=
          at?_child hplace name
        have hnext : ∀ way, way <+: names → ∀ target,
            root.at? (location ++ [name] ++ way) ≠ some (.link target) := by
          intro way hway target
          rw [List.append_assoc]
          exact hlinks _ (List.prefix_append_right_inj [name] |>.2 hway) target
        split
        · rintro ⟨⟩
        · rename_i link hlink
          exact absurd (hentry.trans hlink) (hlinks [name] ⟨names, rfl⟩ link)
        · exact ih hnames hnext
    · rintro ⟨⟩
    · rintro ⟨⟩

end Node

namespace Machine

variable {m : Machine}

structure IsPlain (m : Machine) (path : Path) : Prop where
  absolute : path.slashes ≠ 0
  names : ∀ name ∈ path.parts, IsName name
  unlinked : ∀ way, way <+: path.parts → ∀ target, m.files.at? way ≠ some (.link target)

theorem IsPlain.parent {path : Path} (h : m.IsPlain path) : m.IsPlain path.parent :=
  ⟨h.absolute, fun name hmem => h.names name (List.dropLast_subset _ hmem),
    fun way hway => h.unlinked way (hway.trans (List.dropLast_prefix _))⟩

theorem IsPlain.ofLocation {path : Path} (h : m.IsPlain path) :
    m.IsPlain (.ofLocation path.parts) :=
  ⟨Nat.one_ne_zero, h.names, h.unlinked⟩

theorem IsPlain.find_ne_tooManyLinks {path : Path} (h : m.IsPlain path) :
    m.find path.text ≠ .error .tooManyLinks := by
  have hfollow : ∀ budget, m.files.follow true budget [] path.parts ≠ .error .tooManyLinks := by
    intro budget
    rw [Node.follow]
    split
    · rintro ⟨⟩
    · rename_i fault hfault
      intro hsame
      exact Node.ne_tooManyLinks_of_advance hfault (Except.error.inj hsame)
    · rename_i target base rest hlink
      exact absurd hlink (Node.advance_ne_atLink h.names h.unlinked target base rest)
  have hlocate : m.files.locate m.workingDirectory path.text true ≠ .error .tooManyLinks := by
    rw [Node.locate, Path.walkSteps_text h.absolute h.names, Node.isAbsoluteText_text h.absolute,
      if_pos rfl]
    split
    · rintro ⟨⟩
    · split
      · rintro ⟨⟩
      · split
        · rintro ⟨⟩
        · split
          · rintro ⟨⟩
          · exact hfollow _
  rw [find, Node.lookup]
  cases hplace : m.files.locate m.workingDirectory path.text true with
  | error fault =>
    intro hfault
    obtain rfl := Except.error.inj hfault
    exact hlocate hplace
  | ok place =>
    simp only [bind, Except.bind]
    split <;> rintro ⟨⟩

end Machine

def rootAnswer (root : Path) : Except Failure String :=
  if !root.text.isEncodable then .error (.lookup .unencodable root.text)
  else if root.text.contains (.char '\x00') then .error (.lookup .zeroByte root.text)
  else .ok (Uri.ofPath (.ofLocation root.parts))

/-- A path that passes no link is its own resolved path, if its text can be looked up at all. -/
theorem Machine.IsPlain.uriOf {m : Machine} {path : Path} (h : m.IsPlain path) :
    m.uriOf path = rootAnswer path := by
  rw [Machine.uriOf, Machine.resolve, Node.realPath_of_unlinked h.absolute h.names h.unlinked,
    rootAnswer]
  split
  · rfl
  · split
    · rfl
    · simp only
      split
      · rename_i hloop
        exact absurd hloop h.ofLocation.find_ne_tooManyLinks
      · rfl

/-! Directories above. -/

def Path.up (path : Path) (steps : Nat) : Path := Path.parent^[steps] path

variable {m : Machine} {markers : List LooseText} {directory root : Path}

theorem Machine.IsPlain.up {path : Path} (h : m.IsPlain path) (steps : Nat) :
    m.IsPlain (path.up steps) := by
  induction steps generalizing path with
  | zero => exact h
  | succ steps ih => exact ih h.parent

theorem Path.up_of_parent_eq {path : Path} (htop : path.parent = path) (steps : Nat) :
    path.up steps = path :=
  Function.iterate_fixed htop steps

structure IsNearest (test : Path → Prop) (room : Nat) (directory root : Path) : Prop where
  passes : test root
  above : ∃ steps ≤ room, root = directory.up steps ∧
    ∀ fewer < steps, ¬test (directory.up fewer)

namespace IsNearest

variable {test : Path → Prop} {room : Nat}

theorem here (h : test directory) (room : Nat) : IsNearest test room directory directory :=
  ⟨h, 0, Nat.zero_le room, rfl, nofun⟩

theorem succ (hfails : ¬test directory) (h : IsNearest test room directory.parent root) :
    IsNearest test (room + 1) directory root := by
  obtain ⟨hpasses, steps, hsteps, rfl, hbefore⟩ := h
  refine ⟨hpasses, steps + 1, Nat.succ_le_succ hsteps, rfl, fun fewer hfewer => ?_⟩
  cases fewer with
  | zero => exact hfails
  | succ fewer => exact hbefore fewer (Nat.lt_of_succ_lt_succ hfewer)

theorem unique {other : Path} (h : IsNearest test room directory root)
    (hother : IsNearest test room directory other) : root = other := by
  obtain ⟨hpasses, steps, -, rfl, hbefore⟩ := h
  obtain ⟨hotherPasses, otherSteps, -, rfl, hotherBefore⟩ := hother
  rcases Nat.lt_trichotomy steps otherSteps with hlt | rfl | hgt
  · exact absurd hpasses (hotherBefore steps hlt)
  · rfl
  · exact absurd hotherPasses (hbefore otherSteps hgt)

end IsNearest

/-- The directories that are looked at are those above that are near enough. -/
theorem mem_ancestors_iff {room : Nat} :
    root ∈ ancestors room directory ↔ ∃ steps ≤ room, root = directory.up steps := by
  induction room generalizing directory with
  | zero =>
    rw [ancestors, List.mem_singleton]
    constructor
    · exact fun h => ⟨0, Nat.le_refl 0, h⟩
    · rintro ⟨steps, hsteps, rfl⟩
      rw [Nat.le_zero.1 hsteps]
      rfl
  | succ room ih =>
    rw [ancestors]
    split
    · rename_i htop
      rw [List.mem_singleton]
      constructor
      · exact fun h => ⟨0, Nat.zero_le _, h⟩
      · rintro ⟨steps, -, rfl⟩
        exact Path.up_of_parent_eq htop steps
    · rw [List.mem_cons, ih]
      constructor
      · rintro (rfl | ⟨steps, hsteps, rfl⟩)
        · exact ⟨0, Nat.zero_le _, rfl⟩
        · exact ⟨steps + 1, Nat.succ_le_succ hsteps, rfl⟩
      · rintro ⟨_ | steps, hsteps, rfl⟩
        · exact .inl rfl
        · exact .inr ⟨steps, Nat.le_of_succ_le_succ hsteps, rfl⟩

/-- The first of them that passes is the nearest. -/
theorem isNearest_of_find? {test : Path → Bool} {room : Nat}
    (h : (ancestors room directory).find? test = some root) :
    IsNearest (test · = true) room directory root := by
  induction room generalizing directory with
  | zero =>
    rw [ancestors, List.find?_cons] at h
    split at h
    · obtain rfl := Option.some.inj h
      exact .here ‹_› 0
    · cases h
  | succ room ih =>
    rw [ancestors, apply_ite (List.find? test)] at h
    simp only [List.find?_cons, List.find?_nil] at h
    split at h
    · split at h
      · obtain rfl := Option.some.inj h
        exact .here ‹_› _
      · cases h
    · split at h
      · obtain rfl := Option.some.inj h
        exact .here ‹_› _
      · exact (ih h).succ (Bool.eq_false_iff.1 ‹_›)

/-! Roots. -/

def Marks (m : Machine) (markers : List LooseText) (directory : Path) : Prop :=
  ∃ marker ∈ markers, ∃ found, m.find (directory.join (Path.ofText marker)).text = .ok found

theorem holds_eq_ok_true_iff {path : Path} :
    m.holds path = .ok true ↔ ∃ found, m.find path.text = .ok found := by
  rw [Machine.holds, Machine.isAt]
  split
  · rename_i hfound
    exact iff_of_true rfl ⟨_, hfound⟩
  · rename_i hfault
    exact iff_of_false nofun fun ⟨found, hfound⟩ => by simp [hfound] at hfault
  · rename_i hfault
    exact iff_of_false nofun fun ⟨found, hfound⟩ => by simp [hfound] at hfault

theorem hasMarker_iff : hasMarker m markers directory = true ↔ Marks m markers directory := by
  rw [hasMarker, List.any_eq_true]
  refine exists_congr fun marker => and_congr_right fun _ => ?_
  rw [← holds_eq_ok_true_iff]
  cases hheld : m.holds (directory.join (Path.ofText marker)) with
  | error failure => exact iff_of_false nofun nofun
  | ok found => cases found <;> simp

theorem nearestRoot_of_isNearest
    (h : IsNearest (Marks m markers) rootDepth directory root) :
    nearestRoot m markers directory = root := by
  have hmarks : (hasMarker m markers · = true) = Marks m markers :=
    funext fun _ => propext hasMarker_iff
  rw [nearestRoot]
  cases hfound : (ancestors rootDepth directory).find? (hasMarker m markers) with
  | some found =>
    have hnearest := isNearest_of_find? hfound
    rw [hmarks] at hnearest
    exact hnearest.unique h
  | none =>
    obtain ⟨hpasses, steps, hsteps, rfl, -⟩ := h
    exact absurd (hasMarker_iff.2 hpasses)
      (List.find?_eq_none.1 hfound _ (mem_ancestors_iff.2 ⟨steps, hsteps, rfl⟩))

theorem nearestRoot_of_unmarked
    (h : ∀ steps ≤ rootDepth, ¬Marks m markers (directory.up steps)) :
    nearestRoot m markers directory = directory := by
  have hnone : (ancestors rootDepth directory).find? (hasMarker m markers) = none := by
    refine List.find?_eq_none.2 fun root hmem hpasses => ?_
    obtain ⟨steps, hsteps, rfl⟩ := mem_ancestors_iff.1 hmem
    exact h steps hsteps (hasMarker_iff.1 hpasses)
  rw [nearestRoot, hnone, Option.getD_none]

/-- Only what is found in the directories that are looked at matters. -/
theorem nearestRoot_congr {other : List LooseText}
    (h : ∀ steps ≤ rootDepth,
      Marks m other (directory.up steps) ↔ Marks m markers (directory.up steps)) :
    nearestRoot m other directory = nearestRoot m markers directory := by
  have hsame : ∀ root ∈ ancestors rootDepth directory,
      hasMarker m other root = hasMarker m markers root := by
    intro root hmem
    obtain ⟨steps, hsteps, rfl⟩ := mem_ancestors_iff.1 hmem
    rw [Bool.eq_iff_iff, hasMarker_iff, hasMarker_iff]
    exact h steps hsteps
  rw [nearestRoot, nearestRoot, List.find?_congr hsame]

def startDirectory (m : Machine) (start : Path) : Path :=
  match m.find start.text with
  | .ok (_, .directory _) => start
  | _ => start.parent

/-- The search fails before it starts where the start cannot be looked up for its length. -/
theorem findProjectRoot_of_tooLong {start : Path} (h : m.find start.text = .error .nameTooLong) :
    findProjectRoot m start markers = .error (.lookup .nameTooLong start.text) := by
  rw [findProjectRoot, Machine.holdsDirectory, Machine.isAt, h]
  rfl

theorem findProjectRoot_eq {start : Path} (h : m.find start.text ≠ .error .nameTooLong) :
    findProjectRoot m start markers = m.uriOf (nearestRoot m markers (startDirectory m start)) := by
  obtain ⟨found, hholds, hstart⟩ : ∃ found : Bool, m.holdsDirectory start = .ok found ∧
      startDirectory m start = if found then start else start.parent := by
    rw [Machine.holdsDirectory, Machine.isAt, startDirectory]
    cases hfound : m.find start.text with
    | ok found =>
      obtain ⟨place, node⟩ := found
      cases node with
      | file content => exact ⟨false, rfl, rfl⟩
      | link target => exact ⟨false, rfl, rfl⟩
      | directory entries => exact ⟨true, rfl, rfl⟩
    | error fault =>
      cases fault with
      | nameTooLong => exact absurd hfound h
      | missing => exact ⟨false, rfl, rfl⟩
      | notDirectory => exact ⟨false, rfl, rfl⟩
      | tooManyLinks => exact ⟨false, rfl, rfl⟩
      | zeroByte => exact ⟨false, rfl, rfl⟩
      | unencodable => exact ⟨false, rfl, rfl⟩
  rw [findProjectRoot, hholds, hstart]
  simp only [bind, Except.bind]

/-- What the search for a root answers: the nearest directory with a marker, or else the first one;
it depends only on which markers there are, and one that cannot be looked up is not there. -/
structure FindsRoot (m : Machine) (start : Path) (markers : List LooseText) : Prop where
  tooLong : m.find start.text = .error .nameTooLong →
    findProjectRoot m start markers = .error (.lookup .nameTooLong start.text)
  marked : m.find start.text ≠ .error .nameTooLong → ∀ root,
    IsNearest (Marks m markers) rootDepth (startDirectory m start) root →
      findProjectRoot m start markers = rootAnswer root
  unmarked : m.find start.text ≠ .error .nameTooLong →
    (∀ steps ≤ rootDepth, ¬Marks m markers ((startDirectory m start).up steps)) →
      findProjectRoot m start markers = rootAnswer (startDirectory m start)
  members : ∀ other, (∀ marker, marker ∈ other ↔ marker ∈ markers) →
    findProjectRoot m start other = findProjectRoot m start markers
  absent : ∀ marker, (∀ steps ≤ rootDepth,
      m.holds (((startDirectory m start).up steps).join (Path.ofText marker)) ≠ .ok true) →
    findProjectRoot m start (marker :: markers) = findProjectRoot m start markers

theorem Machine.IsPlain.findsRoot {start : Path} (h : m.IsPlain start) (markers : List LooseText) :
    FindsRoot m start markers := by
  have hstart : m.IsPlain (startDirectory m start) := by
    rw [startDirectory]
    split
    · exact h
    · exact h.parent
  have hcongr : ∀ other, (∀ steps ≤ rootDepth, Marks m other ((startDirectory m start).up steps) ↔
      Marks m markers ((startDirectory m start).up steps)) →
      findProjectRoot m start other = findProjectRoot m start markers := by
    intro other hsame
    by_cases hlong : m.find start.text = .error .nameTooLong
    · rw [findProjectRoot_of_tooLong hlong, findProjectRoot_of_tooLong hlong]
    · rw [findProjectRoot_eq hlong, findProjectRoot_eq hlong, nearestRoot_congr hsame]
  refine ⟨findProjectRoot_of_tooLong, fun hlong root hroot => ?_, fun hlong hnone => ?_,
    fun other hmembers => hcongr other fun steps hsteps => ?_,
    fun marker hfails => hcongr _ fun steps hsteps => ?_⟩
  · obtain ⟨steps, -, rfl, -⟩ := hroot.above
    rw [findProjectRoot_eq hlong, nearestRoot_of_isNearest hroot, (hstart.up steps).uriOf]
  · rw [findProjectRoot_eq hlong, nearestRoot_of_unmarked hnone, hstart.uriOf]
  · exact exists_congr fun marker => and_congr_left fun _ => hmembers marker
  · constructor
    · rintro ⟨found, hmem, hfound⟩
      rcases List.mem_cons.1 hmem with rfl | hmem
      · exact absurd (holds_eq_ok_true_iff.2 hfound) (hfails steps hsteps)
      · exact ⟨found, hmem, hfound⟩
    · rintro ⟨found, hmem, hfound⟩
      exact ⟨found, List.mem_cons_of_mem _ hmem, hfound⟩

/-- For every absolute start without double dots and links the search answers with the nearest
directory that has a marker, or else with the first one. -/
theorem findProjectRoot_nearest (m : Machine) (text : LooseText) (markers : List LooseText)
    (habsolute : (Path.ofText text).isAbsolute = true)
    (hdots : (".." : LooseText) ∉ (Path.ofText text).parts)
    (hlinks : ∀ way, way <+: (Path.ofText text).parts → ∀ target,
      m.files.at? way ≠ some (.link target)) :
    FindsRoot m (Path.ofText text) markers := by
  refine Machine.IsPlain.findsRoot ⟨?_, fun name hname => ?_, hlinks⟩ markers
  · exact bne_iff_ne.1 habsolute
  · exact Path.isName_of_mem_ofText hname fun hsame => hdots (hsame ▸ hname)

/-- A name that is too long is not looked up. -/
theorem find_of_isLongName {entries : List (LooseText × Node)} {name : LooseText}
    (hfiles : m.files = .directory entries) (hname : IsName name) (htext : IsPathText name)
    (hlong : isLongName name = true) :
    m.find (Path.ofLocation [name]).text = .error .nameTooLong := by
  have hslash : (Path.ofLocation [name]).text = .char '/' :: name :=
    congrArg (Code.char '/' :: ·) (Path.joined_singleton name)
  have hsteps : walkSteps (Path.ofLocation [name]).text = [name] :=
    Path.walkSteps_text Nat.one_ne_zero (List.forall_mem_singleton.2 hname)
  have hadvance : m.files.advance true [] [name] = .failed .nameTooLong := by
    rw [hfiles, Node.advance]
    simp only [Node.at?, hname.ne_dot, hname.ne_dots, hlong, if_true, if_false]
  have hlocate : m.files.locate m.workingDirectory (Path.ofLocation [name]).text true =
      .error .nameTooLong := by
    rw [Node.locate, hsteps, Node.isAbsoluteText_text Nat.one_ne_zero, if_pos rfl]
    rw [if_neg, if_neg, if_neg]
    · split
      · rfl
      · rw [Node.follow, hadvance]
    · rw [hslash, List.contains_iff_mem]
      exact List.not_mem_cons_of_ne_of_not_mem (by decide) htext.zeroless
    · rw [hslash, Bool.not_eq_true', Bool.not_eq_false]
      exact htext.encodable
    · rw [hslash]
      exact List.cons_ne_nil _ _
  rw [Machine.find, Node.lookup, hlocate]
  rfl

def markedTop : Machine where
  files := .directory [("mk", .file []), ("src", .directory [("a.py", .file [])])]
  workingDirectory := []

theorem isLinkless_markedTop : markedTop.files.IsLinkless := by
  have hname : ∀ name ∈ [("mk" : LooseText), "src", "a.py"], IsName name := by
    intro name hmem
    simp only [List.mem_cons, List.not_mem_nil, or_false] at hmem
    rcases hmem with rfl | rfl | rfl <;> exact ⟨by decide, by decide, by decide, by decide⟩
  have hsource : (Node.directory [("a.py", .file [])]).IsLinkless :=
    .directory (List.forall_mem_singleton.2 (hname _ (by decide))) (by decide)
      (List.forall_mem_singleton.2 (.file []))
  refine .directory ?_ (by decide) ?_
  · exact List.forall_mem_cons.2 ⟨hname _ (by decide),
      List.forall_mem_singleton.2 (hname _ (by decide))⟩
  · exact List.forall_mem_cons.2 ⟨.file [], List.forall_mem_singleton.2 hsource⟩

/-- The marker is found from the file below it. A start whose name is too long has no root, though
the directory that it would be in has the marker. -/
theorem findProjectRoot_nearest_markedTop :
    let start := Path.ofText (.char '/' :: List.replicate 256 (.char 'x'))
    findProjectRoot markedTop (.ofText "/src/a.py") ["go.mod", "mk"] = .ok "file:///" ∧
    Marks markedTop ["mk"] start.parent ∧
    findProjectRoot markedTop start ["mk"] = .error (.lookup .nameTooLong start.text) := by
  intro start
  have hlinks : ∀ way target, markedTop.files.at? way ≠ some (.link target) :=
    isLinkless_markedTop.at?_ne_link
  have hmarked : ∀ markers, ("mk" : LooseText) ∈ markers →
      Marks markedTop markers (.ofLocation []) :=
    fun markers hmem => ⟨"mk", hmem, (["mk"], .file []), rfl⟩
  constructor
  · have hfind : FindsRoot markedTop (.ofText "/src/a.py") ["go.mod", "mk"] :=
      findProjectRoot_nearest markedTop "/src/a.py" ["go.mod", "mk"] (by decide) (by decide)
        fun way _ => hlinks way
    have hfound : markedTop.find (Path.ofText "/src/a.py").text =
        .ok (["src", "a.py"], .file []) := rfl
    have hstart : startDirectory markedTop (.ofText "/src/a.py") = .ofLocation ["src"] := by
      decide +kernel
    have hbelow : ¬Marks markedTop ["go.mod", "mk"] (.ofLocation ["src"]) := by
      rw [← hasMarker_iff]
      decide +kernel
    have hnearest : IsNearest (Marks markedTop ["go.mod", "mk"]) rootDepth (.ofLocation ["src"])
        (.ofLocation []) := .succ hbelow (.here (hmarked _ (by decide)) _)
    refine (hfind.marked (by rw [hfound]; nofun) (.ofLocation []) ?_).trans (by decide +kernel)
    rw [hstart]
    exact hnearest
  · have hname : IsName (List.replicate 256 (.char 'x')) := isName_replicate (by decide) (by decide)
    have htext : IsPathText (List.replicate 256 (.char 'x')) := by
      refine ⟨List.all_eq_true.2 fun code hmem => ?_, fun hmem => ?_⟩
      · rw [List.eq_of_mem_replicate hmem]
        rfl
      · exact absurd (List.eq_of_mem_replicate hmem) (by decide)
    have hstart : start = .ofLocation [List.replicate 256 (.char 'x')] := by
      have hnames := Path.ofText_append (.inr ⟨[], rfl⟩ : [.char '/'] = [] ∨ _) hname.areSteps
      rw [Path.joined_singleton] at hnames
      exact hnames.trans rfl
    have hdots : (".." : LooseText) ∉ start.parts := by
      rw [hstart]
      exact fun hmem => hname.ne_dots (List.mem_singleton.1 hmem).symm
    have hfind : FindsRoot markedTop start ["mk"] :=
      findProjectRoot_nearest markedTop _ ["mk"] (congrArg Path.isAbsolute hstart) hdots
        fun way _ => hlinks way
    refine ⟨?_, hfind.tooLong ?_⟩
    · rw [hstart]
      exact hmarked _ (by decide)
    · rw [hstart]
      exact find_of_isLongName rfl hname htext (isLongName_replicate (by decide))

end ProjectCheck
