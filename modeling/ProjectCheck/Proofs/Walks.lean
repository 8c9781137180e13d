import Mathlib.Data.List.Basic
import ProjectCheck.Proofs.Discovery
import ProjectCheck.Proofs.Files.RealPath
import ProjectCheck.Proofs.Files.Sorted

/-!
What a walk finds. Names lead to a wanted file when each directory on the way is no link and can be
listed and none of those below the first one is ignored. Just these files are found, each of them
once, in the order of the names that lead to them, unless one of the directories that a walk goes
into stands too deep for it.
-/
namespace ProjectCheck

theorem Sighting.mem_filterMap_file? {path : Path} {met : List Sighting} :
    path ∈ met.filterMap Sighting.file? ↔ .file path ∈ met := by
  rw [List.mem_filterMap]
  constructor
  · rintro ⟨sighting, hmem, hpath⟩
    cases sighting with
    | file other => exact Option.some.inj hpath ▸ hmem
    | unreadable | tooDeep => cases hpath
  · exact fun hmem => ⟨.file path, hmem, rfl⟩

theorem Path.below_nil (path : Path) : path.below [] = path := by
  rw [Path.below, List.append_nil]

theorem Path.below_injective (path : Path) : ∀ names other : List LooseText,
    path.below names = path.below other → names = other :=
  fun _ _ heq => List.append_cancel_left (congrArg Path.parts heq)

theorem Path.child_below (path : Path) (name : LooseText) (names : List LooseText) :
    (path.child name).below names = path.below (name :: names) := by
  rw [child_eq_below, below_below, List.singleton_append]

namespace Machine

structure Lists (m : Machine) (path : Path) (location : List LooseText) : Prop where
  short : path.text.octets.length ≤ 4095
  allowed : location ∉ m.unlistable

inductive HoldsFile (m : Machine) (path : Path) (name : LooseText) : Node → Prop
  | file (content : Bytes) : HoldsFile m path name (.file content)
  | link (target : LooseText) {place : List LooseText} {content : Bytes}
      (h : m.find (path.entryText name) = .ok (place, .file content)) :
      HoldsFile m path name (.link target)

/-- From a directory that a path leads to, at a location, a walk reaches a wanted file: it goes into
the directories of the way, one in another, where it finds the name. -/
structure Reaches (m : Machine) (search : Search) (path : Path) (location : List LooseText)
    (top : Node) (way : List LooseText) (name : LooseText) : Prop where
  isFile : ∃ entry, top.at? (way ++ [name]) = some entry ∧ m.HoldsFile (path.below way) name entry
  wanted : Text.lower (path.below (way ++ [name])).suffix ∈ search.extensions
  listed : ∀ before, before <+: way →
    (∃ entries, top.at? before = some (.directory entries)) ∧
      m.Lists (path.below before) (location ++ before)
  entered : ∀ step ∈ way, step ∉ search.ignored

/-- From such a directory a walk goes into the directory at the end of the way: those before it can
be listed. -/
structure Enters (m : Machine) (search : Search) (path : Path) (location : List LooseText)
    (top : Node) (way : List LooseText) : Prop where
  isDirectory : ∃ entries, top.at? way = some (.directory entries)
  listed : ∀ before, before <+: way → before ≠ way →
    m.Lists (path.below before) (location ++ before)
  entered : ∀ step ∈ way, step ∉ search.ignored

def LeadTo (m : Machine) (search : Search) (path : Path) (location : List LooseText) (top : Node)
    (names : List LooseText) : Prop :=
  ∃ way name, names = way ++ [name] ∧ m.Reaches search path location top way name

inductive LeadInto (m : Machine) (search : Search) (path : Path) (location : List LooseText)
    (name : LooseText) (entry : Node) : List LooseText → Prop
  | itself (hfile : m.HoldsFile path name entry)
      (hwanted : Text.lower (path.child name).suffix ∈ search.extensions) :
      LeadInto m search path location name entry [name]
  | under {rest : List LooseText} (hentered : name ∉ search.ignored)
      (hrest : m.LeadTo search (path.child name) (location ++ [name]) entry rest) :
      LeadInto m search path location name entry (name :: rest)

variable {m : Machine} {search : Search} {path : Path} {location : List LooseText}

/-! What is reached, by the entries. -/

theorem Reaches.opened {top : Node} {way : List LooseText} {name : LooseText}
    (h : m.Reaches search path location top way name) :
    ∃ entries, top = .directory entries ∧ m.Lists path location := by
  obtain ⟨⟨entries, htop⟩, hlists⟩ := h.listed [] (List.nil_prefix ..)
  rw [Path.below_nil, List.append_nil] at hlists
  exact ⟨entries, Option.some.inj htop, hlists⟩

theorem reaches_nil_iff {entries : List (LooseText × Node)} {name : LooseText}
    (hlists : m.Lists path location) :
    m.Reaches search path location (.directory entries) [] name ↔
      ∃ entry, Members.get? name entries = some entry ∧ m.HoldsFile path name entry ∧
        Text.lower (path.child name).suffix ∈ search.extensions := by
  have hat : (Node.directory entries).at? ([] ++ [name]) = Members.get? name entries :=
    Node.at?_child rfl name
  constructor
  · intro h
    obtain ⟨entry, hentry, hfile⟩ := h.isFile
    rw [Path.below_nil] at hfile
    exact ⟨entry, hat.symm.trans hentry, hfile, h.wanted⟩
  · rintro ⟨entry, hentry, hfile, hwanted⟩
    refine ⟨⟨entry, hat.trans hentry, ?_⟩, hwanted, fun before hbefore => ?_, nofun⟩
    · rwa [Path.below_nil]
    · obtain rfl := List.prefix_nil.1 hbefore
      rw [Path.below_nil, List.append_nil]
      exact ⟨⟨entries, rfl⟩, hlists⟩

theorem reaches_cons_iff {entries : List (LooseText × Node)} {step name : LooseText}
    {way : List LooseText} (hlists : m.Lists path location) :
    m.Reaches search path location (.directory entries) (step :: way) name ↔
      step ∉ search.ignored ∧ ∃ entry, Members.get? step entries = some entry ∧
        m.Reaches search (path.child step) (location ++ [step]) entry way name := by
  have hplace : ∀ names, location ++ [step] ++ names = location ++ step :: names := by
    intro names
    rw [List.append_assoc, List.singleton_append]
  constructor
  · intro h
    obtain ⟨⟨inner, hinner⟩, -⟩ := h.listed [step] (by simp)
    obtain ⟨entry, hentry, -⟩ := Option.bind_eq_some_iff.1 hinner
    have hat := Node.at?_cons hentry
    obtain ⟨found, hfound, hfile⟩ := h.isFile
    obtain ⟨hentered, hrest⟩ := List.forall_mem_cons.1 h.entered
    refine ⟨hentered, entry, hentry, ⟨found, ?_, ?_⟩, ?_, fun before hbefore => ?_, hrest⟩
    · rw [← hat]
      exact hfound
    · rw [Path.child_below]
      exact hfile
    · rw [Path.child_below]
      exact h.wanted
    · rw [Path.child_below, hplace, ← hat]
      exact h.listed (step :: before) (List.cons_prefix_cons.2 ⟨rfl, hbefore⟩)
  · rintro ⟨hentered, entry, hentry, h⟩
    have hat := Node.at?_cons hentry
    obtain ⟨found, hfound, hfile⟩ := h.isFile
    refine ⟨⟨found, ?_, ?_⟩, ?_, fun before hbefore => ?_,
      List.forall_mem_cons.2 ⟨hentered, h.entered⟩⟩
    · rw [List.cons_append, hat]
      exact hfound
    · rw [← Path.child_below]
      exact hfile
    · rw [List.cons_append, ← Path.child_below]
      exact h.wanted
    · obtain rfl | ⟨more, rfl, hmore⟩ := List.prefix_cons_iff.1 hbefore
      · rw [Path.below_nil, List.append_nil]
        exact ⟨⟨entries, rfl⟩, hlists⟩
      · rw [hat, ← Path.child_below, ← hplace]
        exact h.listed more hmore

/-- In a directory that can be listed, names lead to a wanted file through one of its entries. -/
theorem leadTo_directory_iff {entries : List (LooseText × Node)} (hlists : m.Lists path location)
    (hdistinct : (Members.names entries).Nodup) (names : List LooseText) :
    m.LeadTo search path location (.directory entries) names ↔
      ∃ entry ∈ entries, m.LeadInto search path location entry.1 entry.2 names := by
  constructor
  · rintro ⟨way, name, rfl, h⟩
    cases way with
    | nil =>
      obtain ⟨entry, hentry, hfile, hwanted⟩ := (reaches_nil_iff hlists).1 h
      exact ⟨_, Members.mem_of_get? hentry, .itself hfile hwanted⟩
    | cons step way =>
      obtain ⟨hentered, entry, hentry, hrest⟩ := (reaches_cons_iff hlists).1 h
      exact ⟨_, Members.mem_of_get? hentry, .under hentered ⟨way, name, rfl, hrest⟩⟩
  · rintro ⟨⟨step, entry⟩, hmem, h⟩
    have hentry := Members.get?_of_mem hdistinct hmem
    cases h with
    | itself hfile hwanted =>
      exact ⟨[], step, rfl, (reaches_nil_iff hlists).2 ⟨entry, hentry, hfile, hwanted⟩⟩
    | under hentered hrest =>
      obtain ⟨way, name, rfl, hrest⟩ := hrest
      exact ⟨step :: way, name, rfl, (reaches_cons_iff hlists).2 ⟨hentered, entry, hentry, hrest⟩⟩

end Machine

/-- What a walk below a path meets: the files by the names found, which are just those that lead to
what is to be found, in their order. -/
structure Meets (path : Path) (met : List Sighting) (found : List (List LooseText))
    (leads : List LooseText → Prop) : Prop where
  files : met.filterMap Sighting.file? = found.map path.below
  ordered : found.Pairwise (· < ·)
  exact : ∀ names, names ∈ found ↔ leads names

namespace Meets

variable {path : Path} {met more : List Sighting} {found others : List (List LooseText)}
  {leads leadsOn : List LooseText → Prop}

theorem nil (hmet : met.filterMap Sighting.file? = []) (h : ∀ names, ¬leads names) :
    Meets path met [] leads :=
  ⟨hmet, .nil, fun names => ⟨nofun, fun hnames => absurd hnames (h names)⟩⟩

theorem congr (h : Meets path met found leads) (hsame : ∀ names, leads names ↔ leadsOn names) :
    Meets path met found leadsOn :=
  ⟨h.files, h.ordered, fun names => (h.exact names).trans (hsame names)⟩

/-- What is met in one entry stands before what is met in the entries after it. -/
theorem append (h : Meets path met found leads) (hmore : Meets path more others leadsOn)
    (hlt : ∀ names other, leads names → leadsOn other → names < other) :
    Meets path (met ++ more) (found ++ others) fun names => leads names ∨ leadsOn names where
  files := by rw [List.filterMap_append, h.files, hmore.files, List.map_append]
  ordered := List.pairwise_append.2 ⟨h.ordered, hmore.ordered, fun names hnames other hother =>
    hlt names other ((h.exact names).1 hnames) ((hmore.exact other).1 hother)⟩
  exact names := by rw [List.mem_append, h.exact, hmore.exact]

end Meets

namespace Machine

variable {m : Machine} {search : Search} {path : Path} {location : List LooseText}

theorem LeadInto.exists_rest {name : LooseText} {entry : Node} {names : List LooseText}
    (h : m.LeadInto search path location name entry names) : ∃ rest, names = name :: rest := by
  cases h with
  | itself => exact ⟨[], rfl⟩
  | @under rest => exact ⟨rest, rfl⟩

theorem LeadTo.opened {top : Node} {names : List LooseText}
    (h : m.LeadTo search path location top names) :
    ∃ entries, top = .directory entries ∧ m.Lists path location := by
  obtain ⟨way, name, -, hreaches⟩ := h
  exact hreaches.opened

/-! What is met in one entry. -/

/-- Only the name of an entry that is no directory leads to a wanted file in it. -/
theorem leadInto_iff {name : LooseText} {entry : Node} (h : ∀ inner, entry ≠ .directory inner)
    (names : List LooseText) : m.LeadInto search path location name entry names ↔
      names = [name] ∧ m.HoldsFile path name entry ∧ search.wants (path.child name) := by
  constructor
  · intro hleads
    cases hleads with
    | itself hfile hwanted => exact ⟨rfl, hfile, List.contains_iff_mem.2 hwanted⟩
    | under hentered hrest =>
      obtain ⟨inner, hentry, -⟩ := hrest.opened
      exact absurd hentry (h inner)
  · rintro ⟨rfl, hfile, hwanted⟩
    exact .itself hfile (List.contains_iff_mem.1 hwanted)

theorem meets_file {name : LooseText} {entry : Node} (h : ∀ inner, entry ≠ .directory inner)
    (hfile : m.HoldsFile path name entry) :
    ∃ found, Meets path (if search.wants (path.child name) then [.file (path.child name)] else [])
      found (m.LeadInto search path location name entry) := by
  split
  · rename_i hwanted
    refine ⟨[[name]], rfl, List.pairwise_singleton _ _, fun names => ?_⟩
    rw [leadInto_iff h, List.mem_singleton]
    exact (and_iff_left ⟨hfile, hwanted⟩).symm
  · rename_i hunwanted
    exact ⟨[], .nil rfl fun names hleads => hunwanted ((leadInto_iff h names).1 hleads).2.2⟩

theorem meets_sightLink (m : Machine) (search : Search) (path : Path) (location : List LooseText)
    (name target : LooseText) : ∃ found, Meets path (m.sightLink search path name) found
      (m.LeadInto search path location name (.link target)) := by
  have hlink : ∀ inner, Node.link target ≠ .directory inner := nofun
  by_cases hfile : m.HoldsFile path name (.link target)
  · have hmet : m.sightLink search path name =
        if search.wants (path.child name) then [.file (path.child name)] else [] := by
      cases hfile with
      | link target hfound => simp only [sightLink, hfound]
    rw [hmet]
    exact meets_file hlink hfile
  · refine ⟨[], .nil ?_ fun names hleads => hfile ((leadInto_iff hlink names).1 hleads).2.1⟩
    rw [sightLink]
    split
    · rename_i place content hfound
      exact absurd (.link target hfound) hfile
    all_goals rfl

/-- What is met in a directory that is entered is met under its name. -/
theorem meets_under {name : LooseText} {inner : List (LooseText × Node)} {met : List Sighting}
    {found : List (List LooseText)} (hentered : name ∉ search.ignored)
    (h : Meets (path.child name) met found
      (m.LeadTo search (path.child name) (location ++ [name]) (.directory inner))) :
    Meets path met (found.map (name :: ·))
      (m.LeadInto search path location name (.directory inner)) where
  files := by
    rw [h.files, List.map_map]
    exact List.map_congr_left fun names _ => path.child_below name names
  ordered := h.ordered.map _ fun names other hlt => List.cons_lt_cons_iff.2 (.inr ⟨rfl, hlt⟩)
  exact names := by
    rw [List.mem_map]
    constructor
    · rintro ⟨rest, hrest, rfl⟩
      exact .under hentered ((h.exact rest).1 hrest)
    · intro hleads
      cases hleads with
      | itself hfile => cases hfile
      | @under rest hentered hrest => exact ⟨rest, (h.exact rest).2 hrest, rfl⟩

/-- What is met in an entry stands before what is met in those after it. -/
theorem meets_cons {name : LooseText} {node : Node} {rest : List (LooseText × Node)}
    {met more : List Sighting} (hfirst : ∀ entry ∈ rest, name < entry.1)
    (h : ∃ found, Meets path met found (m.LeadInto search path location name node))
    (hrest : ∃ others, Meets path more others fun names =>
      ∃ entry ∈ rest, m.LeadInto search path location entry.1 entry.2 names) :
    ∃ found, Meets path (met ++ more) found fun names =>
      ∃ entry ∈ (name, node) :: rest, m.LeadInto search path location entry.1 entry.2 names := by
  obtain ⟨found, hfound⟩ := h
  obtain ⟨others, hothers⟩ := hrest
  have hlt : ∀ names other, m.LeadInto search path location name node names →
      (∃ entry ∈ rest, m.LeadInto search path location entry.1 entry.2 other) → names < other := by
    rintro names other hleads ⟨entry, hentry, hleadsOn⟩
    obtain ⟨tail, rfl⟩ := hleads.exists_rest
    obtain ⟨last, rfl⟩ := hleadsOn.exists_rest
    exact List.cons_lt_cons_iff.2 (.inl (hfirst entry hentry))
  exact ⟨_, (hfound.append hothers hlt).congr fun names => by simp⟩

/-! The whole walk. The induction is the walk's own: a directory is met entry by entry, and what is
met in an entry that is a directory comes from the walk below it. -/

theorem sight_of_lists (hlists : m.Lists path location) (search : Search) (room : Nat)
    (entries : List (LooseText × Node)) : m.sight search room path location (.directory entries) =
      m.sightEntries search room path location entries := by
  rw [sight, if_neg (Nat.not_lt.2 hlists.short),
    if_neg fun hmem => hlists.allowed (List.contains_iff_mem.1 hmem)]

/-- Of what cannot be listed only that is said. -/
theorem sight_of_unlisted {node : Node}
    (h : ∀ entries, node = .directory entries → ¬m.Lists path location) (search : Search)
    (room : Nat) : ∃ text, m.sight search room path location node = [.unreadable text] := by
  cases node with
  | directory entries =>
    rw [sight]
    split
    · exact ⟨_, rfl⟩
    · split
      · exact ⟨_, rfl⟩
      · rename_i hshort hallowed
        exact absurd ⟨Nat.not_lt.1 hshort, fun hmem => hallowed (List.contains_iff_mem.2 hmem)⟩
          (h entries rfl)
  | file content => exact ⟨_, rfl⟩
  | link target => exact ⟨_, rfl⟩

mutual

theorem meets_sight (m : Machine) (search : Search) (room : Nat) (path : Path)
    (location : List LooseText) (node : Node) (h : node.IsSorted)
    (hroom : .tooDeep ∉ m.sight search room path location node) :
    ∃ found, Meets path (m.sight search room path location node) found
      (m.LeadTo search path location node) := by
  by_cases hopen : ∃ entries, node = .directory entries ∧ m.Lists path location
  · match node with
    | .directory entries =>
      obtain ⟨-, -, hlists⟩ := hopen
      obtain ⟨hsorted, hentries⟩ : (entries.Pairwise fun entry other => entry.1 < other.1) ∧
          ∀ entry ∈ entries, entry.2.IsSorted := by
        cases h with
        | directory hsorted hentries => exact ⟨hsorted, hentries⟩
      rw [sight_of_lists hlists] at hroom ⊢
      obtain ⟨found, hfound⟩ :=
        meets_sightEntries m search room path location entries hsorted hentries hroom
      exact ⟨found, hfound.congr fun names =>
        (leadTo_directory_iff hlists (Node.nodup_names_of_pairwise hsorted) names).symm⟩
  · obtain ⟨text, hmet⟩ := sight_of_unlisted
      (fun entries hnode hlists => hopen ⟨entries, hnode, hlists⟩) search room
    rw [hmet]
    exact ⟨[], .nil rfl fun names hnames => hopen hnames.opened⟩

theorem meets_sightEntries (m : Machine) (search : Search) (room : Nat) (path : Path)
    (location : List LooseText) (entries : List (LooseText × Node))
    (hsorted : entries.Pairwise fun entry other => entry.1 < other.1)
    (hentries : ∀ entry ∈ entries, entry.2.IsSorted)
    (hroom : .tooDeep ∉ m.sightEntries search room path location entries) :
    ∃ found, Meets path (m.sightEntries search room path location entries) found fun names =>
      ∃ entry ∈ entries, m.LeadInto search path location entry.1 entry.2 names := by
  match entries with
  | [] => exact ⟨[], .nil rfl nofun⟩
  | (name, node) :: rest =>
    obtain ⟨hfirst, hsortedRest⟩ := List.pairwise_cons.1 hsorted
    obtain ⟨hnode, hrest⟩ := List.forall_mem_cons.1 hentries
    have hothers := meets_sightEntries m search room path location rest hsortedRest hrest
    match node with
    | .directory inner =>
      rw [sightEntries, List.mem_append, not_or] at hroom
      rw [sightEntries]
      refine meets_cons hfirst ?_ (hothers hroom.2)
      have hinner := hroom.1
      split at hinner
      · rename_i hignored
        rw [if_pos hignored]
        refine ⟨[], .nil rfl fun names hleads => ?_⟩
        cases hleads with
        | itself hfile => cases hfile
        | under hentered => exact hentered (List.contains_iff_mem.1 hignored)
      · rename_i hentered
        rw [if_neg hentered]
        split at hinner
        · exact absurd List.mem_cons_self hinner
        · rename_i hleft
          rw [if_neg hleft]
          obtain ⟨found, hfound⟩ :=
            meets_sight m search (room - 1) (path.child name) (location ++ [name]) _ hnode hinner
          exact ⟨_, meets_under (fun hmem => hentered (List.contains_iff_mem.2 hmem)) hfound⟩
    | .file content =>
      rw [sightEntries, List.mem_append, not_or] at hroom
      rw [sightEntries]
      exact meets_cons hfirst (meets_file nofun (.file content)) (hothers hroom.2)
    | .link target =>
      rw [sightEntries, List.mem_append, not_or] at hroom
      rw [sightEntries]
      exact meets_cons hfirst (meets_sightLink m search path location name target)
        (hothers hroom.2)

end

/-! Room. A walk breaks off exactly when it goes into a directory that stands too deep. -/

/-- What a walk starts at is a directory. -/
theorem Enters.exists_entries {top : Node} {way : List LooseText}
    (h : m.Enters search path location top way) : ∃ entries, top = .directory entries := by
  obtain ⟨entries, hentries⟩ := h.isDirectory
  cases way with
  | nil => exact ⟨entries, Option.some.inj hentries⟩
  | cons step rest =>
    obtain ⟨next, hnext, -⟩ := Option.bind_eq_some_iff.1 hentries
    cases top with
    | directory inner => exact ⟨inner, rfl⟩
    | file content => cases hnext
    | link target => cases hnext

theorem Enters.opened {top : Node} {way : List LooseText}
    (h : m.Enters search path location top way) (hway : way ≠ []) :
    ∃ entries, top = .directory entries ∧ m.Lists path location := by
  have hlists := h.listed [] (List.nil_prefix ..) (Ne.symm hway)
  rw [Path.below_nil, List.append_nil] at hlists
  exact h.exists_entries.imp fun _ htop => ⟨htop, hlists⟩

theorem enters_nil (m : Machine) (search : Search) (path : Path) (location : List LooseText)
    (entries : List (LooseText × Node)) : m.Enters search path location (.directory entries) [] :=
  ⟨⟨entries, rfl⟩, fun _ hbefore hne => absurd (List.prefix_nil.1 hbefore) hne, nofun⟩

theorem enters_cons_iff {entries : List (LooseText × Node)} {step : LooseText}
    {way : List LooseText}
    (hlists : m.Lists path location) :
    m.Enters search path location (.directory entries) (step :: way) ↔
      step ∉ search.ignored ∧ ∃ entry, Members.get? step entries = some entry ∧
        m.Enters search (path.child step) (location ++ [step]) entry way := by
  have hplace : ∀ names, location ++ [step] ++ names = location ++ step :: names := by
    intro names
    rw [List.append_assoc, List.singleton_append]
  constructor
  · intro h
    obtain ⟨inner, hinner⟩ := h.isDirectory
    obtain ⟨entry, hentry, hrest⟩ := Option.bind_eq_some_iff.1 hinner
    obtain ⟨hentered, hmore⟩ := List.forall_mem_cons.1 h.entered
    refine ⟨hentered, entry, hentry, ⟨inner, hrest⟩, fun before hbefore hne => ?_, hmore⟩
    rw [Path.child_below, hplace]
    exact h.listed (step :: before) (List.cons_prefix_cons.2 ⟨rfl, hbefore⟩)
      fun heq => hne (List.cons.inj heq).2
  · rintro ⟨hentered, entry, hentry, h⟩
    obtain ⟨inner, hinner⟩ := h.isDirectory
    refine ⟨⟨inner, (Node.at?_cons hentry way).trans hinner⟩, fun before hbefore hne => ?_,
      List.forall_mem_cons.2 ⟨hentered, h.entered⟩⟩
    obtain rfl | ⟨more, rfl, hmore⟩ := List.prefix_cons_iff.1 hbefore
    · rwa [Path.below_nil, List.append_nil]
    · rw [← Path.child_below, ← hplace]
      exact h.listed more hmore fun heq => hne (congrArg _ heq)

theorem tooDeep_notMem_sightLink (m : Machine) (search : Search) (path : Path) (name : LooseText) :
    .tooDeep ∉ m.sightLink search path name := by
  rw [sightLink]
  split
  · split <;> simp
  all_goals simp

mutual

theorem tooDeep_mem_sight_iff (m : Machine) (search : Search) (room : Nat) (path : Path)
    (location : List LooseText) (node : Node) (h : node.IsSorted) :
    .tooDeep ∈ m.sight search room path location node ↔
      ∃ way, m.Enters search path location node way ∧ room < way.length := by
  by_cases hopen : ∃ entries, node = .directory entries ∧ m.Lists path location
  · match node with
    | .directory entries =>
      obtain ⟨-, -, hlists⟩ := hopen
      obtain ⟨hsorted, hentries⟩ : (entries.Pairwise fun entry other => entry.1 < other.1) ∧
          ∀ entry ∈ entries, entry.2.IsSorted := by
        cases h with
        | directory hsorted hentries => exact ⟨hsorted, hentries⟩
      rw [sight_of_lists hlists,
        tooDeep_mem_sightEntries_iff m search room path location entries hentries]
      constructor
      · rintro ⟨⟨step, entry⟩, hmem, hentered, way, henters, hlong⟩
        have hentry := Members.get?_of_mem (Node.nodup_names_of_pairwise hsorted) hmem
        exact ⟨step :: way, (enters_cons_iff hlists).2 ⟨hentered, entry, hentry, henters⟩, hlong⟩
      · rintro ⟨way, henters, hlong⟩
        obtain ⟨step, rest, rfl⟩ := List.exists_cons_of_ne_nil (List.ne_nil_of_length_pos
          (Nat.zero_lt_of_lt hlong))
        obtain ⟨hentered, entry, hentry, henters⟩ := (enters_cons_iff hlists).1 henters
        exact ⟨_, Members.mem_of_get? hentry, hentered, rest, henters, hlong⟩
  · obtain ⟨text, hmet⟩ := sight_of_unlisted
      (fun entries hnode hlists => hopen ⟨entries, hnode, hlists⟩) search room
    rw [hmet]
    refine iff_of_false (by simp) ?_
    rintro ⟨way, henters, hlong⟩
    exact hopen (henters.opened (List.ne_nil_of_length_pos (Nat.zero_lt_of_lt hlong)))

theorem tooDeep_mem_sightEntries_iff (m : Machine) (search : Search) (room : Nat) (path : Path)
    (location : List LooseText) (entries : List (LooseText × Node))
    (hentries : ∀ entry ∈ entries, entry.2.IsSorted) :
    .tooDeep ∈ m.sightEntries search room path location entries ↔
      ∃ entry ∈ entries, entry.1 ∉ search.ignored ∧ ∃ way,
        m.Enters search (path.child entry.1) (location ++ [entry.1]) entry.2 way ∧
          room < way.length + 1 := by
  match entries with
  | [] => exact iff_of_false nofun fun ⟨_, hmem, _⟩ => nomatch hmem
  | (name, node) :: rest =>
    obtain ⟨hnode, hrest⟩ := List.forall_mem_cons.1 hentries
    have hothers := tooDeep_mem_sightEntries_iff m search room path location rest hrest
    match node with
    | .directory inner =>
      rw [sightEntries, List.mem_append, hothers, List.exists_mem_cons_iff]
      refine or_congr_left ?_
      split
      · rename_i hignored
        exact iff_of_false nofun fun h => h.1 (List.contains_iff_mem.1 hignored)
      · rename_i hentered
        have hunignored : name ∉ search.ignored :=
          fun hmem => hentered (List.contains_iff_mem.2 hmem)
        split
        · -- There is no room left, so the way that ends here is too long already.
          rename_i hnone
          refine iff_of_true List.mem_cons_self ⟨hunignored, [], enters_nil .., ?_⟩
          rw [hnone]
          exact Nat.zero_lt_succ _
        · rename_i hleft
          rw [tooDeep_mem_sight_iff m search (room - 1) (path.child name) (location ++ [name]) _
            hnode, and_iff_right hunignored]
          refine exists_congr fun way => and_congr_right fun _ => ?_
          omega
    | .file content =>
      rw [sightEntries, List.mem_append, hothers, List.exists_mem_cons_iff]
      refine or_congr_left (iff_of_false (by split <;> simp) ?_)
      rintro ⟨-, way, henters, -⟩
      obtain ⟨_, ⟨⟩⟩ := henters.exists_entries
    | .link target =>
      rw [sightEntries, List.mem_append, hothers, List.exists_mem_cons_iff]
      refine or_congr_left (iff_of_false (m.tooDeep_notMem_sightLink search path name) ?_)
      rintro ⟨-, way, henters, -⟩
      obtain ⟨_, ⟨⟩⟩ := henters.exists_entries

end

theorem holdsFile_sorted_iff {name : LooseText} {entry : Node} :
    m.HoldsFile path name entry.sorted ↔ m.HoldsFile path name entry := by
  cases entry with
  | file content => exact Iff.rfl
  | link target => exact Iff.rfl
  | directory entries => exact ⟨nofun, nofun⟩

theorem map_sorted_eq_directory_iff {found : Option Node} :
    (∃ entries, found.map Node.sorted = some (.directory entries)) ↔
      ∃ entries, found = some (.directory entries) := by
  constructor
  · rintro ⟨entries, hfound⟩
    obtain ⟨node, rfl, hnode⟩ := Option.map_eq_some_iff.1 hfound
    cases node with
    | directory inner => exact ⟨inner, rfl⟩
    | file content => cases hnode
    | link target => cases hnode
  · rintro ⟨entries, rfl⟩
    exact ⟨_, rfl⟩

/-- Names lead to the same in a tree in order. -/
theorem leadTo_sorted_iff {top : Node} (htop : top.HasDistinctNames) (names : List LooseText) :
    m.LeadTo search path location top.sorted names ↔ m.LeadTo search path location top names := by
  refine exists_congr fun way => exists_congr fun name => and_congr_right fun _ => ?_
  constructor
  · intro h
    obtain ⟨entry, hentry, hfile⟩ := h.isFile
    rw [htop.at?_sorted] at hentry
    obtain ⟨node, hnode, rfl⟩ := Option.map_eq_some_iff.1 hentry
    refine ⟨⟨node, hnode, holdsFile_sorted_iff.1 hfile⟩, h.wanted, fun before hbefore => ?_,
      h.entered⟩
    have hlisted := h.listed before hbefore
    rwa [htop.at?_sorted, map_sorted_eq_directory_iff] at hlisted
  · intro h
    obtain ⟨entry, hentry, hfile⟩ := h.isFile
    refine ⟨⟨entry.sorted, ?_, holdsFile_sorted_iff.2 hfile⟩, h.wanted, fun before hbefore => ?_,
      h.entered⟩
    · rw [htop.at?_sorted, hentry]
      rfl
    · rw [htop.at?_sorted, map_sorted_eq_directory_iff]
      exact h.listed before hbefore

theorem enters_sorted_iff {top : Node} (htop : top.HasDistinctNames) (way : List LooseText) :
    m.Enters search path location top.sorted way ↔ m.Enters search path location top way := by
  constructor
  · rintro ⟨hdirectory, hlisted, hentered⟩
    rw [htop.at?_sorted, map_sorted_eq_directory_iff] at hdirectory
    exact ⟨hdirectory, hlisted, hentered⟩
  · rintro ⟨hdirectory, hlisted, hentered⟩
    refine ⟨?_, hlisted, hentered⟩
    rwa [htop.at?_sorted, map_sorted_eq_directory_iff]

def Finds (m : Machine) (search : Search) (directory : Path) (names : List LooseText) : Prop :=
  ∃ location top, m.find directory.text = .ok (location, top) ∧
    m.LeadTo search directory location top names

def HasRoom (m : Machine) (search : Search) (directory : Path) : Prop :=
  ∀ location top, m.find directory.text = .ok (location, top) →
    ∀ way, m.Enters search directory location top way → way.length ≤ m.walkRoom

/-- Room has nothing to do with what is looked for. -/
theorem HasRoom.of_ignored {other : Search} {directory : Path} (h : m.HasRoom search directory)
    (hsame : other.ignored = search.ignored) : m.HasRoom other directory :=
  fun location top hfound way henters => h location top hfound way
    ⟨henters.isDirectory, henters.listed, hsame ▸ henters.entered⟩

theorem hasDistinctNames_of_find (hm : m.files.HasDistinctNames) (text : LooseText) :
    ∀ place node, m.find text = .ok (place, node) → node.HasDistinctNames :=
  fun _ _ hfound => hm.at? (Node.leads_of_lookup hfound).2.2

theorem tooDeep_notMem_iff {directory : Path} {met : List Sighting}
    (hdistinct : ∀ place node, m.find directory.text = .ok (place, node) → node.HasDistinctNames)
    (hmet : m.encounters search directory = .ok met) :
    .tooDeep ∉ met ↔ m.HasRoom search directory := by
  rw [encounters] at hmet
  split at hmet
  · rename_i location top hfound
    obtain rfl := Except.ok.inj hmet
    have htop := hdistinct location top hfound
    rw [tooDeep_mem_sight_iff m search _ directory location _ htop.sorted]
    constructor
    · intro hnone place node hplace way henters
      obtain ⟨rfl, rfl⟩ := Prod.mk.inj (Except.ok.inj (hfound.symm.trans hplace))
      exact Nat.not_lt.1 fun hlong => hnone ⟨way, (enters_sorted_iff htop way).2 henters, hlong⟩
    · rintro hroom ⟨way, henters, hlong⟩
      exact Nat.not_lt.2 (hroom _ _ hfound way ((enters_sorted_iff htop way).1 henters)) hlong
  · cases hmet
  · cases hmet
  · rename_i fault _ _ hfault
    obtain rfl := Except.ok.inj hmet
    refine iff_of_true (by simp [skippedDirectory]) fun place node hplace => ?_
    rw [hfault] at hplace
    cases hplace

/-- A walk that does not break off has room. -/
theorem hasRoom_of_sightings (hm : m.files.HasDistinctNames) {directory : Path}
    {met : List Sighting} (h : m.sightings search directory = .ok met) :
    m.HasRoom search directory := by
  obtain ⟨hmet, hroom⟩ := encounters_of_sightings h
  exact (tooDeep_notMem_iff (hasDistinctNames_of_find hm _) hmet).1 hroom

/-- Where there is room for a walk something is met, if only the reason why the directory cannot be
read. -/
theorem HasRoom.exists_sightings {directory : Path} (h : m.HasRoom search directory)
    (hm : m.files.HasDistinctNames) (hdirectory : IsPathText directory.text) :
    ∃ met, m.sightings search directory = .ok met := by
  obtain ⟨met, hmet⟩ := m.exists_encounters search hdirectory
  have hdistinct := hasDistinctNames_of_find hm directory.text
  exact ⟨met, sightings_of_notMem hmet ((tooDeep_notMem_iff hdistinct hmet).2 h)⟩

/-- Where there is not, the walk breaks off. -/
theorem sightings_of_not_hasRoom {directory : Path} (h : ¬m.HasRoom search directory)
    (hm : m.files.HasDistinctNames) (hdirectory : IsPathText directory.text) :
    m.sightings search directory = .error .tooDeep := by
  obtain ⟨met, hmet⟩ := m.exists_encounters search hdirectory
  have hdistinct := hasDistinctNames_of_find hm directory.text
  exact sightings_of_mem hmet (Decidable.not_not.1 fun hnone =>
    h ((tooDeep_notMem_iff hdistinct hmet).1 hnone))

/-- What is met in a directory. -/
theorem exists_meets {directory : Path} {met : List Sighting}
    (hdistinct : ∀ place node, m.find directory.text = .ok (place, node) → node.HasDistinctNames)
    (hmet : m.sightings search directory = .ok met) :
    ∃ found, Meets directory met found (m.Finds search directory) := by
  obtain ⟨hmet, hroom⟩ := encounters_of_sightings hmet
  rw [encounters] at hmet
  split at hmet
  · rename_i location top hfound
    obtain rfl := Except.ok.inj hmet
    have htop := hdistinct location top hfound
    obtain ⟨found, hmeets⟩ :=
      m.meets_sight search m.walkRoom directory location top.sorted htop.sorted hroom
    refine ⟨found, hmeets.congr fun names => (leadTo_sorted_iff htop names).trans ?_⟩
    constructor
    · exact fun h => ⟨location, top, hfound, h⟩
    · rintro ⟨place, node, hplace, h⟩
      obtain ⟨rfl, rfl⟩ := Prod.mk.inj (Except.ok.inj (hfound.symm.trans hplace))
      exact h
  · cases hmet
  · cases hmet
  · rename_i fault _ _ hfault
    obtain rfl := Except.ok.inj hmet
    refine ⟨[], .nil rfl ?_⟩
    rintro names ⟨location, top, hfound, -⟩
    rw [hfault] at hfound
    cases hfound

/-! More directories that cannot be listed. -/

def withUnlistable (m : Machine) (locked : List (List LooseText)) : Machine :=
  { m with unlistable := locked ++ m.unlistable }

def LiesUnder (m : Machine) (directory : Path) (locked : List (List LooseText))
    (names : List LooseText) : Prop :=
  ∃ location top, m.find directory.text = .ok (location, top) ∧
    ∃ before, before <+: names.dropLast ∧ location ++ before ∈ locked

theorem lists_withUnlistable_iff {locked : List (List LooseText)} :
    (m.withUnlistable locked).Lists path location ↔ m.Lists path location ∧ location ∉ locked := by
  constructor
  · intro h
    obtain ⟨hlocked, hallowed⟩ := not_or.1 (mt List.mem_append.2 h.allowed)
    exact ⟨⟨h.short, hallowed⟩, hlocked⟩
  · rintro ⟨h, hlocked⟩
    exact ⟨h.short, fun hmem => (List.mem_append.1 hmem).elim hlocked h.allowed⟩

theorem holdsFile_withUnlistable_iff {locked : List (List LooseText)} {name : LooseText}
    {entry : Node} :
    (m.withUnlistable locked).HoldsFile path name entry ↔ m.HoldsFile path name entry := by
  constructor
  · intro h
    cases h with
    | file content => exact .file content
    | link target hfound => exact .link target hfound
  · intro h
    cases h with
    | file content => exact .file content
    | link target hfound => exact .link target hfound

theorem reaches_withUnlistable_iff {locked : List (List LooseText)} {top : Node}
    {way : List LooseText}
    {name : LooseText} : (m.withUnlistable locked).Reaches search path location top way name ↔
      m.Reaches search path location top way name ∧
        ∀ before, before <+: way → location ++ before ∉ locked := by
  constructor
  · intro h
    obtain ⟨entry, hentry, hfile⟩ := h.isFile
    have hlisted := fun before hbefore =>
      (h.listed before hbefore).imp_right lists_withUnlistable_iff.1
    exact ⟨⟨⟨entry, hentry, holdsFile_withUnlistable_iff.1 hfile⟩, h.wanted,
      fun before hbefore => (hlisted before hbefore).imp_right And.left, h.entered⟩,
      fun before hbefore => (hlisted before hbefore).2.2⟩
  · rintro ⟨h, hlocked⟩
    obtain ⟨entry, hentry, hfile⟩ := h.isFile
    exact ⟨⟨entry, hentry, holdsFile_withUnlistable_iff.2 hfile⟩, h.wanted,
      fun before hbefore => (h.listed before hbefore).imp_right fun hlists =>
        lists_withUnlistable_iff.2 ⟨hlists, hlocked before hbefore⟩, h.entered⟩

/-- What is not found any more is what lies under a locked directory. -/
theorem finds_withUnlistable_iff {locked : List (List LooseText)} {directory : Path}
    {names : List LooseText} : (m.withUnlistable locked).Finds search directory names ↔
      m.Finds search directory names ∧ ¬m.LiesUnder directory locked names := by
  have hfind : (m.withUnlistable locked).find = m.find := rfl
  constructor
  · rintro ⟨location, top, hfound, way, name, rfl, h⟩
    obtain ⟨h, hlocked⟩ := reaches_withUnlistable_iff.1 h
    refine ⟨⟨location, top, hfound, way, name, rfl, h⟩, ?_⟩
    rintro ⟨place, node, hplace, before, hbefore, hmem⟩
    obtain ⟨rfl, rfl⟩ := Prod.mk.inj (Except.ok.inj (hplace.symm.trans hfound))
    rw [List.dropLast_concat] at hbefore
    exact hlocked before hbefore hmem
  · rintro ⟨⟨location, top, hfound, way, name, rfl, h⟩, hfree⟩
    refine ⟨location, top, hfound, way, name, rfl, reaches_withUnlistable_iff.2 ⟨h, ?_⟩⟩
    intro before hbefore hmem
    refine hfree ⟨location, top, hfound, before, ?_, hmem⟩
    rwa [List.dropLast_concat]

/-- Fewer directories are gone into then, so that there is room as before. -/
theorem HasRoom.withUnlistable {directory : Path} (h : m.HasRoom search directory)
    (locked : List (List LooseText)) : (m.withUnlistable locked).HasRoom search directory :=
  fun location top hfound way henters => h location top hfound way
    ⟨henters.isDirectory, fun before hbefore hne =>
      (lists_withUnlistable_iff.1 (henters.listed before hbefore hne)).1, henters.entered⟩

/-! Lists of names in order. -/

theorem nodup_of_ordered {found : List (List LooseText)} (h : found.Pairwise (· < ·)) :
    found.Nodup := by
  refine h.imp fun hlt heq => ?_
  subst heq
  exact List.lt_irrefl _ hlt

theorem sublist_of_ordered {kept found : List (List LooseText)} (hkept : kept.Pairwise (· < ·))
    (hfound : found.Pairwise (· < ·)) (h : ∀ names ∈ kept, names ∈ found) :
    kept.Sublist found := by
  have hmem : ∀ names, names ∈ kept ↔ names ∈ found.filter (· ∈ kept) := by
    intro names
    rw [List.mem_filter, decide_eq_true_iff]
    exact ⟨fun hnames => ⟨h names hnames, hnames⟩, And.right⟩
  have heq : kept = found.filter (· ∈ kept) :=
    List.Perm.eq_of_pairwise (fun _ _ _ _ hlt hgt => absurd hgt (List.lt_asymm hlt)) hkept
      (hfound.filter _) ((List.perm_ext_iff_of_nodup (nodup_of_ordered hkept)
        (nodup_of_ordered (hfound.filter _))).2 hmem)
  rw [heq]
  exact List.filter_sublist

/-- Where there is room for the walk, a search finds just the wanted files that are reached, each of
them once, in the order of the names that lead to them. When more directories cannot be listed, what
is found less is what lies under them. Where there is no room, the search breaks off. -/
theorem findFiles_exactly_reached (m : Machine) (hm : m.files.HasDistinctNames) (directory : Path)
    (hdirectory : IsPathText directory.text) (extensions ignored : List LooseText) :
    (m.HasRoom (.of extensions ignored) directory → ∃ found : List (List LooseText),
      Comes (findFiles directory (.of extensions ignored)) m (.ok (found.map directory.below)) m ∧
      (∀ names, names ∈ found ↔ m.Finds (.of extensions ignored) directory names) ∧
      (found.map directory.below).Nodup ∧ found.Pairwise (· < ·) ∧
      ∀ locked : List (List LooseText), ∃ kept : List (List LooseText),
        Comes (findFiles directory (.of extensions ignored)) (m.withUnlistable locked)
          (.ok (kept.map directory.below)) (m.withUnlistable locked) ∧
        kept.Sublist found ∧
        ∀ names ∈ found, names ∈ kept ↔ ¬m.LiesUnder directory locked names) ∧
    (¬m.HasRoom (.of extensions ignored) directory →
      Comes (findFiles directory (.of extensions ignored)) m (.error .tooDeep) m) := by
  refine ⟨fun hroom => ?_, fun hnone =>
    comes_findFiles_error (sightings_of_not_hasRoom hnone hm hdirectory)⟩
  have hends : ∀ locked, ∃ found : List (List LooseText),
      Comes (findFiles directory (.of extensions ignored)) (m.withUnlistable locked)
        (.ok (found.map directory.below)) (m.withUnlistable locked) ∧
      found.Pairwise (· < ·) ∧ ∀ names, names ∈ found ↔
        (m.withUnlistable locked).Finds (.of extensions ignored) directory names := by
    intro locked
    obtain ⟨met, hmet⟩ := (hroom.withUnlistable locked).exists_sightings hm hdirectory
    obtain ⟨found, h⟩ := exists_meets
      (hasDistinctNames_of_find (m := m.withUnlistable locked) hm _) hmet
    refine ⟨found, ?_, h.ordered, h.exact⟩
    rw [← h.files]
    exact comes_findFiles hmet
  obtain ⟨found, hfound, hordered, hexact⟩ := hends []
  refine ⟨found, hfound, hexact, ?_, hordered, fun locked => ?_⟩
  · exact List.pairwise_map.2 ((nodup_of_ordered hordered).imp
      fun hne heq => hne (directory.below_injective _ _ heq))
  · obtain ⟨kept, hkept, horderedKept, hexactKept⟩ := hends locked
    refine ⟨kept, hkept, sublist_of_ordered horderedKept hordered fun names hnames => ?_,
      fun names hnames => ?_⟩
    · exact (hexact names).2 (finds_withUnlistable_iff.1 ((hexactKept names).1 hnames)).1
    · rw [hexactKept, finds_withUnlistable_iff]
      exact and_iff_right ((hexact names).1 hnames)

/-- A machine with a link to a file, a link back to the top, a link to itself, an ignored directory
and one that cannot be listed. -/
def tangled : Machine where
  files := .directory
    [("pkg", .directory [("mod.py", .file []), ("loop", .link ".."), ("readme.md", .file [])]),
     ("node_modules", .directory [("index.py", .file [])]),
     ("locked", .directory [("hidden.py", .file [])]),
     ("self.py", .link "self.py"),
     ("Alias.PY", .link "pkg/mod.py")]
  workingDirectory := []
  unlistable := [["locked"]]

theorem hasDistinctNames_tangled : tangled.files.HasDistinctNames := by
  refine .directory (by decide) ?_
  simp only [List.forall_mem_cons, List.not_mem_nil, false_imp_iff, implies_true, and_true]
  refine ⟨.directory (by decide) ?_, .directory (by decide) ?_, .directory (by decide) ?_, .link _,
    .link _⟩
  · simp only [List.forall_mem_cons, List.not_mem_nil, false_imp_iff, implies_true, and_true]
    exact ⟨.file _, .link _, .file _⟩
  · exact List.forall_mem_singleton.2 (.file _)
  · exact List.forall_mem_singleton.2 (.file _)

/-- The link to the file and the file itself are found, in this order. A walk without room for a
directory below the top one breaks off. -/
theorem findFiles_exactly_reached_tangled : (∃ found,
    Comes (findFiles (.ofText "/") (.of [".py"] ["node_modules"])) tangled
      (.ok [.ofText "/Alias.PY", .ofText "/pkg/mod.py"]) tangled ∧
    found = [[("Alias.PY" : LooseText)], ["pkg", "mod.py"]] ∧
    ∀ names : List LooseText, names ∈ found ↔
      tangled.Finds (.of [".py"] ["node_modules"]) (.ofText "/") names) ∧
    Comes (findFiles (.ofText "/") (.of [".py"] ["node_modules"])) { tangled with walkRoom := 0 }
      (.error .tooDeep) { tangled with walkRoom := 0 } := by
  have htop : IsPathText (Path.ofText "/").text := isPathText_ofString (s := "/") (by decide)
  have hsorted : tangled.files.sorted = .directory
      [("Alias.PY", .link "pkg/mod.py"),
       ("locked", .directory [("hidden.py", .file [])]),
       ("node_modules", .directory [("index.py", .file [])]),
       ("pkg", .directory [("loop", .link ".."), ("mod.py", .file []), ("readme.md", .file [])]),
       ("self.py", .link "self.py")] := by
    simp +decide [tangled, Node.sorted, Node.sortedEntries, List.mergeSort,
      List.MergeSort.Internal.splitInTwo]
  have hmet : tangled.encounters (.of [".py"] ["node_modules"]) (.ofText "/") =
      .ok (tangled.sight (.of [".py"] ["node_modules"]) 960 (.ofText "/") [] _) :=
    congrArg (fun node => Except.ok (tangled.sight _ 960 _ [] node)) hsorted
  have hmet := sightings_of_notMem hmet (by decide)
  have hroom := hasRoom_of_sightings hasDistinctNames_tangled hmet
  have hcomes : Comes (findFiles (.ofText "/") (.of [".py"] ["node_modules"])) tangled
      (.ok [.ofText "/Alias.PY", .ofText "/pkg/mod.py"]) tangled := comes_findFiles hmet
  obtain ⟨found, ⟨journal, hrun⟩, hexact, -, -, -⟩ := (findFiles_exactly_reached tangled
    hasDistinctNames_tangled (.ofText "/") htop [".py"] ["node_modules"]).1 hroom
  obtain ⟨last, hlast⟩ := hcomes
  have hmap : found.map (Path.ofText "/").below =
      [[("Alias.PY" : LooseText)], ["pkg", "mod.py"]].map (Path.ofText "/").below :=
    Except.ok.inj (Prod.mk.inj (hrun.symm.trans hlast)).1
  refine ⟨⟨found, ⟨last, hlast⟩, (List.map_inj_right (Path.below_injective _)).1 hmap, hexact⟩, ?_⟩
  refine (findFiles_exactly_reached { tangled with walkRoom := 0 } hasDistinctNames_tangled
    (.ofText "/") htop [".py"] ["node_modules"]).2 fun hroom => ?_
  have hlists : Lists { tangled with walkRoom := 0 } (.ofText "/") [] := ⟨by decide, by decide⟩
  have henters : Enters { tangled with walkRoom := 0 } (.of [".py"] ["node_modules"]) (.ofText "/")
      [] tangled.files ["pkg"] :=
    (enters_cons_iff hlists).2 ⟨by decide, _, rfl, enters_nil ..⟩
  exact absurd (hroom [] tangled.files rfl ["pkg"] henters) (by decide)

end Machine

end ProjectCheck
