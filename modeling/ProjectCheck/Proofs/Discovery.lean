import ProjectCheck.Discovery
import ProjectCheck.Proofs.Files.Names
import ProjectCheck.Proofs.Machine.Ending

/-!
What finding files comes to. It fails for a text that no path can have, and for directories that
stand too deep inside one another.
-/
namespace ProjectCheck

open Run

def LookupFault.IsOfText (fault : LookupFault) : Prop := fault = .zeroByte ∨ fault = .unencodable

namespace Node

variable {fault : LookupFault}

theorem advance_ne_failed (h : fault.IsOfText) (root : Node) (followLast : Bool)
    (location names : List LooseText) :
    root.advance followLast location names ≠ .failed fault := by
  rcases h with rfl | rfl <;>
    fun_induction root.advance followLast location names <;> simp_all

theorem follow_ne_error (h : fault.IsOfText) (root : Node) (followLast : Bool) (budget : Nat)
    (location names : List LooseText) :
    root.follow followLast budget location names ≠ .error fault := by
  have hadvance := advance_ne_failed h root followLast
  fun_induction root.follow followLast budget location names with
  | case1 => nofun
  | case2 budget location names other hother =>
    rintro ⟨⟩
    exact hadvance location names hother
  | case3 => rcases h with rfl | rfl <;> nofun
  | case4 => rcases h with rfl | rfl <;> nofun
  | case5 budget location names target base rest _ _ ih => exact ih

/-- A text that a path can have is not refused for itself. -/
theorem lookup_ne_error (h : fault.IsOfText) (root : Node) (start : List LooseText)
    {text : LooseText} (htext : IsPathText text) : root.lookup start text ≠ .error fault := by
  have hlocate : root.locate start text true ≠ .error fault := by
    unfold locate
    split
    · rcases h with rfl | rfl <;> nofun
    · split
      · rename_i hencodable
        simp [htext.encodable] at hencodable
      · split
        · rename_i hzero
          exact absurd (List.contains_iff_mem.1 hzero) htext.zeroless
        · split
          · rcases h with rfl | rfl <;> nofun
          · exact follow_ne_error h root _ _ _ _
  unfold lookup
  rcases hfound : root.locate start text true with other | location
  · rintro ⟨⟩
    exact hlocate hfound
  · simp only [bind, Except.bind]
    split
    · nofun
    · rcases h with rfl | rfl <;> nofun

end Node

namespace Machine

mutual

/-- What is met depends on what paths lead to and on what cannot be listed. -/
theorem sight_congr {m after : Machine} (hfind : after.find = m.find)
    (hunlistable : after.unlistable = m.unlistable) (search : Search) (room : Nat) (path : Path)
    (location : List LooseText) (node : Node) :
    after.sight search room path location node = m.sight search room path location node := by
  cases node with
  | directory entries =>
    rw [sight, sight, hunlistable,
      sightEntries_congr hfind hunlistable search room path location entries]
  | file content => rfl
  | link target => rfl

theorem sightEntries_congr {m after : Machine} (hfind : after.find = m.find)
    (hunlistable : after.unlistable = m.unlistable) (search : Search) (room : Nat) (path : Path)
    (location : List LooseText) (entries : List (LooseText × Node)) :
    after.sightEntries search room path location entries =
      m.sightEntries search room path location entries := by
  match entries with
  | [] => rfl
  | (name, .directory inner) :: rest =>
    rw [sightEntries, sightEntries,
      sightEntries_congr hfind hunlistable search room path location rest,
      sight_congr hfind hunlistable search (room - 1) (path.child name) (location ++ [name])
        (.directory inner)]
  | (name, .file content) :: rest =>
    rw [sightEntries, sightEntries,
      sightEntries_congr hfind hunlistable search room path location rest]
  | (name, .link target) :: rest =>
    have hlink : after.sightLink search path name = m.sightLink search path name := by
      rw [sightLink, sightLink, hfind]
    rw [sightEntries, sightEntries, hlink,
      sightEntries_congr hfind hunlistable search room path location rest]

end

theorem encounters_congr {m after : Machine} (hfind : after.find = m.find)
    (hunlistable : after.unlistable = m.unlistable) (hroom : after.walkRoom = m.walkRoom)
    (search : Search) (directory : Path) :
    after.encounters search directory = m.encounters search directory := by
  rw [encounters, encounters, hfind, hroom]
  split
  · rename_i location node _
    exact congrArg Except.ok
      (sight_congr hfind hunlistable search m.walkRoom directory location node.sorted)
  · rfl
  · rfl
  · rfl

theorem sightings_congr {m after : Machine} (hfind : after.find = m.find)
    (hunlistable : after.unlistable = m.unlistable) (hroom : after.walkRoom = m.walkRoom)
    (search : Search) (directory : Path) :
    after.sightings search directory = m.sightings search directory := by
  rw [sightings, sightings, encounters_congr hfind hunlistable hroom]

/-- Something is met, if only the reason why the directory cannot be read. -/
theorem exists_encounters (m : Machine) {directory : Path} (search : Search)
    (h : IsPathText directory.text) : ∃ met, m.encounters search directory = .ok met := by
  unfold encounters
  split
  · exact ⟨_, rfl⟩
  · rename_i hfound
    exact absurd hfound (Node.lookup_ne_error (.inl rfl) m.files _ h)
  · rename_i hfound
    exact absurd hfound (Node.lookup_ne_error (.inr rfl) m.files _ h)
  · exact ⟨_, rfl⟩

variable {m : Machine} {directory : Path} {search : Search} {met : List Sighting}

theorem sightings_of_notMem (hmet : m.encounters search directory = .ok met)
    (h : .tooDeep ∉ met) : m.sightings search directory = .ok met := by
  rw [sightings, hmet]
  exact if_neg h

theorem sightings_of_mem (hmet : m.encounters search directory = .ok met)
    (h : .tooDeep ∈ met) : m.sightings search directory = .error .tooDeep := by
  rw [sightings, hmet]
  exact if_pos h

/-- Where a walk does not break off, what it meets is all that would be met. -/
theorem encounters_of_sightings (h : m.sightings search directory = .ok met) :
    m.encounters search directory = .ok met ∧ .tooDeep ∉ met := by
  cases hmet : m.encounters search directory with
  | error failure =>
    rw [sightings, hmet] at h
    cases h
  | ok all =>
    by_cases hdeep : .tooDeep ∈ all
    · rw [sightings_of_mem hmet hdeep] at h
      cases h
    · rw [sightings_of_notMem hmet hdeep] at h
      obtain rfl := Except.ok.inj h
      exact ⟨rfl, hdeep⟩

/-- A search ends as the walk does. -/
theorem comes_findFiles_outcome (m : Machine) (directory : Path) (search : Search) :
    Comes (findFiles directory search) m
      ((m.sightings search directory).map (·.filterMap Sighting.file?)) m := by
  refine Comes.get_bind ?_
  cases hmet : m.encounters search directory with
  | error failure =>
    rw [sightings, hmet]
    exact .of_run rfl
  | ok all =>
    refine (comes_debug _ m).bind fun journal => ?_
    cases m.sightings search directory <;> exact ⟨journal, rfl⟩

theorem comes_findFiles (h : m.sightings search directory = .ok met) :
    Comes (findFiles directory search) m (.ok (met.filterMap Sighting.file?)) m := by
  have hcomes := m.comes_findFiles_outcome directory search
  rwa [h] at hcomes

theorem comes_findFiles_error {failure : Failure}
    (h : m.sightings search directory = .error failure) :
    Comes (findFiles directory search) m (.error failure) m := by
  have hcomes := m.comes_findFiles_outcome directory search
  rwa [h] at hcomes

end Machine

end ProjectCheck
