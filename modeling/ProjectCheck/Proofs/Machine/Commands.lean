import ProjectCheck.Machine.Command

/-!
Names of commands. A name is looked up on the search path only when it has the form of a command's
name, so what else is installed makes no difference.
-/
namespace ProjectCheck

def IsAsciiLetter (c : Char) : Prop := 'a' ≤ c ∧ c ≤ 'z' ∨ 'A' ≤ c ∧ c ≤ 'Z'

def IsCommandRest (c : Char) : Prop :=
  IsAsciiLetter c ∨ '0' ≤ c ∧ c ≤ '9' ∨ c = '.' ∨ c = '_' ∨ c = '-'

def IsCommandName (name : String) : Prop :=
  ∃ first rest, name.toList = first :: rest ∧ IsAsciiLetter first ∧ ∀ c ∈ rest, IsCommandRest c

theorem isCommandStart_iff (c : Char) : isCommandStart c = true ↔ IsAsciiLetter c := by
  have halpha : isCommandStart c = (c.isUpper || c.isLower) := rfl
  have hupper : c.isUpper = decide ('A' ≤ c ∧ c ≤ 'Z') := rfl
  have hlower : c.isLower = (decide ('a' ≤ c) && decide (c ≤ 'z')) := rfl
  rw [halpha, hupper, hlower, Bool.or_eq_true, or_comm, Bool.and_eq_true, decide_eq_true_iff,
    decide_eq_true_iff, decide_eq_true_iff, IsAsciiLetter]

theorem isCommandChar_iff (c : Char) : isCommandChar c = true ↔ IsCommandRest c := by
  have hchar : isCommandChar c =
      (isCommandStart c || c.isDigit || decide (c = '.') || decide (c = '_') || decide (c = '-')) :=
    rfl
  have hdigit : c.isDigit = (decide ('0' ≤ c) && decide (c ≤ '9')) := rfl
  simp only [hchar, hdigit, Bool.or_eq_true, Bool.and_eq_true, decide_eq_true_iff,
    isCommandStart_iff, IsCommandRest, or_assoc]

theorem isSafeCommand_iff (name : String) : isSafeCommand name = true ↔ IsCommandName name := by
  rw [isSafeCommand, IsCommandName]
  cases name.toList with
  | nil => simp
  | cons first rest =>
    simp only [Bool.and_eq_true, List.all_eq_true, isCommandStart_iff, isCommandChar_iff]
    constructor
    · exact fun h => ⟨first, rest, rfl, h⟩
    · rintro ⟨_, _, hchars, h⟩
      obtain ⟨rfl, rfl⟩ := List.cons.inj hchars
      exact h

def HaveSameCommands (installed other : List String) : Prop :=
  ∀ command, IsCommandName command → (command ∈ installed ↔ command ∈ other)

theorem HaveSameCommands.refl (installed : List String) : HaveSameCommands installed installed :=
  fun _ _ => Iff.rfl

/-- A command line starts with what the search path gives for the name of a command, where the
given commands are installed. -/
def IsFoundIn (installed : List String) (line : List LooseText) : Prop :=
  ∃ (command path : String) (arguments : List LooseText), IsCommandName command ∧
    line = (path : LooseText) :: arguments ∧
    ∀ m : Machine, m.installed = installed → m.searchPath command = some path

namespace Machine

theorem resolveCommand_eq_some_iff {m : Machine} {command path : String} :
    m.resolveCommand command = some path ↔
      IsCommandName command ∧ m.searchPath command = some path := by
  rw [resolveCommand, ← isSafeCommand_iff]
  split <;> simp [*]

/-- Only what is installed under the names of commands matters where a command is looked for. -/
theorem resolveCommand_congr {m other : Machine}
    (h : HaveSameCommands m.installed other.installed) :
    m.resolveCommand = other.resolveCommand := by
  funext command
  rw [resolveCommand, resolveCommand, searchPath, searchPath]
  split
  · rename_i hsafe
    have hsame := h command ((isSafeCommand_iff command).1 hsafe)
    simp only [List.contains_iff_mem, hsame]
  · rfl

theorem isFoundIn_of_resolveCommand {m : Machine} {command path : String}
    (arguments : List LooseText) (h : m.resolveCommand command = some path) :
    IsFoundIn m.installed ((path : LooseText) :: arguments) := by
  obtain ⟨hname, hpath⟩ := resolveCommand_eq_some_iff.1 h
  refine ⟨command, path, arguments, hname, rfl, fun other hother => ?_⟩
  rw [searchPath, hother]
  exact hpath

end Machine

end ProjectCheck
