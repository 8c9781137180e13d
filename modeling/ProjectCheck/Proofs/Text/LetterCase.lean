import ProjectCheck.Text.LetterCase

/-!
Texts in lower case. A small letter is no capital, so that a text in lower case has no capital left
in it; and a text without capitals stays as it is. So a text in lower case is its own lower case.
-/
namespace ProjectCheck.Text

/-! Small letters. -/

def isCapital (c : Char) : Bool := capitalRuns.any (·.has c.toNat)

namespace CapitalRun

def firstSmall (run : CapitalRun) : Nat := (run.first + run.shift).toNat

def lastSmall (run : CapitalRun) : Nat := (run.last + run.shift).toNat

/-- Of the characters from `low` to `high`, or of every second one of them, none is a capital of the
run. -/
def isApart (low high : Nat) (second : Bool) (run : CapitalRun) : Bool :=
  high.blt run.first || run.last.blt low ||
    (second && run.step == 2 && (low + run.first) % 2 == 1)

def isSettled (run : CapitalRun) : Bool :=
  decide (0 ≤ run.first + run.shift) &&
    (run.lastSmall.blt 0xD800 || (Nat.blt 0xDFFF run.firstSmall && run.lastSmall.blt 0x110000)) &&
    (run.lastSmall.blt 'İ'.toNat || Nat.blt 'İ'.toNat run.firstSmall) &&
    capitalRuns.all
      (isApart run.firstSmall run.lastSmall (run.step == 2 || run.first == run.last))

set_option maxRecDepth 10000 in
theorem all_isSettled : capitalRuns.all isSettled = true := by decide +kernel

theorem settled_of_mem {run : CapitalRun} (h : run ∈ capitalRuns) :
    0 ≤ run.first + run.shift ∧
      (run.lastSmall < 0xD800 ∨ 0xDFFF < run.firstSmall ∧ run.lastSmall < 0x110000) ∧
      (run.lastSmall < 'İ'.toNat ∨ 'İ'.toNat < run.firstSmall) ∧
      ∀ other ∈ capitalRuns, isApart run.firstSmall run.lastSmall
        (run.step == 2 || run.first == run.last) other = true := by
  have hrun := List.all_eq_true.1 all_isSettled run h
  simpa only [isSettled, Bool.and_eq_true, Bool.or_eq_true, decide_eq_true_iff, Nat.blt_eq,
    List.all_eq_true, and_assoc] using hrun

theorem not_has_of_isApart {low high n : Nat} {second : Bool} {run : CapitalRun}
    (h : isApart low high second run = true) (hlow : low ≤ n) (hhigh : n ≤ high)
    (hsecond : second = true → (n - low) % 2 = 0) : run.has n = false := by
  rw [Bool.eq_false_iff]
  intro hhas
  simp only [has, Bool.and_eq_true, decide_eq_true_iff, beq_iff_eq] at hhas
  obtain ⟨⟨hfirst, hlast⟩, hstep⟩ := hhas
  simp only [isApart, Bool.or_eq_true, Bool.and_eq_true, Nat.blt_eq, beq_iff_eq] at h
  obtain (habove | hbelow) | ⟨⟨htwo, hrun⟩, hodd⟩ := h
  · omega
  · omega
  · have heven := hsecond htwo
    rw [hrun] at hstep
    omega

end CapitalRun

theorem toNat_ofNat {n : Nat} (h : n.isValidChar) : (Char.ofNat n).toNat = n := by
  rw [Char.ofNat, dif_pos h]
  rfl

theorem smallLetter_eq_self {c : Char} (h : isCapital c = false) : smallLetter c = c := by
  have hnone : capitalRuns.find? (·.has c.toNat) = none :=
    List.find?_eq_none.2 (List.any_eq_false.1 h)
  rw [smallLetter, hnone]

/-- The small letter of a capital is one of the small letters of a run. -/
theorem exists_run_smallLetter {c : Char} (h : isCapital c = true) :
    ∃ run ∈ capitalRuns, run.firstSmall ≤ (smallLetter c).toNat ∧
      (smallLetter c).toNat ≤ run.lastSmall ∧
      ((run.step == 2 || run.first == run.last) = true →
        ((smallLetter c).toNat - run.firstSmall) % 2 = 0) := by
  obtain ⟨run, hfound⟩ := Option.isSome_iff_exists.1 (List.find?_isSome.2 (List.any_eq_true.1 h))
  have hmem := List.mem_of_find?_eq_some hfound
  have hhas := List.find?_some hfound
  have hsmall : smallLetter c = Char.ofNat (c.toNat + run.shift).toNat := by
    rw [smallLetter, hfound]
  simp only [CapitalRun.has, Bool.and_eq_true, decide_eq_true_iff, beq_iff_eq] at hhas
  obtain ⟨⟨hfirst, hlast⟩, hstep⟩ := hhas
  obtain ⟨hsign, hvalid, -, -⟩ := CapitalRun.settled_of_mem hmem
  have hplace : (smallLetter c).toNat = (c.toNat + run.shift).toNat := by
    rw [hsmall]
    apply toNat_ofNat
    simp only [CapitalRun.firstSmall, CapitalRun.lastSmall] at hvalid
    simp only [Nat.isValidChar]
    omega
  refine ⟨run, hmem, ?_, ?_, fun hsecond => ?_⟩
  · rw [hplace, CapitalRun.firstSmall]
    omega
  · rw [hplace, CapitalRun.lastSmall]
    omega
  · rw [hplace, CapitalRun.firstSmall]
    simp only [Bool.or_eq_true, beq_iff_eq] at hsecond
    obtain htwo | hone := hsecond
    · rw [htwo] at hstep
      omega
    · omega

/-- A small letter is no capital. -/
theorem isCapital_smallLetter (c : Char) : isCapital (smallLetter c) = false := by
  cases h : isCapital c with
  | false => rwa [smallLetter_eq_self h]
  | true =>
    obtain ⟨run, hmem, hfirst, hlast, hsecond⟩ := exists_run_smallLetter h
    obtain ⟨-, -, -, hapart⟩ := CapitalRun.settled_of_mem hmem
    refine List.any_eq_false.2 fun other hother => ?_
    rw [Bool.not_eq_true]
    exact CapitalRun.not_has_of_isApart (hapart other hother) hfirst hlast hsecond

theorem smallLetter_ne_dotted {c : Char} (h : c ≠ 'İ') : smallLetter c ≠ 'İ' := by
  cases hcapital : isCapital c with
  | false => rwa [smallLetter_eq_self hcapital]
  | true =>
    obtain ⟨run, hmem, hfirst, hlast, -⟩ := exists_run_smallLetter hcapital
    obtain ⟨-, -, hdotted, -⟩ := CapitalRun.settled_of_mem hmem
    intro heq
    rw [heq] at hfirst hlast
    omega

/-! Texts. -/

def IsLower : Code → Prop
  | .char c => isCapital c = false ∧ c ≠ 'İ'
  | .lone _ => True

theorem isLower_smallLetter {c : Char} (h : c ≠ 'İ') : IsLower (.char (smallLetter c)) :=
  ⟨isCapital_smallLetter c, smallLetter_ne_dotted h⟩

/-- A character of the first code pages stays as it is, unless it is a capital of the alphabet. -/
theorem isLower_of_lt {c : Char} (h : c.toNat < 192) (hletter : c.toNat < 65 ∨ 90 < c.toNat) :
    IsLower (.char c) := by
  have hfirst : capitalRuns.all (fun run => run.first == 65 && run.last == 90 ||
      Nat.ble 192 run.first) = true := by decide +kernel
  constructor
  · refine List.any_eq_false.2 fun run hmem => ?_
    have hrun := List.all_eq_true.1 hfirst run hmem
    simp only [Bool.or_eq_true, Bool.and_eq_true, beq_iff_eq, Nat.ble_eq] at hrun
    simp only [CapitalRun.has, Bool.and_eq_true, decide_eq_true_iff]
    omega
  · rintro rfl
    exact absurd h (by decide)

theorem isLower_of_mem_lowerChar {before after : LooseText} {c d : Char}
    (h : d ∈ lowerChar before c after) : IsLower (.char d) := by
  rw [lowerChar] at h
  split at h
  · rename_i hsigma
    split at h
    · obtain rfl := List.mem_singleton.1 h
      exact ⟨by decide, by decide⟩
    · obtain rfl := List.mem_singleton.1 h
      exact isLower_smallLetter (hsigma ▸ by decide)
  · split at h
    · simp only [List.mem_cons, List.not_mem_nil, or_false] at h
      obtain rfl | rfl := h
      · exact ⟨by decide, by decide⟩
      · exact ⟨by decide, by decide⟩
    · rename_i hdotted
      obtain rfl := List.mem_singleton.1 h
      exact isLower_smallLetter hdotted

theorem isLower_of_mem_lowerFrom {before text : LooseText} {code : Code}
    (h : code ∈ lowerFrom before text) : IsLower code := by
  induction text generalizing before with
  | nil => cases h
  | cons first rest ih =>
    cases first with
    | char c =>
      rcases List.mem_append.1 h with h | h
      · obtain ⟨d, hd, rfl⟩ := List.mem_map.1 h
        exact isLower_of_mem_lowerChar hd
      · exact ih h
    | lone n =>
      rcases List.mem_cons.1 h with rfl | h
      · trivial
      · exact ih h

theorem lowerChar_eq_self {before after : LooseText} {c : Char} (h : IsLower (.char c)) :
    lowerChar before c after = [c] := by
  have hsigma : c ≠ capitalSigma := by
    rintro rfl
    exact absurd h.1 (by decide)
  rw [lowerChar, if_neg hsigma, if_neg h.2, smallLetter_eq_self h.1]

theorem lowerFrom_eq_self {before text : LooseText} (h : ∀ code ∈ text, IsLower code) :
    lowerFrom before text = text := by
  induction text generalizing before with
  | nil => rfl
  | cons first rest ih =>
    obtain ⟨hfirst, hrest⟩ := List.forall_mem_cons.1 h
    cases first with
    | char c => rw [lowerFrom, lowerChar_eq_self hfirst, ih hrest]; rfl
    | lone n => rw [lowerFrom, ih hrest]

/-- A text is its own lower case exactly when all of its codes stay as they are. -/
theorem lower_eq_self_iff {text : LooseText} :
    lower text = text ↔ ∀ code ∈ text, IsLower code := by
  constructor
  · intro h code hcode
    rw [← h, lower] at hcode
    exact isLower_of_mem_lowerFrom hcode
  · exact lowerFrom_eq_self

@[simp]
theorem lower_lower (text : LooseText) : lower (lower text) = lower text :=
  lower_eq_self_iff.2 fun _ hcode => isLower_of_mem_lowerFrom hcode

end ProjectCheck.Text
