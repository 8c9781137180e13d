import ProjectCheck.Text.Calendar

/-!
The years of days. The date of a day is in a year, or in a later one, from the first day of that
year on. Within a cycle of four hundred years this is shown for years that start in March, each of
which has its leap day at its end.
-/
namespace ProjectCheck.Calendar

def daysBefore (year : Nat) : Nat := 365 * year + year / 4 - year / 100

def yearOfCycle (day : Nat) : Nat := (day - day / 1460 + day / 36524 - day / 146096) / 365

theorem daysBefore_mono {year later : Nat} (h : year < later) :
    daysBefore year + 365 ≤ daysBefore later := by
  have hcenturies (n : Nat) : n / 100 = n / 4 / 25 := by omega
  have hfours : year / 4 ≤ later / 4 := by omega
  have hleap : year / 4 - year / 4 / 25 ≤ later / 4 - later / 4 / 25 := by omega
  unfold daysBefore
  rw [hcenturies, hcenturies]
  omega

theorem withoutLeapDays_mono {day later : Nat} (h : day ≤ later) :
    day - day / 1460 ≤ later - later / 1460 := by omega

/-- The days of a cycle are counted to the right year. -/
theorem le_yearOfCycle_iff {year day : Nat} (hyear : year < 400) (hday : day < 146097) :
    year ≤ yearOfCycle day ↔ daysBefore year ≤ day := by
  -- Days without the leap days do not get fewer, so it is enough to know them for the first day of
  -- the year and for the day before it. There the division by 1460 counts the fourth years.
  unfold yearOfCycle
  rw [Nat.le_div_iff_mul_le (by decide)]
  constructor
  · refine fun h => Nat.le_of_not_lt fun hlt => ?_
    have hleap := withoutLeapDays_mono (Nat.le_sub_one_of_lt hlt)
    unfold daysBefore at hlt hleap
    have hcentury : day / 36524 ≤ year / 100 := by omega
    have hfour : year / 4 ≤ (365 * year + year / 4 - year / 100 - 1) / 1460 := by omega
    omega
  · intro h
    have hleap := withoutLeapDays_mono h
    unfold daysBefore at h hleap
    have hstart : 36524 * (year / 100) ≤ day := by omega
    have hcentury : year / 100 ≤ day / 36524 - day / 146096 := by omega
    have hfour : (365 * year + year / 4 - year / 100) / 1460 ≤ year / 4 := by omega
    omega

theorem yearOfCycle_lt {day : Nat} (h : day < 146097) : yearOfCycle day < 400 := by
  unfold yearOfCycle
  omega

def monthOfDay (dayOfYear : Nat) : Nat :=
  let shiftedMonth := (5 * dayOfYear + 2) / 153
  if shiftedMonth < 10 then shiftedMonth + 3 else shiftedMonth - 9

/-- The first ten months of a year that starts in March have 306 days. -/
theorem monthOfDay_le_two_iff {dayOfYear : Nat} (h : dayOfYear ≤ 365) :
    monthOfDay dayOfYear ≤ 2 ↔ 306 ≤ dayOfYear := by
  simp only [monthOfDay]
  split <;> omega

theorem year_dateOfDay (day : Int) :
    let dayOfCycle := (Int.fmod (day + 719468) 146097).toNat
    let year := yearOfCycle dayOfCycle
    (dateOfDay day).year = Int.fdiv (day + 719468) 146097 * 400 + year +
      if 306 ≤ dayOfCycle - daysBefore year then 1 else 0 := by
  intro dayOfCycle year
  have hday : dayOfCycle < 146097 := by
    have hlt := Int.fmod_lt_of_pos (day + 719468) (show (0 : Int) < 146097 by decide)
    have hnonneg := Int.fmod_nonneg_of_pos (day + 719468) (show (0 : Int) < 146097 by decide)
    omega
  have hend : dayOfCycle - daysBefore year ≤ 365 := by
    rcases Nat.lt_or_ge (year + 1) 400 with hlt | hge
    · have hnext := (le_yearOfCycle_iff hlt hday).2
      unfold daysBefore at *
      omega
    · unfold daysBefore
      omega
  change _ + (if monthOfDay (dayOfCycle - daysBefore year) ≤ 2 then (1 : Int) else 0) = _
  simp only [monthOfDay_le_two_iff hend]
  rfl

def firstDay (year : Int) : Int :=
  365 * (year - 1) + (year - 1) / 4 - (year - 1) / 100 + (year - 1) / 400 - 719162

theorem firstDay_eq (cycle : Int) {year : Nat} (h : year < 400) :
    firstDay (cycle * 400 + year + 1) = cycle * 146097 + daysBefore year - 719162 := by
  unfold firstDay daysBefore
  omega

/-- The date of a day has the right year. -/
theorem le_year_dateOfDay_iff (year day : Int) :
    year ≤ (dateOfDay day).year ↔ firstDay year ≤ day := by
  rw [year_dateOfDay]
  generalize hcycle : Int.fdiv (day + 719468) 146097 = cycle
  generalize hin : (Int.fmod (day + 719468) 146097).toNat = d
  obtain ⟨hday, hd⟩ : day = cycle * 146097 + d - 719468 ∧ d < 146097 := by
    rw [Int.fdiv_eq_ediv_of_nonneg _ (by decide)] at hcycle
    rw [Int.fmod_eq_emod_of_nonneg _ (by decide)] at hin
    omega
  obtain ⟨past, r, hr, rfl⟩ : ∃ (past : Int) (r : Nat), r < 400 ∧ year = past * 400 + r + 1 :=
    ⟨(year - 1) / 400, ((year - 1) % 400).toNat, by omega, by omega⟩
  rw [firstDay_eq past hr, hday]
  have hk := yearOfCycle_lt hd
  have hlast : daysBefore r ≤ 145731 := by
    unfold daysBefore
    omega
  have hthere := le_yearOfCycle_iff hr hd
  -- In another cycle the cycles alone decide. In the same one the years of the cycle do, and in
  -- the same year the day on which the next January begins.
  rcases Int.lt_trichotomy past cycle with h | rfl | h
  · refine iff_of_true ?_ ?_
    · split <;> omega
    · omega
  · have hstart := (le_yearOfCycle_iff hk hd).1 (Nat.le_refl _)
    rcases Nat.lt_trichotomy r (yearOfCycle d) with h | rfl | h
    · have hyears := daysBefore_mono h
      refine iff_of_true ?_ ?_
      · split <;> omega
      · omega
    · split <;> omega
    · refine iff_of_false ?_ ?_
      · split <;> omega
      · omega
  · refine iff_of_false ?_ ?_
    · split <;> omega
    · omega

end ProjectCheck.Calendar
