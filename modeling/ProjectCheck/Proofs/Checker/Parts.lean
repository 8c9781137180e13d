import ProjectCheck.Checker.Line
import ProjectCheck.Proofs.Text.Digits
import ProjectCheck.Proofs.Text.Runs

/-!
The parts of the lines that checkers print. Each part that is written is read back, and what a
reader accepts has been written in the way the part is written. A line is split at the place that
was meant when what follows cannot be read from any other place that comes before it, or after it.
-/
namespace ProjectCheck.Checker

open Text

def IsNumber (run : List Char) : Prop := run ≠ [] ∧ ∀ c ∈ run, isDigit c = true

def IsGap (run : List Char) : Prop := run ≠ [] ∧ ∀ c ∈ run, isBlank c = true

theorem isNumber_toDigits (n : Nat) : IsNumber (Nat.toDigits 10 n) := by
  refine ⟨Nat.toDigits_ne_nil, fun c hc => ?_⟩
  rw [isDigit, digitValue?_ascii (isAsciiDigit_of_mem_toDigits hc)]
  rfl

theorem isGap_space : IsGap [' '] := ⟨nofun, List.all_eq_true.1 (by decide)⟩

variable {α : Type} {s rest run gap message : List Char} {mark : Char}

/-! Words. -/

theorem after?_append (word rest : List Char) : after? word (word ++ rest) = some rest := by
  induction word with
  | nil => rfl
  | cons c word ih => simpa only [List.cons_append, after?, if_pos] using ih

theorem after?_cons (c : Char) (rest : List Char) : after? [c] (c :: rest) = some rest :=
  after?_append [c] rest

theorem after?_eq_some {word : List Char} (h : after? word s = some rest) : s = word ++ rest := by
  induction word generalizing s with
  | nil => exact Option.some.inj h
  | cons c word ih =>
    cases s with
    | nil => cases h
    | cons d s =>
      rw [after?] at h
      split at h
      case isTrue heq => rw [heq, ih h, List.cons_append]
      case isFalse => cases h

theorem word?_eq_some {words : List (String × α)} {a : α} (h : word? words s = some (a, rest)) :
    ∃ word, (word, a) ∈ words ∧ s = word.toList ++ rest := by
  obtain ⟨⟨word, value⟩, hmem, hafter⟩ := List.exists_of_findSome?_eq_some h
  simp only [Option.map_eq_some_iff, Prod.mk.injEq] at hafter
  obtain ⟨_, hafter, rfl, rfl⟩ := hafter
  exact ⟨word, hmem, after?_eq_some hafter⟩

theorem word?_severity (severity : Severity) (rest : List Char) :
    word? severityWords (severity.name.toList ++ rest) = some (severity, rest) := by
  cases severity <;> rfl

theorem eq_severity_append {severity : Severity}
    (h : word? severityWords s = some (severity, rest)) : s = severity.name.toList ++ rest := by
  obtain ⟨word, hmem, rfl⟩ := word?_eq_some h
  simp only [severityWords, List.mem_cons, Prod.mk.injEq, List.not_mem_nil, or_false] at hmem
  rcases hmem with ⟨rfl, rfl⟩ | ⟨rfl, rfl⟩ <;> rfl

/-! Numbers. -/

theorem digits?_append (hrun : IsNumber run) (hrest : Stops isDigit rest) :
    digits? (run ++ rest) = some (run, rest) := by
  rw [digits?, takeWhile_run hrun.2 hrest, dropWhile_run hrun.2 hrest,
    List.isEmpty_eq_false_iff.2 hrun.1]
  rfl

theorem digits?_eq_some (h : digits? s = some (run, rest)) : IsNumber run ∧ s = run ++ rest := by
  rw [digits?] at h
  split at h
  case isTrue => cases h
  case isFalse hne =>
    obtain ⟨rfl, rfl⟩ := Prod.mk.inj (Option.some.inj h)
    refine ⟨⟨by simpa using hne, fun c hc => ?_⟩, List.takeWhile_append_dropWhile.symm⟩
    exact List.all_eq_true.1 (List.all_takeWhile ..) c hc

theorem numberThen?_append (hrun : IsNumber run) (hmark : isDigit mark = false)
    (rest : List Char) : numberThen? mark (run ++ mark :: rest) = some (run, rest) := by
  rw [numberThen?, digits?_append hrun (Stops.cons hmark)]
  simp only [Option.bind_eq_bind, Option.bind_some, after?_cons]
  rfl

theorem numberThen?_eq_some (h : numberThen? mark s = some (run, rest)) :
    IsNumber run ∧ s = run ++ mark :: rest := by
  simp only [numberThen?, Option.bind_eq_bind, Option.bind_eq_some_iff] at h
  obtain ⟨⟨digits, other⟩, hdigits, after, hmark, heq⟩ := h
  obtain ⟨rfl, rfl⟩ := Prod.mk.inj (Option.some.inj heq)
  obtain ⟨hnumber, rfl⟩ := digits?_eq_some hdigits
  have hother : other = mark :: after := after?_eq_some hmark
  exact ⟨hnumber, by rw [hother]⟩

/-- A text that does not start with a digit does not start with a number. -/
theorem numberThen?_eq_none (h : Stops isDigit s) : numberThen? mark s = none := by
  rw [numberThen?, digits?, takeWhile_stops h]
  rfl

/-- A number ends before the first mark, so it can be told from what follows. -/
theorem IsNumber.append_inj {run' rest' : List Char} (hrun : IsNumber run) (hrun' : IsNumber run')
    (hmark : isDigit mark = false) (h : run ++ mark :: rest = run' ++ mark :: rest') :
    run = run' ∧ rest = rest' := by
  have hread := numberThen?_append hrun hmark rest
  rw [h, numberThen?_append hrun' hmark rest'] at hread
  obtain ⟨hsame, hsameRest⟩ := Prod.mk.inj (Option.some.inj hread)
  exact ⟨hsame.symm, hsameRest.symm⟩

/-! Blanks. -/

theorem afterBlanks?_append (hgap : IsGap gap) (hrest : Stops isBlank rest) :
    afterBlanks? (gap ++ rest) = some rest := by
  obtain ⟨hne, hblank⟩ := hgap
  cases gap with
  | nil => exact absurd rfl hne
  | cons c gap =>
    have hc := hblank c (List.mem_cons_self ..)
    have hgap : ∀ d ∈ gap, isBlank d = true := fun d hd => hblank d (List.mem_cons_of_mem c hd)
    rw [List.cons_append, afterBlanks?, if_pos hc, dropBlanks, dropWhile_run hgap hrest]

theorem afterBlanks?_eq_some (h : afterBlanks? s = some rest) :
    ∃ gap, IsGap gap ∧ s = gap ++ rest := by
  cases s with
  | nil => cases h
  | cons c s =>
    rw [afterBlanks?] at h
    split at h
    case isFalse => cases h
    case isTrue hc =>
      cases h
      refine ⟨c :: s.takeWhile isBlank, ⟨by simp, ?_⟩, ?_⟩
      · intro d hd
        rcases List.mem_cons.1 hd with rfl | hd
        · exact hc
        · exact List.all_eq_true.1 (List.all_takeWhile ..) d hd
      · rw [List.cons_append, dropBlanks, List.takeWhile_append_dropWhile]

theorem afterBlanks?_stops (h : afterBlanks? s = some rest) : Stops isBlank rest := by
  cases s with
  | nil => cases h
  | cons c s =>
    rw [afterBlanks?] at h
    split at h
    case isFalse => cases h
    case isTrue =>
      cases h
      exact stops_dropWhile isBlank s

/-- A gap can be told from what follows when that does not start with a blank. -/
theorem IsGap.append_inj {gap' rest' : List Char} (hgap : IsGap gap) (hgap' : IsGap gap')
    (hrest : Stops isBlank rest) (hrest' : Stops isBlank rest') (h : gap ++ rest = gap' ++ rest') :
    gap = gap' ∧ rest = rest' := by
  have hread := afterBlanks?_append hgap hrest
  rw [h, afterBlanks?_append hgap' hrest'] at hread
  have hsame : rest = rest' := (Option.some.inj hread).symm
  subst hsame
  exact ⟨List.append_cancel_right h, rfl⟩

theorem messageAfterBlanks?_append (hgap : IsGap gap) (hne : message ≠ [])
    (hmessage : Stops isBlank message) :
    messageAfterBlanks? (gap ++ message) = some message := by
  rw [messageAfterBlanks?, afterBlanks?_append hgap hmessage]
  cases message with
  | nil => exact absurd rfl hne
  | cons c message => rfl

theorem messageAfterBlanks?_eq_some (h : messageAfterBlanks? s = some message) :
    ∃ gap, IsGap gap ∧ message ≠ [] ∧ s = gap ++ message := by
  rw [messageAfterBlanks?] at h
  split at h
  case h_1 => cases h
  case h_2 hblanks =>
    obtain ⟨gap, hgap, rfl⟩ := afterBlanks?_eq_some hblanks
    split at h
    case isFalse => cases h
    case isTrue hlength =>
      -- Nothing but blanks is left: the last of them is the message, after one blank at least.
      obtain ⟨last, hlast, rfl⟩ := Option.map_eq_some_iff.1 h
      rw [List.append_nil] at hlast hlength
      obtain ⟨before, rfl⟩ := List.getLast?_eq_some_iff.1 hlast
      refine ⟨before, ⟨?_, fun c hc => hgap.2 c (List.mem_append_left _ hc)⟩, by simp, by simp⟩
      rintro rfl
      simp at hlength
  case h_3 found hfound hblanks =>
    cases h
    obtain ⟨gap, hgap, rfl⟩ := afterBlanks?_eq_some hblanks
    exact ⟨gap, hgap, fun heq => hfound heq, rfl⟩

/-- There is a message wherever something follows a gap, if only a last blank. -/
theorem exists_messageAfterBlanks? (hgap : IsGap gap) (hne : message ≠ []) :
    ∃ found, messageAfterBlanks? (gap ++ message) = some found := by
  obtain ⟨c, gap, rfl⟩ := List.exists_cons_of_ne_nil hgap.1
  have hc : isBlank c = true := hgap.2 c (List.mem_cons_self ..)
  have hblanks : afterBlanks? (c :: (gap ++ message)) = some (dropBlanks (gap ++ message)) := by
    rw [afterBlanks?, if_pos hc]
  rw [List.cons_append, messageAfterBlanks?, hblanks]
  cases hleft : dropBlanks (gap ++ message) with
  | cons d rest => exact ⟨d :: rest, rfl⟩
  | nil =>
    -- Nothing but blanks is left, and there are two of them at least.
    have hlast := List.getLast?_eq_some_getLast (List.cons_ne_nil c (gap ++ message))
    exact ⟨[(c :: (gap ++ message)).getLast (List.cons_ne_nil _ _)], by simp [hlast, hne]⟩

/-- No message after a gap is shorter than the one that is read, so no gap before one is longer. -/
theorem messageAfterBlanks?_shortest {found : List Char}
    (h : messageAfterBlanks? s = some found) (hgap : IsGap gap) (hne : message ≠ [])
    (hs : s = gap ++ message) : found.length ≤ message.length := by
  have hpositive := List.length_pos_iff.2 hne
  rw [messageAfterBlanks?] at h
  split at h
  case h_1 => cases h
  case h_2 =>
    split at h
    case isFalse => cases h
    case isTrue =>
      obtain ⟨last, -, rfl⟩ := Option.map_eq_some_iff.1 h
      exact hpositive
  case h_3 hblanks =>
    cases h
    obtain ⟨own, -, hown⟩ := afterBlanks?_eq_some hblanks
    have hstops := afterBlanks?_stops hblanks
    rw [hown] at hs
    rcases List.append_eq_append_iff.1 hs with ⟨u, hlonger, hrest⟩ | ⟨u, -, hrest⟩
    · -- The other gap would reach into what is read, which does not start with a blank.
      cases u with
      | nil => exact Nat.le_of_eq (congrArg List.length hrest)
      | cons c u =>
        have hblank := hgap.2 c (by rw [hlonger]; simp)
        have hplain := hstops c (by rw [hrest]; rfl)
        rw [hblank] at hplain
        cases hplain
    · rw [hrest, List.length_append]
      omega

/-! Splits. -/

section Splits

variable {readRest : List Char → Option α} {a : α}

theorem splitFirst_append (hrest : readRest rest = some a)
    (hbefore : ∀ t, t ≠ [] → t <:+ s → readRest (t ++ rest) = none) :
    splitFirst readRest (s ++ rest) = some (s, a) := by
  induction s with
  | nil =>
    cases rest with
    | nil => rw [List.nil_append, splitFirst, hrest]; rfl
    | cons c rest => rw [List.nil_append, splitFirst, hrest]
  | cons c s ih =>
    have hs := ih fun t hne ht => hbefore t hne (ht.trans (List.suffix_cons c s))
    have hhere := hbefore (c :: s) (List.cons_ne_nil c s) (List.suffix_refl _)
    rw [List.cons_append] at hhere ⊢
    simp only [splitFirst, hhere, hs, Option.map_some]

theorem splitLast_eq_none (h : ∀ t, t <:+ s → readRest t = none) :
    splitLast readRest s = none := by
  induction s with
  | nil => rw [splitLast, h [] (List.suffix_refl _)]; rfl
  | cons c s ih =>
    have hs := ih fun t ht => h t (ht.trans (List.suffix_cons c s))
    simp only [splitLast, hs, h (c :: s) (List.suffix_refl _), Option.map_none]

theorem splitLast_append (hrest : readRest rest = some a)
    (hafter : ∀ t, t <:+ rest.tail → readRest t = none) (hne : rest ≠ []) :
    splitLast readRest (s ++ rest) = some (s, a) := by
  induction s with
  | nil =>
    cases rest with
    | nil => exact absurd rfl hne
    | cons c rest =>
      rw [List.tail_cons] at hafter
      simp only [List.nil_append, splitLast, splitLast_eq_none hafter, hrest, Option.map_some]
  | cons c s ih => simp only [List.cons_append, splitLast, ih]

theorem nonemptySplit_append {split : List Char → Option (List Char × α)} (hs : s ≠ [])
    (h : split (s.tail ++ rest) = some (s.tail, a)) :
    nonemptySplit split (s ++ rest) = some (s, a) := by
  cases s with
  | nil => exact absurd rfl hs
  | cons c s =>
    rw [List.tail_cons] at h
    simp only [List.cons_append, nonemptySplit, h, Option.map_some]

theorem splitFirst_eq_some {before : List Char} (h : splitFirst readRest s = some (before, a)) :
    ∃ rest, s = before ++ rest ∧ readRest rest = some a := by
  induction s generalizing before with
  | nil =>
    obtain ⟨found, hfound, heq⟩ := Option.map_eq_some_iff.1 h
    obtain ⟨rfl, rfl⟩ := Prod.mk.inj heq
    exact ⟨[], rfl, hfound⟩
  | cons c s ih =>
    rw [splitFirst] at h
    split at h
    · rename_i hfound
      obtain ⟨rfl, rfl⟩ := Prod.mk.inj (Option.some.inj h)
      exact ⟨c :: s, rfl, hfound⟩
    · obtain ⟨⟨first, found⟩, hrest, heq⟩ := Option.map_eq_some_iff.1 h
      obtain ⟨rfl, rfl⟩ := Prod.mk.inj heq
      obtain ⟨rest, rfl, hfound⟩ := ih hrest
      exact ⟨rest, rfl, hfound⟩

theorem splitLast_eq_some {before : List Char} (h : splitLast readRest s = some (before, a)) :
    ∃ rest, s = before ++ rest ∧ readRest rest = some a := by
  induction s generalizing before with
  | nil =>
    obtain ⟨found, hfound, heq⟩ := Option.map_eq_some_iff.1 h
    obtain ⟨rfl, rfl⟩ := Prod.mk.inj heq
    exact ⟨[], rfl, hfound⟩
  | cons c s ih =>
    rw [splitLast] at h
    split at h
    · rename_i found hrest
      obtain ⟨rfl, rfl⟩ := Prod.mk.inj (Option.some.inj h)
      obtain ⟨rest, rfl, hfound⟩ := ih hrest
      exact ⟨rest, rfl, hfound⟩
    · obtain ⟨found, hfound, heq⟩ := Option.map_eq_some_iff.1 h
      obtain ⟨rfl, rfl⟩ := Prod.mk.inj heq
      exact ⟨c :: s, rfl, hfound⟩

/-- Where what follows can be read from some place, there is a first such place. -/
theorem exists_splitFirst (before : List Char) (hrest : readRest rest = some a) :
    ∃ found, splitFirst readRest (before ++ rest) = some found := by
  induction before with
  | nil =>
    cases rest with
    | nil => exact ⟨([], a), by rw [List.append_nil, splitFirst, hrest]; rfl⟩
    | cons c rest => exact ⟨([], a), by rw [List.nil_append, splitFirst, hrest]⟩
  | cons c before ih =>
    obtain ⟨found, hfound⟩ := ih
    rw [List.cons_append, splitFirst, hfound]
    split
    · exact ⟨_, rfl⟩
    · exact ⟨_, rfl⟩

/-- No place from which what follows can be read comes before the first one. -/
theorem splitFirst_shortest {found : List Char × α} {other : List Char}
    (h : splitFirst readRest s = some found) (hs : s = other ++ rest)
    (hrest : readRest rest = some a) : found.1.length ≤ other.length := by
  induction s generalizing found other with
  | nil =>
    obtain ⟨here, -, rfl⟩ := Option.map_eq_some_iff.1 h
    exact Nat.zero_le _
  | cons c s ih =>
    rw [splitFirst] at h
    split at h
    · obtain rfl := Option.some.inj h
      exact Nat.zero_le _
    · rename_i hnone
      obtain ⟨later, hlater, rfl⟩ := Option.map_eq_some_iff.1 h
      cases other with
      | nil =>
        rw [hs, List.nil_append, hrest] at hnone
        cases hnone
      | cons d other =>
        obtain ⟨-, htail⟩ := List.cons.inj hs
        exact Nat.succ_le_succ (ih hlater htail)

/-- Where what follows can be read from some place, there is a last such place. -/
theorem exists_splitLast (before : List Char) (hrest : readRest rest = some a) :
    ∃ found, splitLast readRest (before ++ rest) = some found := by
  induction before with
  | nil =>
    cases rest with
    | nil => exact ⟨([], a), by rw [List.append_nil, splitLast, hrest]; rfl⟩
    | cons c rest =>
      rw [List.nil_append, splitLast, hrest]
      split
      · exact ⟨_, rfl⟩
      · exact ⟨_, rfl⟩
  | cons c before ih =>
    obtain ⟨found, hfound⟩ := ih
    exact ⟨(c :: found.1, found.2), by rw [List.cons_append, splitLast, hfound]⟩

/-- No place from which what follows can be read comes behind the last one. -/
theorem splitLast_longest {found : List Char × α} {other : List Char}
    (h : splitLast readRest s = some found) (hs : s = other ++ rest)
    (hrest : readRest rest = some a) : other.length ≤ found.1.length := by
  induction s generalizing found other with
  | nil =>
    rw [(List.nil_eq_append_iff.1 hs).1]
    exact Nat.zero_le _
  | cons c s ih =>
    cases other with
    | nil => exact Nat.zero_le _
    | cons d other =>
      have htail : s = other ++ rest := (List.cons.inj hs).2
      obtain ⟨later, hlater⟩ := exists_splitLast other hrest
      rw [← htail] at hlater
      rw [splitLast, hlater] at h
      obtain rfl := Option.some.inj h
      exact Nat.succ_le_succ (ih hlater htail)

theorem nonemptySplit_eq_some {split : List Char → Option (List Char × α)} {before : List Char}
    (h : nonemptySplit split s = some (before, a)) :
    ∃ c first rest, before = c :: first ∧ s = c :: rest ∧ split rest = some (first, a) := by
  cases s with
  | nil => cases h
  | cons c s =>
    obtain ⟨⟨first, found⟩, hsplit, heq⟩ := Option.map_eq_some_iff.1 h
    obtain ⟨rfl, rfl⟩ := Prod.mk.inj heq
    exact ⟨c, first, s, rfl, rfl, hsplit⟩

theorem exists_nonemptySplit {split : List Char → Option (List Char × α)} {before : List Char}
    (hbefore : before ≠ [])
    (h : ∀ shorter, ∃ found, split (shorter ++ rest) = some found) :
    ∃ found, nonemptySplit split (before ++ rest) = some found := by
  obtain ⟨c, shorter, rfl⟩ := List.exists_cons_of_ne_nil hbefore
  obtain ⟨found, hfound⟩ := h shorter
  exact ⟨(c :: found.1, found.2), by rw [List.cons_append, nonemptySplit, hfound]; rfl⟩

/-- A split at the first place leaves something that can be read behind a part that is not
empty. -/
theorem exists_rest_of_splitFirst {before : List Char}
    (h : nonemptySplit (splitFirst readRest) s = some (before, a)) :
    ∃ rest, before ≠ [] ∧ s = before ++ rest ∧ readRest rest = some a := by
  obtain ⟨c, first, tail, rfl, rfl, hfirst⟩ := nonemptySplit_eq_some h
  obtain ⟨rest, rfl, hrest⟩ := splitFirst_eq_some hfirst
  exact ⟨rest, List.cons_ne_nil c first, rfl, hrest⟩

/-- Where what follows can be read behind a part that is not empty, there is a split at the first
such place. -/
theorem exists_split_of_rest {before : List Char} (hbefore : before ≠ [])
    (hrest : readRest rest = some a) :
    ∃ found, nonemptySplit (splitFirst readRest) (before ++ rest) = some found :=
  exists_nonemptySplit hbefore fun shorter => exists_splitFirst shorter hrest

theorem nonemptySplit_shortest {found : List Char × α} {other : List Char}
    (h : nonemptySplit (splitFirst readRest) s = some found) (hother : other ≠ [])
    (hs : s = other ++ rest) (hrest : readRest rest = some a) :
    found.1.length ≤ other.length := by
  obtain ⟨c, shorter, rfl⟩ := List.exists_cons_of_ne_nil hother
  rw [hs, List.cons_append] at h
  obtain ⟨later, hlater, rfl⟩ := Option.map_eq_some_iff.1 h
  exact Nat.succ_le_succ (splitFirst_shortest hlater rfl hrest)

theorem nonemptySplit_longest {found : List Char × α} {other : List Char}
    (h : nonemptySplit (splitLast readRest) s = some found) (hs : s = other ++ rest)
    (hrest : readRest rest = some a) : other.length ≤ found.1.length := by
  cases other with
  | nil => exact Nat.zero_le _
  | cons c other =>
    rw [hs, List.cons_append] at h
    obtain ⟨later, hlater, rfl⟩ := Option.map_eq_some_iff.1 h
    exact Nat.succ_le_succ (splitLast_longest hlater rfl hrest)

end Splits

end ProjectCheck.Checker
