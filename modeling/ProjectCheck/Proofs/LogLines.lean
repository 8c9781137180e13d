import ProjectCheck.Log.Record
import ProjectCheck.Proofs.Text.Calendar
import ProjectCheck.Proofs.Text.Digits
import ProjectCheck.Proofs.Text.Loose
import ProjectCheck.Proofs.Text.Runs

/-!
Messages are read back from the lines of the log. The time, the processes and the level have no
spaces, so the message starts after the fourth space of a line, and it is read from left to right.
This needs the backslashes of a message to be doubled before a backslash is written for a newline.
-/
namespace ProjectCheck.LogRecord

open Text Decimal

/-! Escaping. -/

def replaceCode (code : Code) (written text : LooseText) : LooseText :=
  text.flatMap fun other => if other = code then written else [other]

theorem replaceCode_singleton (code other : Code) (written : LooseText) :
    replaceCode code written [other] = if other = code then written else [other] :=
  List.flatMap_singleton (fun other => if other = code then written else [other]) other

/-- Nothing is left of a code that is replaced. -/
theorem not_mem_replaceCode {code : Code} {written : LooseText} (h : code ∉ written)
    (text : LooseText) : code ∉ replaceCode code written text := by
  intro hcode
  obtain ⟨other, -, hother⟩ := List.mem_flatMap.1 hcode
  by_cases hsame : other = code
  · rw [if_pos hsame] at hother
    exact h hother
  · rw [if_neg hsame] at hother
    exact hsame (List.mem_singleton.1 hother).symm

/-- A message is written by two replacements. The backslashes come first, so that those written for
newlines are not replaced again. -/
theorem escape_eq_replaceCode (text : LooseText) :
    escape text = replaceCode (.char '\n') [.char '\\', .char 'n']
      (replaceCode (.char '\\') [.char '\\', .char '\\'] text) := by
  have hcode (code : Code) : escapeCode code = replaceCode (.char '\n') [.char '\\', .char 'n']
      (if code = .char '\\' then [.char '\\', .char '\\'] else [code]) := by
    unfold escapeCode
    split
    · rfl
    · rw [replaceCode_singleton]
  calc escape text = text.flatMap fun code => replaceCode (.char '\n') [.char '\\', .char 'n']
        (if code = .char '\\' then [.char '\\', .char '\\'] else [code]) :=
      congrArg (List.flatMap · text) (funext hcode)
    _ = _ := List.flatMap_assoc.symm

/-- In the other order a newline and a backslash with the letter n would be written alike. -/
example : replaceCode (.char '\\') [.char '\\', .char '\\']
      (replaceCode (.char '\n') [.char '\\', .char 'n'] [.char '\n']) =
    replaceCode (.char '\\') [.char '\\', .char '\\']
      (replaceCode (.char '\n') [.char '\\', .char 'n'] [.char '\\', .char 'n']) := by decide

theorem newline_not_mem_escape (text : LooseText) : .char '\n' ∉ escape text := by
  rw [escape_eq_replaceCode]
  exact not_mem_replaceCode (by decide) _

theorem unescape_cons {code : Code} (h : code ≠ .char '\\') (rest : LooseText) :
    unescape (code :: rest) = code :: unescape rest :=
  unescape.eq_3 code rest (fun _ hcode _ => h hcode) fun _ hcode _ => h hcode

/-- What is written for a code is read as this code, whatever follows. -/
theorem unescape_escapeCode (code : Code) (rest : LooseText) :
    unescape (escapeCode code ++ rest) = code :: unescape rest := by
  by_cases hbackslash : code = .char '\\'
  · subst hbackslash
    rfl
  by_cases hnewline : code = .char '\n'
  · subst hnewline
    rfl
  · rw [escapeCode, if_neg hbackslash, if_neg hnewline]
    exact unescape_cons hbackslash rest

theorem unescape_escape_append (text rest : LooseText) :
    unescape (escape text ++ rest) = text ++ unescape rest := by
  induction text with
  | nil => rfl
  | cons code text ih =>
    rw [escape, List.flatMap_cons, List.append_assoc, unescape_escapeCode]
    exact congrArg (code :: ·) ih

theorem unescape_escape (text : LooseText) : unescape (escape text) = text := by
  simpa only [List.append_nil, unescape] using unescape_escape_append text []

/-! The fields before the message. -/

def IsField (s : List Char) : Prop := ∀ c ∈ s, c ≠ ' ' ∧ c ≠ '\n'

instance (s : List Char) : Decidable (IsField s) :=
  List.decidableBAll (fun c => c ≠ ' ' ∧ c ≠ '\n') s

@[simp] theorem isField_nil : IsField [] := fun _ h => nomatch h

@[simp] theorem isField_cons {c : Char} {s : List Char} :
    IsField (c :: s) ↔ (c ≠ ' ' ∧ c ≠ '\n') ∧ IsField s :=
  List.forall_mem_cons

@[simp] theorem isField_append {s t : List Char} : IsField (s ++ t) ↔ IsField s ∧ IsField t :=
  List.forall_mem_append

theorem isField_toDigits (n : Nat) : IsField (Nat.toDigits 10 n) := by
  intro c hc
  have hdigit := isAsciiDigit_of_mem_toDigits hc
  constructor <;> rintro rfl <;> revert hdigit <;> decide

theorem isField_padded (width n : Nat) : IsField (Calendar.padded width n).toList := by
  rw [Calendar.padded, String.toList_ofList, isField_append]
  refine ⟨fun c hc => ?_, isField_toDigits n⟩
  rw [List.eq_of_mem_replicate hc]
  decide

theorem isField_date (date : Calendar.Date) : IsField date.text.toList := by
  simp [Calendar.Date.text, ToString.toString, isField_padded]

theorem isField_clockText (second : Nat) : IsField (Calendar.clockText second).toList := by
  simp [Calendar.clockText, ToString.toString, isField_padded]

theorem isField_microsText (micros : Nat) : IsField (microsText micros).toList := by
  unfold microsText
  split
  · exact isField_nil
  · simp [isField_padded]

theorem isField_level (level : Level) : IsField level.name.toList := by
  cases level <;> decide

theorem IsField.newline_not_mem {s : List Char} (h : IsField s) :
    .char '\n' ∉ s.map Code.char := by
  intro hmem
  obtain ⟨c, hc, hcode⟩ := List.mem_map.1 hmem
  exact (h c hc).2 (Code.char.inj hcode)

def afterField (text : LooseText) : LooseText := (text.dropWhile (· ≠ .char ' ')).drop 1

theorem afterField_append {s : List Char} (h : IsField s) (rest : LooseText) :
    afterField (s.map .char ++ .char ' ' :: rest) = rest := by
  have hrun : ∀ code ∈ s.map Code.char, decide (code ≠ .char ' ') = true := by
    intro code hmem
    obtain ⟨c, hc, rfl⟩ := List.mem_map.1 hmem
    exact decide_eq_true fun hspace => (h c hc).1 (Code.char.inj hspace)
  rw [afterField, dropWhile_run hrun (Stops.cons (by decide))]
  rfl

/-! Times. -/

namespace Instant

def day (instant : Instant) : Int := Int.fdiv instant.seconds secondsOfDay

def text (instant : Instant) : String :=
  let date := Calendar.dateOfDay instant.day
  let clock := Calendar.clockText (Int.fmod instant.seconds secondsOfDay).toNat
  s!"{date.text}T{clock}{microsText instant.micros}+00:00"

def IsDated (instant : Instant) : Prop :=
  Calendar.firstDay 1 ≤ instant.day ∧ instant.day < Calendar.firstDay 10000

theorem isField_text (instant : Instant) : IsField instant.text.toList := by
  simp [text, ToString.toString, isField_date, isField_clockText, isField_microsText]

theorem isDated_iff {instant : Instant} :
    instant.IsDated ↔ isYear (Calendar.dateOfDay instant.day).year = true := by
  have hfirst := Calendar.le_year_dateOfDay_iff 1 instant.day
  have hlast := Calendar.le_year_dateOfDay_iff 10000 instant.day
  simp only [IsDated, isYear, Bool.and_eq_true, decide_eq_true_eq]
  omega

end Instant

theorem isCountableYear_of_isYear {year : Int} (h : isYear year = true) :
    isCountableYear year = true := by
  have hlimit : Int.pow 2 31 = 2147483648 := by decide
  simp only [isYear, isCountableYear, Bool.and_eq_true, decide_eq_true_eq] at h ⊢
  omega

theorem dateOf_eq_ok_iff {day : Int} {date : Calendar.Date} : dateOf day = .ok date ↔
    isYear (Calendar.dateOfDay day).year = true ∧ Calendar.dateOfDay day = date := by
  cases hyear : isYear (Calendar.dateOfDay day).year with
  | true => simp [dateOf, hyear, isCountableYear_of_isYear hyear]
  | false =>
    refine iff_of_false (fun h => ?_) nofun
    simp only [dateOf, hyear] at h
    split at h <;> cases h

/-- A time is written when it is an instant in one of the years that a date may have. -/
theorem timestamp_eq_ok_iff {time : Binary64} {text : String} : timestamp time = .ok text ↔
    ∃ instant, instantOf time = .ok instant ∧ instant.IsDated ∧ text = instant.text := by
  unfold timestamp
  cases instantOf time with
  | error failure => exact iff_of_false nofun (by rintro ⟨_, ⟨⟩, -⟩)
  | ok instant =>
    change (dateOf instant.day >>= _) = _ ↔ _
    constructor
    · intro h
      cases hdate : dateOf instant.day with
      | error failure =>
        rw [hdate] at h
        cases h
      | ok date =>
        obtain ⟨hyear, rfl⟩ := dateOf_eq_ok_iff.1 hdate
        rw [hdate] at h
        exact ⟨instant, rfl, Instant.isDated_iff.2 hyear, (Except.ok.inj h).symm⟩
    · rintro ⟨_, ⟨⟩, hdated, rfl⟩
      rw [dateOf_eq_ok_iff.2 ⟨Instant.isDated_iff.1 hdated, rfl⟩]
      rfl

/-! Lines. -/

def IsDated (r : LogRecord) : Prop :=
  ∃ instant, instantOf r.seconds = .ok instant ∧ instant.IsDated

theorem line_eq_ok_iff {r : LogRecord} {text : LooseText} : r.line = .ok text ↔
    ∃ time, timestamp r.seconds = .ok time ∧
      .ofString s!"{time} {r.parentProcess} {r.process} " ++ r.body = text := by
  unfold line
  cases timestamp r.seconds with
  | error failure => exact iff_of_false nofun (by rintro ⟨_, ⟨⟩, -⟩)
  | ok time =>
    constructor
    · exact fun h => ⟨time, rfl, Except.ok.inj h⟩
    · rintro ⟨_, ⟨⟩, rfl⟩
      rfl

theorem exists_line_iff (r : LogRecord) : (∃ text, r.line = .ok text) ↔ r.IsDated := by
  constructor
  · rintro ⟨text, h⟩
    obtain ⟨time, htime, -⟩ := line_eq_ok_iff.1 h
    obtain ⟨instant, hinstant, hdated, -⟩ := timestamp_eq_ok_iff.1 htime
    exact ⟨instant, hinstant, hdated⟩
  · rintro ⟨instant, hinstant, hdated⟩
    have htime := timestamp_eq_ok_iff.2 ⟨instant, hinstant, hdated, rfl⟩
    exact ⟨_, line_eq_ok_iff.2 ⟨_, htime, rfl⟩⟩

def failurePart : Option LooseText → LooseText
  | some text => .char ' ' :: escapeNewlines text
  | none => []

theorem newline_not_mem_failurePart (failure : Option LooseText) :
    .char '\n' ∉ failurePart failure := by
  cases failure with
  | none => exact List.not_mem_nil
  | some text =>
    have hescaped : .char '\n' ∉ escapeNewlines text := not_mem_replaceCode (by decide) text
    exact List.not_mem_cons_of_ne_of_not_mem (by decide) hescaped

theorem body_eq (r : LogRecord) :
    r.body = r.level.name.toList.map .char ++
      .char ' ' :: (escape r.message ++ failurePart r.failure) := by
  unfold body failurePart LooseText.ofString
  cases r.failure <;> simp

theorem line_eq_fields {r : LogRecord} {text : LooseText} (h : r.line = .ok text) :
    ∃ time, IsField time ∧ text = time.map .char ++ .char ' ' ::
      ((Nat.toDigits 10 r.parentProcess).map .char ++ .char ' ' ::
        ((Nat.toDigits 10 r.process).map .char ++ .char ' ' ::
          (r.level.name.toList.map .char ++ .char ' ' ::
            (escape r.message ++ failurePart r.failure)))) := by
  obtain ⟨time, htime, rfl⟩ := line_eq_ok_iff.1 h
  obtain ⟨instant, -, -, rfl⟩ := timestamp_eq_ok_iff.1 htime
  exact ⟨_, instant.isField_text, by
    simp [ToString.toString, Nat.repr, body_eq, LooseText.ofString]⟩

/-- A record stands on a single line, whatever its message and its failure are. -/
theorem newline_not_mem_line {r : LogRecord} {text : LooseText} (h : r.line = .ok text) :
    .char '\n' ∉ text := by
  obtain ⟨time, htime, rfl⟩ := line_eq_fields h
  have hspace : Code.char '\n' ≠ .char ' ' := by decide
  simp only [List.mem_append, List.mem_cons, not_or]
  exact ⟨htime.newline_not_mem, hspace, (isField_toDigits _).newline_not_mem, hspace,
    (isField_toDigits _).newline_not_mem, hspace, (isField_level _).newline_not_mem, hspace,
    newline_not_mem_escape _, newline_not_mem_failurePart _⟩

def messagePart (text : LooseText) : LooseText :=
  afterField (afterField (afterField (afterField text)))

theorem messagePart_line {r : LogRecord} {text : LooseText} (h : r.line = .ok text) :
    messagePart text = escape r.message ++ failurePart r.failure := by
  obtain ⟨time, htime, rfl⟩ := line_eq_fields h
  rw [messagePart, afterField_append htime, afterField_append (isField_toDigits _),
    afterField_append (isField_toDigits _), afterField_append (isField_level _)]

/-- The message comes first in what is read from a line. -/
theorem unescape_messagePart {r : LogRecord} {text : LooseText} (h : r.line = .ok text) :
    unescape (messagePart text) = r.message ++ unescape (failurePart r.failure) := by
  rw [messagePart_line h, unescape_escape_append]

/-- The message part of a line is made by two replacements, has no newline and tells the message.
Records without a failure that have different messages stand on different single lines, whatever
their times, processes and levels are. A record has a line unless its time is in no year that a date
may have. -/
theorem lines_tell_messages :
    (∀ message : LooseText,
      escape message = replaceCode (.char '\n') [.char '\\', .char 'n']
          (replaceCode (.char '\\') [.char '\\', .char '\\'] message) ∧
        .char '\n' ∉ escape message ∧ unescape (escape message) = message) ∧
    (∀ r : LogRecord, (∃ text, r.line = .ok text) ↔ r.IsDated) ∧
    (∀ (r : LogRecord) (text : LooseText), r.line = .ok text → .char '\n' ∉ text ∧
      (r.failure = none → messagePart text = escape r.message)) ∧
    ∀ r r' : LogRecord, r.failure = none → r'.failure = none → r.message ≠ r'.message →
      r.IsDated → r'.IsDated →
        ∃ text text', r.line = .ok text ∧ r'.line = .ok text' ∧ text ≠ text' := by
  refine ⟨fun message => ⟨escape_eq_replaceCode message, newline_not_mem_escape message,
    unescape_escape message⟩, exists_line_iff, ?_, ?_⟩
  · intro r text h
    refine ⟨newline_not_mem_line h, fun hplain => ?_⟩
    rw [messagePart_line h, hplain, failurePart, List.append_nil]
  · intro r r' hplain hplain' hne hdated hdated'
    obtain ⟨text, h⟩ := (exists_line_iff r).2 hdated
    obtain ⟨text', h'⟩ := (exists_line_iff r').2 hdated'
    refine ⟨text, text', h, h', fun heq => hne ?_⟩
    have hread := unescape_messagePart h
    have hread' := unescape_messagePart h'
    rw [hplain, failurePart, unescape, List.append_nil] at hread
    rw [hplain', failurePart, unescape, List.append_nil] at hread'
    rw [← hread, ← hread', heq]

def pathRecord : LogRecord :=
  ⟨.finite false 7130316802097152 (-22), 1, 2, .info, "C:\\new", none⟩

def newlineRecord : LogRecord := { pathRecord with message := "C:\new" }

theorem lines_tell_messages_path :
    (pathRecord.failure = none ∧ newlineRecord.failure = none ∧
      pathRecord.message ≠ newlineRecord.message ∧ pathRecord.IsDated ∧ newlineRecord.IsDated) ∧
    pathRecord.line = .ok "2023-11-14T22:13:20.500000+00:00 1 2 INFO C:\\\\new" ∧
    newlineRecord.line = .ok "2023-11-14T22:13:20.500000+00:00 1 2 INFO C:\\new" ∧
    messagePart "2023-11-14T22:13:20.500000+00:00 1 2 INFO C:\\new" =
      escape newlineRecord.message ∧
    ∃ text text', pathRecord.line = .ok text ∧ newlineRecord.line = .ok text' ∧ text ≠ text' := by
  have hdated : Instant.IsDated ⟨1700000000, 500000⟩ := Instant.isDated_iff.2 (by decide)
  have hpath : pathRecord.IsDated := ⟨_, rfl, hdated⟩
  have hnewline : newlineRecord.IsDated := ⟨_, rfl, hdated⟩
  have hne : pathRecord.message ≠ newlineRecord.message := by decide
  refine ⟨⟨rfl, rfl, hne, hpath, hnewline⟩, rfl, rfl, ?_, ?_⟩
  · exact (lines_tell_messages.2.2.1 newlineRecord _ rfl).2 rfl
  · exact lines_tell_messages.2.2.2 pathRecord newlineRecord rfl rfl hne hpath hnewline

end ProjectCheck.LogRecord
