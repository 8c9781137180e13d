import ProjectCheck.Aggregation
import ProjectCheck.Proofs.Walks

/-!
Surveys with any sessions. Whatever the sessions for the files do, a survey comes to an end with the
diagnostics of those files whose steps were all completed, file by file in the order in which the
files were found. A file whose steps are not completed adds nothing, and where each file's steps
keep to what is the file's own the others add what they would add without it.
-/
namespace ProjectCheck

open Run Decimal

namespace SurveyMeans

variable {σ ι : Type} {means : SurveyMeans σ ι} {patience : Patience} {path : Path}
  {files : List Path} {s after : σ}

/-! The steps of one file. -/

/-- The waits after the first one: none is left, something was published, or nothing was and one
more wait goes by. -/
inductive Polls (means : SurveyMeans σ ι) (wait : Binary64) (session : ι) (path : Path) :
    Nat → σ → σ → Prop
  | spent (s : σ) : Polls means wait session path 0 s s
  | published {retries : Nat} {s after : σ}
      (hasked : (means.hasPublished session path).run s = (.ok true, after)) :
      Polls means wait session path (retries + 1) s after
  | again {retries : Nat} {s asked waited after : σ}
      (hasked : (means.hasPublished session path).run s = (.ok false, asked))
      (hwaited : (means.sleep wait).run asked = (.ok (), waited))
      (hrest : Polls means wait session path retries waited after) :
      Polls means wait session path (retries + 1) s after

inductive Completes (means : SurveyMeans σ ι) (patience : Patience) (path : Path) (s : σ)
    (found : List Json) (after : σ) : Prop
  | steps {session : ι} {retries : Nat} {served opened waited polled : σ}
      (hsession : (means.session? path).run s = (.ok (some session), served))
      (hopened : (means.openDocument session path).run served = (.ok (), opened))
      (hwaited : (means.sleep patience.wait).run opened = (.ok (), waited))
      (hretries : patience.retries = .ok retries)
      (hpolled : means.Polls patience.wait session path retries waited polled)
      (hread : (means.diagnostics session path).run polled = (.ok found, after))

theorem awaitPublication_run_iff {wait : Binary64} {session : ι} {retries : Nat} :
    (means.awaitPublication wait session path retries).run s = (.ok (), after) ↔
      means.Polls wait session path retries s after := by
  induction retries generalizing s with
  | zero =>
    constructor
    · intro h
      obtain rfl := (Prod.mk.inj h).2
      exact .spent s
    · rintro ⟨⟩
      rfl
  | succ retries ih =>
    rw [awaitPublication, run_bind_eq_ok]
    constructor
    · rintro ⟨published, asked, hasked, hrest⟩
      cases published with
      | true =>
        obtain rfl := (Prod.mk.inj hrest).2
        exact .published hasked
      | false =>
        obtain ⟨_, waited, hwaited, hrest⟩ := run_bind_eq_ok.1 hrest
        exact .again hasked hwaited (ih.1 hrest)
    · rintro (_ | hasked | ⟨hasked, hwaited, hrest⟩)
      · exact ⟨true, after, hasked, rfl⟩
      · exact ⟨false, _, hasked, run_bind_eq_ok.2 ⟨_, _, hwaited, ih.2 hrest⟩⟩

theorem collect_run_iff {found : List Json} :
    (means.collect patience path).run s = (.ok (some found), after) ↔
      means.Completes patience path s found after := by
  rw [collect, run_bind_eq_ok]
  constructor
  · rintro ⟨session, served, hsession, hrest⟩
    cases session with
    | none => cases (Prod.mk.inj hrest).1
    | some session =>
      obtain ⟨_, opened, hopened, hrest⟩ := run_bind_eq_ok.1 hrest
      obtain ⟨_, waited, hwaited, hrest⟩ := run_bind_eq_ok.1 hrest
      obtain ⟨retries, asked, hasked, hrest⟩ := run_bind_eq_ok.1 hrest
      obtain ⟨hretries, rfl⟩ := ofExcept_run_eq_ok.1 hasked
      obtain ⟨_, polled, hpolled, hrest⟩ := run_bind_eq_ok.1 hrest
      obtain ⟨read, last, hread, hrest⟩ := run_bind_eq_ok.1 hrest
      obtain ⟨hfound, rfl⟩ := Prod.mk.inj hrest
      obtain rfl := Option.some.inj (Except.ok.inj hfound)
      exact .steps hsession hopened hwaited hretries (awaitPublication_run_iff.1 hpolled) hread
  · rintro ⟨hsession, hopened, hwaited, hretries, hpolled, hread⟩
    refine ⟨_, _, hsession, run_bind_eq_ok.2 ⟨_, _, hopened, run_bind_eq_ok.2 ⟨_, _, hwaited, ?_⟩⟩⟩
    refine run_bind_eq_ok.2 ⟨_, _, ofExcept_run_eq_ok.2 ⟨hretries, rfl⟩, ?_⟩
    refine run_bind_eq_ok.2 ⟨_, _, awaitPublication_run_iff.2 hpolled, ?_⟩
    exact run_bind_eq_ok.2 ⟨_, _, hread, rfl⟩

/-- A file is only passed over without a failure when there is no session for it. -/
theorem session?_run_of_collect (h : (means.collect patience path).run s = (.ok none, after)) :
    (means.session? path).run s = (.ok none, after) := by
  obtain ⟨session, served, hsession, hrest⟩ := run_bind_eq_ok.1 h
  cases session with
  | none =>
    obtain rfl := (Prod.mk.inj hrest).2
    exact hsession
  | some session =>
    obtain ⟨_, _, -, hrest⟩ := run_bind_eq_ok.1 hrest
    obtain ⟨_, _, -, hrest⟩ := run_bind_eq_ok.1 hrest
    obtain ⟨_, _, -, hrest⟩ := run_bind_eq_ok.1 hrest
    obtain ⟨_, _, -, hrest⟩ := run_bind_eq_ok.1 hrest
    obtain ⟨_, _, -, hrest⟩ := run_bind_eq_ok.1 hrest
    cases (Prod.mk.inj hrest).1

/-! The visits of a survey. -/

structure Visit where
  path : Path
  found : Option (List Json)

def Visit.findings (visit : Visit) : List FileFinding :=
  (visit.found.getD []).map fun diagnostic => ⟨visit.path.text, diagnostic⟩

/-- How a visit of a file goes: its steps are completed, there is no session for it, or a step
fails, which is logged. -/
inductive Visited (means : SurveyMeans σ ι) (patience : Patience) (path : Path) (s : σ) :
    Option (List Json) → σ → Prop
  | completed {found : List Json} {after : σ} (h : means.Completes patience path s found after) :
      Visited means patience path s (some found) after
  | withoutSession {after : σ} (h : (means.session? path).run s = (.ok none, after)) :
      Visited means patience path s none after
  | failed {failure : Failure} {broken after : σ}
      (h : (means.collect patience path).run s = (.error failure, broken))
      (hlogged : (means.log .warning
        s!"LSP diagnostics failed for {path.text}: {failure.message}").run broken =
          (.ok (), after)) :
      Visited means patience path s none after

inductive Visits (means : SurveyMeans σ ι) (patience : Patience) :
    List Path → σ → List Visit → σ → Prop
  | nil (s : σ) : Visits means patience [] s [] s
  | cons {path : Path} {rest : List Path} {s between after : σ} {found : Option (List Json)}
      {visits : List Visit} (hfirst : means.Visited patience path s found between)
      (hrest : Visits means patience rest between visits after) :
      Visits means patience (path :: rest) s (⟨path, found⟩ :: visits) after

def LogsAlways (means : SurveyMeans σ ι) : Prop :=
  ∀ level text s, ((means.log level text).run s).1 = .ok ()

def GivesObjects (means : SurveyMeans σ ι) : Prop :=
  ∀ session path s, ∀ found, ((means.diagnostics session path).run s).1 = .ok found →
    ∀ diagnostic ∈ found, ∃ members, diagnostic = .object members

def Visit.tagged (visit : Visit) : Option (List FileFinding) :=
  visit.found.map fun found => found.map fun diagnostic => ⟨visit.path.text, diagnostic⟩

theorem Visit.tagged_inj {path : Path} {found other : Option (List Json)}
    (h : Visit.tagged ⟨path, found⟩ = Visit.tagged ⟨path, other⟩) : found = other := by
  have hinj : ∀ a b : Json, FileFinding.mk path.text a = ⟨path.text, b⟩ → a = b :=
    fun _ _ heq => (FileFinding.mk.inj heq).2
  match found, other with
  | none, none => rfl
  | some found, some other =>
    exact congrArg some ((List.map_inj_right hinj).1 (Option.some.inj h))

theorem Visited.run {found : Option (List Json)} (h : means.Visited patience path s found after) :
    (means.collectOrSkip patience path).run s = (.ok (Visit.tagged ⟨path, found⟩), after) := by
  cases h with
  | completed h => exact run_bind_ok (attempt_run (collect_run_iff.2 h)) _
  | withoutSession h =>
    have hnone : (means.collect patience path).run s = (.ok none, after) := run_bind_ok h _
    exact run_bind_ok (attempt_run hnone) _
  | failed h hlogged => exact (run_bind_ok (attempt_run h) _).trans (run_bind_ok hlogged _)

theorem exists_visited (hlog : means.LogsAlways) (patience : Patience) (path : Path) (s : σ) :
    ∃ found after, means.Visited patience path s found after := by
  rcases hrun : (means.collect patience path).run s with ⟨failure | _ | found, after⟩
  · have hlogged :=
      hlog .warning s!"LSP diagnostics failed for {path.text}: {failure.message}" after
    exact ⟨none, _, .failed hrun (Prod.ext hlogged rfl)⟩
  · exact ⟨none, after, .withoutSession (session?_run_of_collect hrun)⟩
  · exact ⟨some found, after, .completed (collect_run_iff.1 hrun)⟩

/-- Whatever happens at the files, all of them are visited. -/
theorem exists_visits (hlog : means.LogsAlways) (patience : Patience) (files : List Path) (s : σ) :
    ∃ visits after, means.Visits patience files s visits after := by
  induction files generalizing s with
  | nil => exact ⟨[], s, .nil s⟩
  | cons path rest ih =>
    obtain ⟨found, between, hvisited⟩ := exists_visited hlog patience path s
    obtain ⟨visits, after, hvisits⟩ := ih between
    exact ⟨⟨path, found⟩ :: visits, after, .cons hvisited hvisits⟩

theorem Visits.run {visits : List Visit} (h : means.Visits patience files s visits after) :
    (files.mapM (means.collectOrSkip patience)).run s = (.ok (visits.map Visit.tagged), after) := by
  induction h with
  | nil => rfl
  | cons hfirst _ ih =>
    rw [List.mapM_cons, run_bind_ok hfirst.run, run_bind_ok ih]
    rfl

theorem Visits.paths {visits : List Visit} (h : means.Visits patience files s visits after) :
    visits.map (·.path) = files := by
  induction h with
  | nil => rfl
  | cons _ _ ih => rw [List.map_cons, ih]

theorem Visits.objects (hobjects : means.GivesObjects) {visits : List Visit}
    (h : means.Visits patience files s visits after) :
    ∀ finding ∈ visits.flatMap Visit.findings, ∃ members, finding.diagnostic = .object members := by
  induction h with
  | nil => nofun
  | @cons path _ s between after found visits hfirst _ ih =>
    intro finding hmem
    rw [List.flatMap_cons, List.mem_append] at hmem
    rcases hmem with hmem | hmem
    · obtain ⟨diagnostic, hfound, rfl⟩ := List.mem_map.1 hmem
      cases hfirst with
      | completed h =>
        obtain ⟨-, -, -, -, -, hread⟩ := h
        exact hobjects _ _ _ _ (congrArg Prod.fst hread) diagnostic hfound
      | withoutSession => cases hfound
      | failed => cases hfound
    · exact ih finding hmem

/-! What is a file's own. -/

/-- A step keeps to what is a file's own: it does the same whatever else there is, and leaves what
is other files' own as it is. -/
structure IsLocal {α τ : Type} (own : Path → σ → τ) (path : Path) (step : Run σ α) : Prop where
  same : ∀ {s s' : σ}, own path s = own path s' →
    (step.run s).1 = (step.run s').1 ∧ own path (step.run s).2 = own path (step.run s').2
  others : ∀ (s : σ) {other : Path}, other ≠ path → own other (step.run s).2 = own other s

structure IsIndependent {τ : Type} (means : SurveyMeans σ ι) (own : Path → σ → τ) : Prop where
  session : ∀ path, IsLocal own path (means.session? path)
  openDocument : ∀ session path, IsLocal own path (means.openDocument session path)
  hasPublished : ∀ session path, IsLocal own path (means.hasPublished session path)
  diagnostics : ∀ session path, IsLocal own path (means.diagnostics session path)
  sleep : ∀ wait path, IsLocal own path (means.sleep wait)
  log : ∀ level text path, IsLocal own path (means.log level text)

section Independence

variable {α β τ : Type} {own : Path → σ → τ} {step : Run σ α}

namespace IsLocal

theorem ofExcept (own : Path → σ → τ) (path : Path) (outcome : Except Failure α) :
    IsLocal own path (Run.ofExcept outcome) := by
  cases outcome <;> exact ⟨fun h => ⟨rfl, h⟩, fun _ _ _ => rfl⟩

theorem bind {next : α → Run σ β} (hstep : IsLocal own path step)
    (hnext : ∀ a, IsLocal own path (next a)) : IsLocal own path (step >>= next) where
  same {s s'} h := by
    obtain ⟨hresult, hown⟩ := hstep.same h
    rw [run_bind, run_bind]
    rcases hrun : step.run s with ⟨result, after⟩
    rcases hrun' : step.run s' with ⟨result', after'⟩
    rw [hrun, hrun'] at hresult hown
    obtain rfl : result = result' := hresult
    cases result with
    | ok a => exact (hnext a).same hown
    | error failure => exact ⟨rfl, hown⟩
  others s other hother := by
    have hfirst := hstep.others s hother
    rw [run_bind]
    rcases hrun : step.run s with ⟨_ | a, after⟩ <;> rw [hrun] at hfirst
    · exact hfirst
    · exact ((hnext a).others after hother).trans hfirst

theorem attempt (hstep : IsLocal own path step) : IsLocal own path step.attempt where
  same h := ⟨congrArg Except.ok (hstep.same h).1, (hstep.same h).2⟩
  others s _ hother := hstep.others s hother

theorem awaitPublication (h : means.IsIndependent own) (wait : Binary64) (session : ι)
    (path : Path) (retries : Nat) :
    IsLocal own path (means.awaitPublication wait session path retries) := by
  induction retries with
  | zero => exact .ofExcept own path (.ok ())
  | succ retries ih =>
    refine (h.hasPublished session path).bind fun published => ?_
    cases published with
    | true => exact .ofExcept own path (.ok ())
    | false => exact (h.sleep wait path).bind fun _ => ih

theorem collect (h : means.IsIndependent own) (patience : Patience) (path : Path) :
    IsLocal own path (means.collect patience path) := by
  refine (h.session path).bind fun session => ?_
  cases session with
  | none => exact .ofExcept own path (.ok none)
  | some session =>
    refine (h.openDocument session path).bind fun _ => (h.sleep patience.wait path).bind fun _ => ?_
    refine (IsLocal.ofExcept own path patience.retries).bind fun retries => ?_
    refine (awaitPublication h patience.wait session path retries).bind fun _ => ?_
    exact (h.diagnostics session path).bind fun found => .ofExcept own path (.ok (some found))

end IsLocal

/-- A visit only depends on what is the file's own, and changes nothing else. -/
theorem isLocal_collectOrSkip (h : means.IsIndependent own) (patience : Patience) (path : Path) :
    IsLocal own path (means.collectOrSkip patience path) := by
  refine (IsLocal.collect h patience path).attempt.bind fun result => ?_
  match result with
  | .ok found => exact .ofExcept own path (.ok _)
  | .error failure => exact (h.log _ _ path).bind fun _ => .ofExcept own path (.ok none)

/-- The visits of one file are as they would be if there were no other files. -/
theorem Visits.alone (h : means.IsIndependent own) (hlog : means.LogsAlways) {visits : List Visit}
    (hvisits : means.Visits patience files s visits after) (path : Path) {start : σ}
    (hstart : own path s = own path start) :
    ∃ last, means.Visits patience (files.filter (· = path)) start
      (visits.filter (·.path = path)) last := by
  induction hvisits generalizing start with
  | nil => exact ⟨start, .nil start⟩
  | @cons first rest s between after found visits hfirst _ ih =>
    have hlocal := isLocal_collectOrSkip h patience first
    by_cases hpath : first = path
    · subst hpath
      obtain ⟨found', between', hvisited⟩ := exists_visited hlog patience first start
      obtain ⟨hresult, hown⟩ := hlocal.same hstart
      rw [hfirst.run, hvisited.run] at hresult hown
      obtain rfl := Visit.tagged_inj (Except.ok.inj hresult)
      obtain ⟨last, hrest⟩ := ih hown
      exact ⟨last, by simpa using Visits.cons hvisited hrest⟩
    · have hown := hlocal.others s (Ne.symm hpath)
      rw [hfirst.run] at hown
      obtain ⟨last, hrest⟩ := ih (hown.trans hstart)
      exact ⟨last, by simpa [hpath] using hrest⟩

end Independence

end SurveyMeans

/-! The survey of a directory. -/

/-- A survey sums up visits: it has what was found in their order, the number of files whose steps
were completed, and the numbers of findings whose severity is one and two. -/
structure Survey.SumsUp (survey : Survey) (visits : List SurveyMeans.Visit) : Prop where
  findings : survey.findings = visits.flatMap (·.findings)
  filesChecked : survey.filesChecked = visits.countP (·.found.isSome)
  errorCount : survey.errorCount =
    survey.findings.countP fun finding => Published.hasSeverity 1 finding.diagnostic
  warningCount : survey.warningCount =
    survey.findings.countP fun finding => Published.hasSeverity 2 finding.diagnostic
  success : survey.success = true ↔ survey.errorCount = 0

/-- All of a list succeed together exactly when each of them does. -/
theorem exists_mapM_ok_iff {α β : Type} {f : α → Except Failure β} {l : List α} :
    (∃ results, l.mapM f = .ok results) ↔ ∀ a ∈ l, ∃ b, f a = .ok b := by
  induction l with
  | nil => exact iff_of_true ⟨[], rfl⟩ nofun
  | cons a rest ih =>
    rw [List.mapM_cons, List.forall_mem_cons, ← ih]
    cases f a with
    | error failure => exact iff_of_false nofun fun h => nomatch h.1
    | ok b =>
      cases rest.mapM f with
      | error failure => exact iff_of_false nofun fun h => nomatch h.2
      | ok results => exact iff_of_true ⟨b :: results, rfl⟩ ⟨⟨b, rfl⟩, results, rfl⟩

theorem exists_mem_of_mapM_eq_ok {α β : Type} {f : α → Except Failure β} {l : List α}
    {results : List β} (h : l.mapM f = .ok results) {a : α} (ha : a ∈ l) :
    ∃ b ∈ results, f a = .ok b := by
  induction l generalizing results with
  | nil => cases ha
  | cons first rest ih =>
    rw [List.mapM_cons] at h
    cases hfirst : f first with
    | error failure =>
      rw [hfirst] at h
      cases h
    | ok b =>
      cases hrest : rest.mapM f with
      | error failure =>
        rw [hfirst, hrest] at h
        cases h
      | ok more =>
        rw [hfirst, hrest] at h
        obtain rfl := Except.ok.inj h
        rcases List.mem_cons.1 ha with rfl | ha
        · exact ⟨b, List.mem_cons_self, hfirst⟩
        · obtain ⟨found, hfound, hf⟩ := ih hrest ha
          exact ⟨found, List.mem_cons_of_mem b hfound, hf⟩

theorem Survey.countSeverity_eq {findings : List FileFinding} (n : Int)
    (h : ∀ finding ∈ findings, ∃ members, finding.diagnostic = .object members) :
    countSeverity n findings =
      .ok (findings.countP fun finding => Published.hasSeverity n finding.diagnostic) := by
  have hmembers : ∀ finding ∈ findings, ∃ members, finding.diagnostic.members = .ok members := by
    intro finding hmem
    obtain ⟨members, heq⟩ := h finding hmem
    exact ⟨members, by rw [heq]; rfl⟩
  obtain ⟨members, hall⟩ := exists_mapM_ok_iff.2 hmembers
  rw [countSeverity, hall]
  rfl

theorem Survey.eq_of_countSeverity {findings : List FileFinding} {n : Int} {count : Nat}
    (h : countSeverity n findings = .ok count) :
    count = findings.countP fun finding => Published.hasSeverity n finding.diagnostic := by
  simp only [countSeverity, bind, Except.bind] at h
  split at h
  · cases h
  · exact (Except.ok.inj h).symm

/-- A survey counts the findings whose severity is one, and those whose severity is two. -/
theorem Survey.eq_of_ofFindings {findings : List FileFinding} {filesChecked : Nat}
    {survey : Survey} (h : ofFindings findings filesChecked = .ok survey) :
    survey =
      { findings, filesChecked
        errorCount := findings.countP fun finding => Published.hasSeverity 1 finding.diagnostic
        warningCount :=
          findings.countP fun finding => Published.hasSeverity 2 finding.diagnostic } := by
  rw [ofFindings] at h
  cases herrors : countSeverity 1 findings with
  | error failure =>
    rw [herrors] at h
    cases h
  | ok errors =>
    cases hwarnings : countSeverity 2 findings with
    | error failure =>
      rw [herrors, hwarnings] at h
      cases h
    | ok warnings =>
      rw [herrors, hwarnings] at h
      rw [← eq_of_countSeverity herrors, ← eq_of_countSeverity hwarnings]
      exact (Except.ok.inj h).symm

theorem Survey.findings_of_ofFindings {findings : List FileFinding} {filesChecked : Nat}
    {survey : Survey} (h : ofFindings findings filesChecked = .ok survey) :
    survey.findings = findings :=
  congrArg Survey.findings (eq_of_ofFindings h)

/-- Findings that are objects can be counted. -/
theorem Survey.ofFindings_eq {findings : List FileFinding}
    (h : ∀ finding ∈ findings, ∃ members, finding.diagnostic = .object members)
    (filesChecked : Nat) :
    ofFindings findings filesChecked = .ok
      { findings, filesChecked
        errorCount := findings.countP fun finding => Published.hasSeverity 1 finding.diagnostic
        warningCount :=
          findings.countP fun finding => Published.hasSeverity 2 finding.diagnostic } := by
  rw [ofFindings, countSeverity_eq 1 h, countSeverity_eq 2 h]
  rfl

namespace SurveyMeans

variable {σ ι : Type} {means : SurveyMeans σ ι}

theorem flatten_tagged (visits : List Visit) :
    ((visits.map Visit.tagged).filterMap id).flatten = visits.flatMap Visit.findings ∧
      ((visits.map Visit.tagged).filterMap id).length = visits.countP (·.found.isSome) := by
  induction visits with
  | nil => exact ⟨rfl, rfl⟩
  | cons visit rest ih =>
    obtain ⟨path, found⟩ := visit
    cases found with
    | none => exact ih
    | some found =>
      rw [List.countP_cons_of_pos rfl]
      exact ⟨congrArg (_ ++ ·) ih.1, congrArg (· + 1) ih.2⟩

/-- Visits that found objects only can be summed up. -/
theorem exists_sumsUp {visits : List Visit}
    (h : ∀ finding ∈ visits.flatMap Visit.findings, ∃ members,
      finding.diagnostic = .object members) :
    ∃ survey, Survey.ofFindings (visits.flatMap Visit.findings)
        (visits.countP (·.found.isSome)) = .ok survey ∧ survey.SumsUp visits :=
  ⟨_, Survey.ofFindings_eq h _, rfl, rfl, rfl, rfl, decide_eq_true_iff⟩

/-- A survey fails when the files cannot be looked for. -/
theorem survey_run_error [HasMachine σ] {patience : Patience} {ignored : List LooseText}
    {directory : Path} {extensions : List LooseText} {s : σ} {failure : Failure}
    (h : (HasMachine.machine s).sightings (.of extensions ignored) directory = .error failure) :
    ∃ after, (means.survey patience ignored directory extensions).run s =
      (.error failure, after) := by
  obtain ⟨journal, hfailed⟩ := Machine.comes_findFiles_error h
  exact ⟨_, run_bind_error (onMachine_run hfailed) _⟩

/-- Where there is room for the search, a survey comes to an end whatever the sessions for the files
do. It visits all files that are found, in their order, and sums up what was found for those whose
steps were completed. Where each file's steps keep to what is the file's own, the visits of one file
are as if there were no other. Where there is no room, the survey fails for just that. -/
theorem survey_sums_up [HasMachine σ] (means : SurveyMeans σ ι) (patience : Patience)
    (ignored : List LooseText) (directory : Path) (extensions : List LooseText) (s : σ)
    (hm : (HasMachine.machine s).files.HasDistinctNames)
    (hdirectory : IsPathText directory.text) (hlog : means.LogsAlways)
    (hobjects : means.GivesObjects) :
    ((HasMachine.machine s).HasRoom (.of extensions ignored) directory →
      ∃ files visits survey searched started after,
        (Machine.findFiles directory (.of extensions ignored)).onMachine.run s =
          (.ok files, searched) ∧
        (means.log .info
          s!"LSP fallback: {files.length} candidate files under {directory.text}").run searched =
            (.ok (), started) ∧
        (means.survey patience ignored directory extensions).run s = (.ok survey, after) ∧
        means.Visits patience files started visits after ∧ visits.map (·.path) = files ∧
        survey.SumsUp visits ∧
        ∀ {τ : Type} (own : Path → σ → τ), means.IsIndependent own → ∀ path, ∃ last,
          means.Visits patience (files.filter (· = path)) started
            (visits.filter (·.path = path)) last) ∧
    (¬(HasMachine.machine s).HasRoom (.of extensions ignored) directory →
      ∃ after, (means.survey patience ignored directory extensions).run s =
        (.error .tooDeep, after)) := by
  refine ⟨fun hroom => ?_, fun hnone =>
    survey_run_error (Machine.sightings_of_not_hasRoom hnone hm hdirectory)⟩
  obtain ⟨met, hmet⟩ := hroom.exists_sightings hm hdirectory
  obtain ⟨journal, hfound⟩ := Machine.comes_findFiles hmet
  have hsearched := onMachine_run hfound
  generalize met.filterMap Sighting.file? = files at hsearched
  generalize HasMachine.setMachine _ s = searched at hsearched
  obtain ⟨started, hstarted⟩ : ∃ started, (means.log .info
      s!"LSP fallback: {files.length} candidate files under {directory.text}").run searched =
        (.ok (), started) := ⟨_, Prod.ext (hlog _ _ _) rfl⟩
  obtain ⟨visits, after, hvisits⟩ := exists_visits hlog patience files started
  obtain ⟨summed, hsummed, hsums⟩ := exists_sumsUp (hvisits.objects hobjects)
  obtain ⟨hfindings, hlength⟩ := flatten_tagged visits
  refine ⟨files, visits, summed, searched, started, after, hsearched, hstarted, ?_, hvisits,
    hvisits.paths, hsums, fun own hown path => hvisits.alone hown hlog path rfl⟩
  rw [survey, run_bind_ok hsearched, run_bind_ok hstarted, surveyFiles,
    run_bind_ok hvisits.run]
  simp only [hfindings, hlength, hsummed]
  rfl

def threeFiles : Machine where
  files := .directory [("a.py", .file []), ("b.py", .file []), ("c.py", .file [])]
  workingDirectory := []

theorem hasDistinctNames_threeFiles : threeFiles.files.HasDistinctNames := by
  refine .directory (by decide) ?_
  simp only [List.forall_mem_cons, List.not_mem_nil, false_imp_iff, implies_true, and_true]
  exact ⟨.file _, .file _, .file _⟩

theorem sightings_threeFiles : threeFiles.sightings (.of [".py"] []) (Path.ofText "/") =
    .ok (threeFiles.sight (.of [".py"] []) 960 (Path.ofText "/") [] threeFiles.files) := by
  have hsorted : threeFiles.files.sorted = threeFiles.files :=
    congrArg Node.directory (List.mergeSort_of_pairwise (by decide))
  have hmet : threeFiles.encounters (.of [".py"] []) (Path.ofText "/") = _ :=
    congrArg (fun node => Except.ok (threeFiles.sight _ 960 _ [] node)) hsorted
  exact Machine.sightings_of_notMem hmet (by decide)

def troubled : SurveyMeans Machine Unit where
  session? path := pure (if path.name = "c.py" then none else some ())
  openDocument _ path := if path.name = "b.py" then fail .timedOut else pure ()
  hasPublished _ _ := pure true
  diagnostics _ _ := pure [.object [("severity", .int 1)]]
  sleep _ := pure ()
  log level text := Machine.log level text

def cramped : Machine where
  files := .directory [("pkg", .directory [("a.py", .file [])])]
  workingDirectory := []
  walkRoom := 0

/-- Only what was found for the file whose steps are completed is in the survey. A survey of
directories that stand too deep fails. -/
theorem survey_sums_up_troubled : (∃ survey after,
    (troubled.survey ⟨.zero false, .ok 0⟩ [] (Path.ofText "/") [".py"]).run threeFiles =
      (.ok survey, after) ∧
    survey.findings = [⟨"/a.py", .object [("severity", .int 1)]⟩] ∧ survey.filesChecked = 1) ∧
    ∃ after, (troubled.survey ⟨.zero false, .ok 0⟩ [] (Path.ofText "/") [".py"]).run cramped =
      (.error .tooDeep, after) := by
  have hobjects : troubled.GivesObjects := by
    rintro ⟨⟩ path s found heq diagnostic hmem
    obtain rfl := Except.ok.inj heq
    exact ⟨_, List.mem_singleton.1 hmem⟩
  have htop : IsPathText (Path.ofText "/").text := isPathText_ofString (s := "/") (by decide)
  have hsummed := fun m hm => survey_sums_up troubled ⟨.zero false, .ok 0⟩ [] (Path.ofText "/")
    [".py"] m hm htop (fun _ _ _ => rfl) hobjects
  have hdistinct : cramped.files.HasDistinctNames :=
    .directory (by decide) (List.forall_mem_singleton.2
      (.directory (by decide) (List.forall_mem_singleton.2 (.file _))))
  refine ⟨?_, (hsummed cramped hdistinct).2 fun hroom => ?_⟩
  · obtain ⟨files, visits, survey, searched, started, after, hsearched, -, hrun, hvisits, -,
      hsums, -⟩ :=
      (hsummed threeFiles hasDistinctNames_threeFiles).1
        (Machine.hasRoom_of_sightings hasDistinctNames_threeFiles sightings_threeFiles)
    obtain ⟨journal, hfound⟩ := Machine.comes_findFiles sightings_threeFiles
    obtain rfl : [Path.ofText "/a.py", Path.ofText "/b.py", Path.ofText "/c.py"] = files :=
      Except.ok.inj (Prod.mk.inj ((onMachine_run hfound).symm.trans hsearched)).1
    have htagged : [some [⟨"/a.py", .object [("severity", .int 1)]⟩], none, none] =
        visits.map Visit.tagged :=
      Except.ok.inj (Prod.mk.inj hvisits.run).1
    obtain ⟨hfindings, hlength⟩ := flatten_tagged visits
    rw [← htagged] at hfindings hlength
    exact ⟨survey, after, hrun, hsums.findings.trans hfindings.symm,
      hsums.filesChecked.trans hlength.symm⟩
  · have hlists : cramped.Lists (Path.ofText "/") [] := ⟨by decide, by decide⟩
    have henters : cramped.Enters (.of [".py"] []) (Path.ofText "/") [] cramped.files ["pkg"] :=
      (Machine.enters_cons_iff hlists).2 ⟨by decide, _, rfl, Machine.enters_nil ..⟩
    exact absurd (hroom [] cramped.files rfl ["pkg"] henters) (by decide)

end SurveyMeans

end ProjectCheck
