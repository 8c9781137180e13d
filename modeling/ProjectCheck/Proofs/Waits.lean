import ProjectCheck.Proofs.Aggregation

/-!
How long a survey waits. A survey with means that take notes does what it does without them, and
notes each use of the means for a file. So what is said of the waits is read off the notes: a file
that is not opened is not waited for, and one that is opened is waited for once and then once more
for each time that nothing was published for it yet, until the retries are spent.
-/
namespace ProjectCheck

open Run Decimal

namespace SurveyMeans

variable {σ ι α β : Type} {means : SurveyMeans σ ι} {wait : Binary64} {retries : Nat}
  {session : ι} {path : Path} {s after : σ}

/-! Means that take notes. -/

inductive Call (ι : Type) where
  | session (path : Path) (outcome : Except Failure (Option ι))
  | openDocument (session : ι) (path : Path) (outcome : Except Failure Unit)
  | hasPublished (session : ι) (path : Path) (outcome : Except Failure Bool)
  | diagnostics (session : ι) (path : Path) (outcome : Except Failure (List Json))
  | sleep (wait : Binary64) (outcome : Except Failure Unit)

namespace Call

def hasFailed : Call ι → Bool
  | .session _ (.error _) => true
  | .openDocument _ _ (.error _) => true
  | .hasPublished _ _ (.error _) => true
  | .diagnostics _ _ (.error _) => true
  | .sleep _ (.error _) => true
  | _ => false

def hasOpened : Call ι → Bool
  | .openDocument _ _ (.ok _) => true
  | _ => false

def isPoll : Call ι → Bool
  | .hasPublished .. => true
  | _ => false

def isReading : Call ι → Bool
  | .diagnostics .. => true
  | _ => false

def wait? : Call ι → Option Binary64
  | .sleep wait _ => some wait
  | _ => none

end Call

def sleeps (calls : List (Call ι)) : List Binary64 :=
  calls.filterMap Call.wait?

theorem sleeps_append (calls more : List (Call ι)) :
    sleeps (calls ++ more) = sleeps calls ++ sleeps more :=
  List.filterMap_append

structure Noted (σ ι : Type) where
  state : σ
  calls : List (Call ι)

instance [HasMachine σ] : HasMachine (Noted σ ι) where
  machine noted := HasMachine.machine noted.state
  setMachine machine noted := { noted with state := HasMachine.setMachine machine noted.state }

def noteOf (calls : Except Failure α → List (Call ι)) (step : Run σ α) : Run (Noted σ ι) α :=
  ExceptT.mk fun noted =>
    let (outcome, after) := step.run noted.state
    (outcome, ⟨after, noted.calls ++ calls outcome⟩)

def noting (means : SurveyMeans σ ι) : SurveyMeans (Noted σ ι) ι where
  session? path := noteOf (fun outcome => [.session path outcome]) (means.session? path)
  openDocument session path :=
    noteOf (fun outcome => [.openDocument session path outcome]) (means.openDocument session path)
  hasPublished session path :=
    noteOf (fun outcome => [.hasPublished session path outcome]) (means.hasPublished session path)
  diagnostics session path :=
    noteOf (fun outcome => [.diagnostics session path outcome]) (means.diagnostics session path)
  sleep wait := noteOf (fun outcome => [.sleep wait outcome]) (means.sleep wait)
  log level text := noteOf (fun _ => []) (means.log level text)

/-- A step and its twin that takes notes end alike, and the twin notes the calls, whatever was noted
before. -/
structure Notes (twin : Run (Noted σ ι) α) (step : Run σ α) (s : σ) (calls : List (Call ι))
    (outcome : Except Failure α) (after : σ) : Prop where
  run : step.run s = (outcome, after)
  noted : ∀ before, twin.run ⟨s, before⟩ = (outcome, ⟨after, before ++ calls⟩)

namespace Notes

variable {twin : Run (Noted σ ι) α} {step : Run σ α} {calls more : List (Call ι)} {between : σ}
  {outcome : Except Failure α}

theorem noteOf (note : Except Failure α → List (Call ι)) (h : step.run s = (outcome, after)) :
    Notes (noteOf note step) step s (note outcome) outcome after where
  run := h
  noted before := by
    change ((step.run s).1, (⟨(step.run s).2, before ++ note (step.run s).1⟩ : Noted σ ι)) = _
    rw [h]

theorem ofExcept (outcome : Except Failure α) (s : σ) :
    Notes (Run.ofExcept outcome) (Run.ofExcept outcome) s ([] : List (Call ι)) outcome s where
  run := ofExcept_run outcome s
  noted before := by rw [ofExcept_run, List.append_nil]

theorem bind_ok {nextTwin : α → Run (Noted σ ι) β} {next : α → Run σ β} {a : α}
    {result : Except Failure β} (hfirst : Notes twin step s calls (.ok a) between)
    (hnext : Notes (nextTwin a) (next a) between more result after) :
    Notes (twin >>= nextTwin) (step >>= next) s (calls ++ more) result after where
  run := (run_bind_ok hfirst.run next).trans hnext.run
  noted before := by
    rw [run_bind_ok (hfirst.noted before), hnext.noted, List.append_assoc]

theorem bind_error {failure : Failure} (hfirst : Notes twin step s calls (.error failure) after)
    (nextTwin : α → Run (Noted σ ι) β) (next : α → Run σ β) :
    Notes (twin >>= nextTwin) (step >>= next) s calls (.error failure) after where
  run := run_bind_error hfirst.run next
  noted before := run_bind_error (hfirst.noted before) nextTwin

theorem attempt (h : Notes twin step s calls outcome after) :
    Notes twin.attempt step.attempt s calls (.ok outcome) after where
  run := attempt_run h.run
  noted before := attempt_run (h.noted before)

theorem onMachine [HasMachine σ] {step : Run Machine α} {machine : Machine}
    (h : step.run (HasMachine.machine s) = (outcome, machine)) :
    Notes step.onMachine step.onMachine s ([] : List (Call ι)) outcome
      (HasMachine.setMachine machine s) where
  run := onMachine_run h
  noted before := by
    rw [List.append_nil]
    exact onMachine_run (σ := Noted σ ι) h

end Notes

/-! The course of one file. -/

inductive Polling (means : SurveyMeans σ ι) (wait : Binary64) (session : ι) (path : Path) :
    Nat → σ → List (Call ι) → Except Failure Unit → σ → Prop
  | spent (s : σ) : Polling means wait session path 0 s [] (.ok ()) s
  | published {retries : Nat} {s after : σ}
      (hasked : (means.hasPublished session path).run s = (.ok true, after)) :
      Polling means wait session path (retries + 1) s [.hasPublished session path (.ok true)]
        (.ok ()) after
  | unanswered {retries : Nat} {s after : σ} {failure : Failure}
      (hasked : (means.hasPublished session path).run s = (.error failure, after)) :
      Polling means wait session path (retries + 1) s
        [.hasPublished session path (.error failure)] (.error failure) after
  | disturbed {retries : Nat} {s asked after : σ} {failure : Failure}
      (hasked : (means.hasPublished session path).run s = (.ok false, asked))
      (hwaited : (means.sleep wait).run asked = (.error failure, after)) :
      Polling means wait session path (retries + 1) s
        [.hasPublished session path (.ok false), .sleep wait (.error failure)]
        (.error failure) after
  | again {retries : Nat} {s asked waited after : σ} {polls : List (Call ι)}
      {outcome : Except Failure Unit}
      (hasked : (means.hasPublished session path).run s = (.ok false, asked))
      (hwaited : (means.sleep wait).run asked = (.ok (), waited))
      (hrest : Polling means wait session path retries waited polls outcome after) :
      Polling means wait session path (retries + 1) s
        (.hasPublished session path (.ok false) :: .sleep wait (.ok ()) :: polls) outcome after

structure Awaits (means : SurveyMeans σ ι) (wait : Binary64) (path : Path) (s : σ) (session : ι)
    (served opened waited : σ) : Prop where
  hsession : (means.session? path).run s = (.ok (some session), served)
  hopened : (means.openDocument session path).run served = (.ok (), opened)
  hwaited : (means.sleep wait).run opened = (.ok (), waited)

def opening (wait : Binary64) (path : Path) (session : ι) : List (Call ι) :=
  [.session path (.ok (some session)), .openDocument session path (.ok ()), .sleep wait (.ok ())]

inductive Course (means : SurveyMeans σ ι) (wait : Binary64) (retries : Nat) (path : Path) (s : σ) :
    List (Call ι) → Except Failure (Option (List Json)) → σ → Prop
  | withoutSession {after : σ} (h : (means.session? path).run s = (.ok none, after)) :
      Course means wait retries path s [.session path (.ok none)] (.ok none) after
  | unserved {after : σ} {failure : Failure}
      (h : (means.session? path).run s = (.error failure, after)) :
      Course means wait retries path s [.session path (.error failure)] (.error failure) after
  | unopened {session : ι} {served after : σ} {failure : Failure}
      (hsession : (means.session? path).run s = (.ok (some session), served))
      (h : (means.openDocument session path).run served = (.error failure, after)) :
      Course means wait retries path s
        [.session path (.ok (some session)), .openDocument session path (.error failure)]
        (.error failure) after
  | disturbed {session : ι} {served opened after : σ} {failure : Failure}
      (hsession : (means.session? path).run s = (.ok (some session), served))
      (hopened : (means.openDocument session path).run served = (.ok (), opened))
      (h : (means.sleep wait).run opened = (.error failure, after)) :
      Course means wait retries path s
        [.session path (.ok (some session)), .openDocument session path (.ok ()),
          .sleep wait (.error failure)] (.error failure) after
  | unanswered {session : ι} {served opened waited after : σ} {polls : List (Call ι)}
      {failure : Failure} (hawaits : means.Awaits wait path s session served opened waited)
      (h : means.Polling wait session path retries waited polls (.error failure) after) :
      Course means wait retries path s (opening wait path session ++ polls) (.error failure) after
  | read {session : ι} {served opened waited polled after : σ} {polls : List (Call ι)}
      {outcome : Except Failure (List Json)}
      (hawaits : means.Awaits wait path s session served opened waited)
      (hpolling : means.Polling wait session path retries waited polls (.ok ()) polled)
      (h : (means.diagnostics session path).run polled = (outcome, after)) :
      Course means wait retries path s
        (opening wait path session ++ (polls ++ [.diagnostics session path outcome]))
        (outcome.map some) after

theorem exists_polling (means : SurveyMeans σ ι) (wait : Binary64) (session : ι) (path : Path)
    (retries : Nat) (s : σ) :
    ∃ polls outcome after, means.Polling wait session path retries s polls outcome after := by
  induction retries generalizing s with
  | zero => exact ⟨[], .ok (), s, .spent s⟩
  | succ retries ih =>
    rcases hasked : (means.hasPublished session path).run s with ⟨failure | _ | _, asked⟩
    · exact ⟨_, _, asked, .unanswered hasked⟩
    · rcases hwaited : (means.sleep wait).run asked with ⟨failure | _, waited⟩
      · exact ⟨_, _, waited, .disturbed hasked hwaited⟩
      · obtain ⟨polls, outcome, after, hrest⟩ := ih waited
        exact ⟨_, outcome, after, .again hasked hwaited hrest⟩
    · exact ⟨_, _, asked, .published hasked⟩

theorem exists_course (means : SurveyMeans σ ι) (wait : Binary64) (retries : Nat) (path : Path)
    (s : σ) : ∃ calls outcome after, means.Course wait retries path s calls outcome after := by
  rcases hsession : (means.session? path).run s with ⟨failure | _ | session, served⟩
  · exact ⟨_, _, served, .unserved hsession⟩
  · exact ⟨_, _, served, .withoutSession hsession⟩
  rcases hopened : (means.openDocument session path).run served with ⟨failure | _, opened⟩
  · exact ⟨_, _, opened, .unopened hsession hopened⟩
  rcases hwaited : (means.sleep wait).run opened with ⟨failure | _, waited⟩
  · exact ⟨_, _, waited, .disturbed hsession hopened hwaited⟩
  have hawaits : means.Awaits wait path s session served opened waited :=
    ⟨hsession, hopened, hwaited⟩
  obtain ⟨polls, failure | _, polled, hpolling⟩ :=
    exists_polling means wait session path retries waited
  · exact ⟨_, _, polled, .unanswered hawaits hpolling⟩
  · exact ⟨_, _, _, .read hawaits hpolling rfl⟩

/-! What is noted of each use of the means, and of the steps of a file. -/

theorem notes_session {outcome : Except Failure (Option ι)}
    (h : (means.session? path).run s = (outcome, after)) :
    Notes (means.noting.session? path) (means.session? path) s [.session path outcome] outcome
      after :=
  .noteOf (fun outcome => [.session path outcome]) h

theorem notes_openDocument {outcome : Except Failure Unit}
    (h : (means.openDocument session path).run s = (outcome, after)) :
    Notes (means.noting.openDocument session path) (means.openDocument session path) s
      [.openDocument session path outcome] outcome after :=
  .noteOf (fun outcome => [.openDocument session path outcome]) h

theorem notes_hasPublished {outcome : Except Failure Bool}
    (h : (means.hasPublished session path).run s = (outcome, after)) :
    Notes (means.noting.hasPublished session path) (means.hasPublished session path) s
      [.hasPublished session path outcome] outcome after :=
  .noteOf (fun outcome => [.hasPublished session path outcome]) h

theorem notes_diagnostics {outcome : Except Failure (List Json)}
    (h : (means.diagnostics session path).run s = (outcome, after)) :
    Notes (means.noting.diagnostics session path) (means.diagnostics session path) s
      [.diagnostics session path outcome] outcome after :=
  .noteOf (fun outcome => [.diagnostics session path outcome]) h

theorem notes_sleep {outcome : Except Failure Unit}
    (h : (means.sleep wait).run s = (outcome, after)) :
    Notes (means.noting.sleep wait) (means.sleep wait) s [.sleep wait outcome] outcome after :=
  .noteOf (fun outcome => [.sleep wait outcome]) h

theorem notes_log {level : Level} {text : String} {outcome : Except Failure Unit}
    (h : (means.log level text).run s = (outcome, after)) :
    Notes (means.noting.log level text) (means.log level text) s [] outcome after :=
  .noteOf (fun _ => []) h

theorem Polling.notes {polls : List (Call ι)} {outcome : Except Failure Unit}
    (h : means.Polling wait session path retries s polls outcome after) :
    Notes (means.noting.awaitPublication wait session path retries)
      (means.awaitPublication wait session path retries) s polls outcome after := by
  induction h with
  | spent s => exact .ofExcept (.ok ()) s
  | published hasked => exact .bind_ok (notes_hasPublished hasked) (.ofExcept (.ok ()) _)
  | unanswered hasked => exact .bind_error (notes_hasPublished hasked) _ _
  | disturbed hasked hwaited =>
    refine .bind_ok (notes_hasPublished hasked) ?_
    exact .bind_error (notes_sleep hwaited) _ _
  | again hasked hwaited _ ih =>
    refine .bind_ok (notes_hasPublished hasked) ?_
    exact .bind_ok (notes_sleep hwaited) ih

theorem Awaits.notes_collect {served opened waited : σ} {more : List (Call ι)}
    {outcome : Except Failure (Option (List Json))}
    (h : means.Awaits wait path s session served opened waited)
    (hrest : Notes (do
        means.noting.awaitPublication wait session path retries
        return some (← means.noting.diagnostics session path))
      (do
        means.awaitPublication wait session path retries
        return some (← means.diagnostics session path)) waited more outcome after) :
    Notes (means.noting.collect ⟨wait, .ok retries⟩ path) (means.collect ⟨wait, .ok retries⟩ path) s
      (opening wait path session ++ more) outcome after := by
  change Notes _ _ s ([_] ++ ([_] ++ ([_] ++ ([] ++ more)))) _ _
  refine .bind_ok (notes_session h.hsession) (.bind_ok (notes_openDocument h.hopened) ?_)
  exact .bind_ok (notes_sleep h.hwaited) (.bind_ok (.ofExcept (.ok retries) waited) hrest)

theorem Course.notes {calls : List (Call ι)} {outcome : Except Failure (Option (List Json))}
    (h : means.Course wait retries path s calls outcome after) :
    Notes (means.noting.collect ⟨wait, .ok retries⟩ path) (means.collect ⟨wait, .ok retries⟩ path) s
      calls outcome after := by
  cases h with
  | withoutSession h => exact .bind_ok (notes_session h) (.ofExcept (.ok none) after)
  | unserved h => exact .bind_error (notes_session h) _ _
  | unopened hsession h =>
    refine .bind_ok (notes_session hsession) ?_
    exact .bind_error (notes_openDocument h) _ _
  | disturbed hsession hopened h =>
    refine .bind_ok (notes_session hsession) (.bind_ok (notes_openDocument hopened) ?_)
    exact .bind_error (notes_sleep h) _ _
  | unanswered hawaits h => exact hawaits.notes_collect (.bind_error h.notes _ _)
  | @read _ _ _ _ _ _ _ outcome hawaits hpolling h =>
    refine hawaits.notes_collect (.bind_ok hpolling.notes ?_)
    cases outcome with
    | error failure => exact .bind_error (notes_diagnostics h) _ _
    | ok found => exact .bind_ok (notes_diagnostics h) (.ofExcept (.ok (some found)) after)

/-! What the notes of one file say. -/

/-- Nothing was published for the file at so many polls, each of them followed by a wait, but
something was at the next poll. -/
inductive PublishesAfter (means : SurveyMeans σ ι) (wait : Binary64) (session : ι) (path : Path) :
    Nat → σ → Prop
  | now {s after : σ} (hasked : (means.hasPublished session path).run s = (.ok true, after)) :
      PublishesAfter means wait session path 0 s
  | later {denied : Nat} {s asked waited : σ}
      (hasked : (means.hasPublished session path).run s = (.ok false, asked))
      (hwaited : (means.sleep wait).run asked = (.ok (), waited))
      (hrest : PublishesAfter means wait session path denied waited) :
      PublishesAfter means wait session path (denied + 1) s

def denial (wait : Binary64) (session : ι) (path : Path) : List (Call ι) :=
  [.hasPublished session path (.ok false), .sleep wait (.ok ())]

/-- Nothing was published at so many polls, and unless the retries are spent by then something was
at the next one. The number of these polls is determined by when something is published. -/
structure Denials (means : SurveyMeans σ ι) (wait : Binary64) (session : ι) (path : Path)
    (retries : Nat) (s : σ) (denied : Nat) (polls : List (Call ι)) : Prop where
  le : denied ≤ retries
  polls_eq : polls = (List.replicate denied (denial wait session path)).flatten ++
    if denied < retries then [.hasPublished session path (.ok true)] else []
  eq_min : ∀ before, means.PublishesAfter wait session path before s → denied = min retries before
  eq_of_never : (∀ before, ¬ means.PublishesAfter wait session path before s) → denied = retries

/-- What the calls for one file are like. Without its being opened there is no wait. All waits are
as long as was asked for, and no more than the retries and one. There are no more polls than
retries, all of them after the first wait. What was found is read last. If no step fails, and there
is a session, the file is opened and waited for, and its diagnostics are read once after as many
polls and waits as it takes until something is published, within the retries. -/
structure IsPaced (means : SurveyMeans σ ι) (wait : Binary64) (retries : Nat) (path : Path) (s : σ)
    (calls : List (Call ι)) : Prop where
  unopened : calls.any Call.hasOpened = false → sleeps calls = []
  wait_eq : ∀ slept ∈ sleeps calls, slept = wait
  sleeps_le : (sleeps calls).length ≤ 1 + retries
  polls_le : calls.countP Call.isPoll ≤ retries
  polls_after : ∀ before call rest, calls = before ++ call :: rest → call.isPoll = true →
    .sleep wait (.ok ()) ∈ before
  read_last : ∀ call ∈ calls.dropLast, call.isReading = false
  completed : (∀ call ∈ calls, call.hasFailed = false) → .session path (.ok none) ∉ calls →
    ∃ session served opened waited denied polls found,
      means.Awaits wait path s session served opened waited ∧
      means.Denials wait session path retries waited denied polls ∧
      calls = opening wait path session ++ (polls ++ [.diagnostics session path (.ok found)]) ∧
      (sleeps calls).length = 1 + denied

section Polling

variable {polls : List (Call ι)} {outcome : Except Failure Unit}

theorem Polling.only (h : means.Polling wait session path retries s polls outcome after) :
    ∀ call ∈ polls, (∃ answer, call = .hasPublished session path answer) ∨
      ∃ ended, call = .sleep wait ended := by
  induction h with
  | spent => nofun
  | published => simp
  | unanswered => simp
  | disturbed => simp
  | again _ _ _ ih => simpa using ih

theorem Polling.wait_eq (h : means.Polling wait session path retries s polls outcome after) :
    ∀ slept ∈ sleeps polls, slept = wait := by
  intro slept hslept
  obtain ⟨call, hcall, hwait⟩ := List.mem_filterMap.1 hslept
  rcases h.only call hcall with ⟨answer, rfl⟩ | ⟨ended, rfl⟩
  · cases hwait
  · exact (Option.some.inj hwait).symm

theorem Polling.unread (h : means.Polling wait session path retries s polls outcome after) :
    ∀ call ∈ opening wait path session ++ polls, call.isReading = false := by
  intro call hcall
  rcases List.mem_append.1 hcall with hcall | hcall
  · simp only [opening, List.mem_cons, List.not_mem_nil, or_false] at hcall
    rcases hcall with rfl | rfl | rfl <;> rfl
  · rcases h.only call hcall with ⟨_, rfl⟩ | ⟨_, rfl⟩ <;> rfl

theorem Polling.sleeps_le (h : means.Polling wait session path retries s polls outcome after) :
    (sleeps polls).length ≤ retries := by
  induction h with
  | spent => exact Nat.le_refl 0
  | published => exact Nat.zero_le _
  | unanswered => exact Nat.zero_le _
  | disturbed => exact Nat.le_add_left 1 _
  | again _ _ _ ih => exact Nat.succ_le_succ ih

theorem Polling.polls_le (h : means.Polling wait session path retries s polls outcome after) :
    polls.countP Call.isPoll ≤ retries := by
  induction h with
  | spent => exact Nat.le_refl 0
  | published => exact Nat.le_add_left 1 _
  | unanswered => exact Nat.le_add_left 1 _
  | disturbed => exact Nat.le_add_left 1 _
  | again _ _ _ ih =>
    rw [List.countP_cons_of_pos rfl, List.countP_cons_of_neg Bool.false_ne_true]
    exact Nat.succ_le_succ ih

/-- If no poll and no wait fails, the polls are as many as it takes. -/
theorem Polling.denials (h : means.Polling wait session path retries s polls outcome after)
    (hpolls : ∀ call ∈ polls, call.hasFailed = false) :
    outcome = .ok () ∧ ∃ denied, means.Denials wait session path retries s denied polls ∧
      (sleeps polls).length = denied := by
  induction h with
  | spent s =>
    have hspent : means.Denials wait session path 0 s 0 [] :=
      ⟨Nat.le_refl 0, rfl, fun _ _ => (Nat.zero_min _).symm, fun _ => rfl⟩
    exact ⟨rfl, 0, hspent, rfl⟩
  | @published retries s after hasked =>
    refine ⟨rfl, 0, ⟨Nat.zero_le _, by simp, fun before hbefore => ?_, fun hnever => ?_⟩, rfl⟩
    · cases hbefore with
      | now => exact (Nat.min_zero _).symm
      | later hdenied => cases hasked.symm.trans hdenied
    · exact absurd (.now hasked) (hnever 0)
  | unanswered => exact nomatch hpolls _ List.mem_cons_self
  | disturbed => exact nomatch hpolls _ (List.mem_cons_of_mem _ List.mem_cons_self)
  | @again retries s asked waited after polls outcome hasked hwaited _ ih =>
    obtain ⟨houtcome, denied, h, hsleeps⟩ := ih fun call hcall =>
      hpolls call (List.mem_cons_of_mem _ (List.mem_cons_of_mem _ hcall))
    refine ⟨houtcome, denied + 1, ⟨Nat.succ_le_succ h.le, ?_, fun before hbefore => ?_, ?_⟩,
      congrArg (· + 1) hsleeps⟩
    · rw [List.replicate_succ, List.flatten_cons, List.append_assoc]
      simp only [Nat.add_lt_add_iff_right]
      rw [← h.polls_eq]
      rfl
    · cases hbefore with
      | now hpublished => cases hasked.symm.trans hpublished
      | later hasked' hwaited' hrest =>
        obtain rfl := (Prod.mk.inj (hasked.symm.trans hasked')).2
        obtain rfl := (Prod.mk.inj (hwaited.symm.trans hwaited')).2
        rw [h.eq_min _ hrest, Nat.succ_min_succ]
    · intro hnever
      rw [h.eq_of_never fun before hrest => hnever (before + 1) (.later hasked hwaited hrest)]

end Polling

/-- A file that is not waited for to the end is neither polled nor read. -/
theorem isPaced_of_unpolled {calls : List (Call ι)}
    (hcalls : ∀ call ∈ calls, call.isPoll = false ∧ call.isReading = false)
    (hunopened : calls.any Call.hasOpened = false → sleeps calls = [])
    (hsleeps : sleeps calls = [] ∨ sleeps calls = [wait])
    (hended : .session path (.ok none) ∈ calls ∨ ∃ call ∈ calls, call.hasFailed = true) :
    means.IsPaced wait retries path s calls where
  unopened := hunopened
  wait_eq slept hslept := by
    rcases hsleeps with h | h <;> rw [h] at hslept
    · cases hslept
    · exact List.mem_singleton.1 hslept
  sleeps_le := by
    rcases hsleeps with h | h <;> rw [h]
    · exact Nat.zero_le _
    · exact Nat.le_add_right 1 retries
  polls_le := by
    have hnone : calls.countP Call.isPoll = 0 := by
      rw [List.countP_eq_zero]
      intro call hcall
      rw [(hcalls call hcall).1]
      exact Bool.false_ne_true
    rw [hnone]
    exact Nat.zero_le retries
  polls_after before call rest hsplit hpoll := by
    have hcall : call ∈ calls := hsplit ▸ List.mem_append_right before List.mem_cons_self
    rw [(hcalls call hcall).1] at hpoll
    cases hpoll
  read_last call hcall := (hcalls call (List.dropLast_subset calls hcall)).2
  completed hok hsession := by
    rcases hended with h | ⟨call, hcall, hfailed⟩
    · exact absurd h hsession
    · rw [hok call hcall] at hfailed
      cases hfailed

/-- A poll only comes after the first wait. -/
theorem sleep_mem_of_isPoll {later before rest : List (Call ι)} {call : Call ι}
    (hsplit : opening wait path session ++ later = before ++ call :: rest)
    (hpoll : call.isPoll = true) : .sleep wait (.ok ()) ∈ before := by
  match before, hsplit with
  | [], hsplit => cases hsplit; cases hpoll
  | [_], hsplit => cases hsplit; cases hpoll
  | [_, _], hsplit => cases hsplit; cases hpoll
  | first :: second :: third :: before, hsplit =>
    obtain rfl : .sleep wait (.ok ()) = third :=
      (List.cons.inj (List.cons.inj (List.cons.inj hsplit).2).2).1
    exact List.mem_cons_of_mem _ (List.mem_cons_of_mem _ List.mem_cons_self)

/-- A file that is waited for is paced by its polls, whether it is read after them or not. -/
theorem Polling.isPaced {served opened waited polled : σ} {polls reading : List (Call ι)}
    {outcome : Except Failure Unit}
    (hawaits : means.Awaits wait path s session served opened waited)
    (hpolling : means.Polling wait session path retries waited polls outcome polled)
    (hreading : reading = [] ∧ outcome ≠ .ok () ∨
      ∃ found, reading = [.diagnostics session path found]) :
    means.IsPaced wait retries path s (opening wait path session ++ (polls ++ reading)) := by
  have hquiet : sleeps reading = [] ∧ reading.countP Call.isPoll = 0 := by
    rcases hreading with ⟨rfl, -⟩ | ⟨found, rfl⟩ <;> exact ⟨rfl, rfl⟩
  have hsleeps :
      sleeps (opening wait path session ++ (polls ++ reading)) = wait :: sleeps polls := by
    rw [sleeps_append, sleeps_append, hquiet.1, List.append_nil]
    rfl
  refine ⟨nofun, ?_, ?_, ?_, fun _ _ _ => sleep_mem_of_isPoll, ?_, ?_⟩
  · rw [hsleeps]
    exact List.forall_mem_cons.2 ⟨rfl, hpolling.wait_eq⟩
  · rw [hsleeps, List.length_cons, Nat.add_comm]
    exact Nat.add_le_add_left hpolling.sleeps_le 1
  · rw [List.countP_append, List.countP_append, hquiet.2, Nat.add_zero]
    exact (Nat.zero_add _).symm ▸ hpolling.polls_le
  · rw [← List.append_assoc]
    rcases hreading with ⟨rfl, -⟩ | ⟨found, rfl⟩
    · rw [List.append_nil]
      exact fun call hcall => hpolling.unread call (List.dropLast_subset _ hcall)
    · rw [List.dropLast_concat]
      exact hpolling.unread
  · intro hok _
    have hlater : ∀ call ∈ polls ++ reading, call.hasFailed = false :=
      fun call hcall => hok call (List.mem_append_right _ hcall)
    obtain ⟨rfl, denied, hdenials, hlength⟩ :=
      hpolling.denials fun call hcall => hlater call (List.mem_append_left _ hcall)
    rcases hreading with ⟨-, hended⟩ | ⟨failure | found, rfl⟩
    · exact absurd rfl hended
    · exact nomatch hlater _ (List.mem_append_right _ List.mem_cons_self)
    · refine ⟨session, served, opened, waited, denied, polls, found, hawaits, hdenials, rfl, ?_⟩
      rw [hsleeps, List.length_cons, hlength, Nat.add_comm]

theorem Course.isPaced {calls : List (Call ι)} {outcome : Except Failure (Option (List Json))}
    (h : means.Course wait retries path s calls outcome after) :
    means.IsPaced wait retries path s calls := by
  cases h with
  | withoutSession =>
    exact isPaced_of_unpolled (by simp [Call.isPoll, Call.isReading]) (fun _ => rfl) (.inl rfl)
      (.inl List.mem_cons_self)
  | unserved =>
    exact isPaced_of_unpolled (by simp [Call.isPoll, Call.isReading]) (fun _ => rfl) (.inl rfl)
      (.inr ⟨_, List.mem_cons_self, rfl⟩)
  | unopened =>
    exact isPaced_of_unpolled (by simp [Call.isPoll, Call.isReading]) (fun _ => rfl) (.inl rfl)
      (.inr ⟨_, List.mem_cons_of_mem _ List.mem_cons_self, rfl⟩)
  | disturbed =>
    exact isPaced_of_unpolled (by simp [Call.isPoll, Call.isReading]) nofun (.inr rfl)
      (.inr ⟨_, List.mem_cons_of_mem _ (List.mem_cons_of_mem _ List.mem_cons_self), rfl⟩)
  | unanswered hawaits h =>
    have hpaced := h.isPaced hawaits (.inl ⟨rfl, error_ne_ok⟩)
    rwa [List.append_nil] at hpaced
  | read hawaits hpolling _ => exact hpolling.isPaced hawaits (.inr ⟨_, rfl⟩)

/-! The survey of a directory. -/

structure Stay (σ ι : Type) where
  path : Path
  start : σ
  calls : List (Call ι)

def Stay.isOpened (stay : Stay σ ι) : Bool :=
  stay.calls.any Call.hasOpened

inductive Stays (means : SurveyMeans σ ι) (patience : Patience) :
    List Path → σ → List (Stay σ ι) → σ → Prop
  | nil (s : σ) : Stays means patience [] s [] s
  | cons {path : Path} {rest : List Path} {s between after : σ} {calls : List (Call ι)}
      {found : Option (List FileFinding)} {stays : List (Stay σ ι)}
      (hfirst : Notes (means.noting.collectOrSkip patience path) (means.collectOrSkip patience path)
        s calls (.ok found) between)
      (hrest : Stays means patience rest between stays after) :
      Stays means patience (path :: rest) s (⟨path, s, calls⟩ :: stays) after

theorem Course.notes_visit (hlog : means.LogsAlways) {calls : List (Call ι)}
    {outcome : Except Failure (Option (List Json))}
    (h : means.Course wait retries path s calls outcome after) :
    ∃ found last, Notes (means.noting.collectOrSkip ⟨wait, .ok retries⟩ path)
      (means.collectOrSkip ⟨wait, .ok retries⟩ path) s calls (.ok found) last := by
  have hattempt := h.notes.attempt
  rw [← List.append_nil calls]
  cases outcome with
  | ok found => exact ⟨_, after, hattempt.bind_ok (.ofExcept (.ok _) after)⟩
  | error failure =>
    have hlogged : (means.log .warning
        s!"LSP diagnostics failed for {path.text}: {failure.message}").run after = (.ok (), _) :=
      Prod.ext (hlog _ _ _) rfl
    exact ⟨none, _, hattempt.bind_ok ((notes_log hlogged).bind_ok (.ofExcept (.ok none) _))⟩

/-- Whatever happens at the files, there is a stay at each of them, and it is paced. -/
theorem exists_stays (hlog : means.LogsAlways) (wait : Binary64) (retries : Nat)
    (files : List Path) (s : σ) :
    ∃ stays after, means.Stays ⟨wait, .ok retries⟩ files s stays after ∧
      ∀ stay ∈ stays, means.IsPaced wait retries stay.path stay.start stay.calls := by
  induction files generalizing s with
  | nil => exact ⟨[], s, .nil s, nofun⟩
  | cons path rest ih =>
    obtain ⟨calls, outcome, broken, hcourse⟩ := exists_course means wait retries path s
    obtain ⟨found, between, hfirst⟩ := hcourse.notes_visit hlog
    obtain ⟨stays, after, hrest, hpaced⟩ := ih between
    exact ⟨_, after, .cons hfirst hrest, List.forall_mem_cons.2 ⟨hcourse.isPaced, hpaced⟩⟩

theorem Stays.paths {patience : Patience} {files : List Path} {stays : List (Stay σ ι)}
    (h : means.Stays patience files s stays after) : stays.map Stay.path = files := by
  induction h with
  | nil => rfl
  | cons _ _ ih => rw [List.map_cons, ih]

theorem Stays.notes {patience : Patience} {files : List Path} {stays : List (Stay σ ι)}
    (h : means.Stays patience files s stays after) :
    ∃ found, Notes (files.mapM (means.noting.collectOrSkip patience))
      (files.mapM (means.collectOrSkip patience)) s (stays.flatMap Stay.calls) (.ok found)
        after := by
  induction h with
  | nil s => exact ⟨[], .ofExcept (.ok []) s⟩
  | @cons path rest s between after calls found stays hfirst _ ih =>
    obtain ⟨more, hrest⟩ := ih
    refine ⟨found :: more, ?_⟩
    rw [List.mapM_cons, List.mapM_cons, List.flatMap_cons, ← List.append_nil (stays.flatMap _)]
    exact hfirst.bind_ok (hrest.bind_ok (.ofExcept (.ok (found :: more)) after))

theorem Stays.notes_surveyFiles {patience : Patience} {files : List Path} {stays : List (Stay σ ι)}
    (h : means.Stays patience files s stays after) :
    ∃ result, Notes (means.noting.surveyFiles patience files) (means.surveyFiles patience files) s
      (stays.flatMap Stay.calls) result after := by
  obtain ⟨found, hvisits⟩ := h.notes
  rw [← List.append_nil (stays.flatMap _)]
  exact ⟨_, .bind_ok hvisits (.ofExcept
    (Survey.ofFindings (found.filterMap id).flatten (found.filterMap id).length) after)⟩

/-- A file that is opened is waited for as many times as there are retries and once more, at most,
and another file not at all. -/
theorem sleeps_stays_le {stays : List (Stay σ ι)}
    (h : ∀ stay ∈ stays, means.IsPaced wait retries stay.path stay.start stay.calls) :
    (sleeps (stays.flatMap Stay.calls)).length ≤ stays.countP Stay.isOpened * (1 + retries) := by
  induction stays with
  | nil => exact Nat.zero_le _
  | cons stay rest ih =>
    obtain ⟨hpaced, hrest⟩ := List.forall_mem_cons.1 h
    have hlength : (sleeps ((stay :: rest).flatMap Stay.calls)).length =
        (sleeps stay.calls).length + (sleeps (rest.flatMap Stay.calls)).length := by
      rw [List.flatMap_cons, sleeps_append, List.length_append]
    rw [hlength]
    cases hopened : stay.isOpened with
    | false =>
      rw [hpaced.unopened hopened, List.countP_cons_of_neg (Bool.eq_false_iff.1 hopened)]
      exact (Nat.zero_add _).symm ▸ ih hrest
    | true =>
      rw [List.countP_cons_of_pos hopened, Nat.add_mul, Nat.one_mul, Nat.add_comm]
      exact Nat.add_le_add (ih hrest) hpaced.sleeps_le

/-- Whatever the sessions for the files do, a survey with notes ends as the survey does, and its
notes are those of the files that are found, in their order. Each file is paced: it is not waited
for if it is not opened, and is otherwise waited for once and once more for each poll at which
nothing was published, within the retries. So the waits of the survey are bounded by its opened
files. -/
theorem survey_waits [HasMachine σ] (means : SurveyMeans σ ι) (wait : Binary64) (retries : Nat)
    (ignored : List LooseText) (directory : Path) (extensions : List LooseText) (s : σ)
    (hlog : means.LogsAlways) :
    ∃ stays result after,
      Notes (means.noting.survey ⟨wait, .ok retries⟩ ignored directory extensions)
        (means.survey ⟨wait, .ok retries⟩ ignored directory extensions) s
        (stays.flatMap Stay.calls) result after ∧
      (∀ files searched,
        (Machine.findFiles directory (.of extensions ignored)).onMachine.run s =
          (.ok files, searched) →
        ∃ started, (means.log .info
            s!"LSP fallback: {files.length} candidate files under {directory.text}").run searched =
              (.ok (), started) ∧
          means.Stays ⟨wait, .ok retries⟩ files started stays after ∧
          stays.map Stay.path = files) ∧
      (∀ stay ∈ stays, means.IsPaced wait retries stay.path stay.start stay.calls) ∧
      (sleeps (stays.flatMap Stay.calls)).length ≤ stays.countP Stay.isOpened * (1 + retries) := by
  rcases hfound : (Machine.findFiles directory (.of extensions ignored)).run
    (HasMachine.machine s) with ⟨failure | files, machine⟩
  · have hsearched := Notes.onMachine (ι := ι) hfound
    refine ⟨[], .error failure, _, .bind_error hsearched _ _, ?_, nofun, Nat.zero_le _⟩
    intro files searched hfiles
    cases hsearched.run.symm.trans hfiles
  · have hsearched := Notes.onMachine (ι := ι) hfound
    have hlogged : (means.log .info
        s!"LSP fallback: {files.length} candidate files under {directory.text}").run
          (HasMachine.setMachine machine s) = (.ok (), _) :=
      Prod.ext (hlog _ _ _) rfl
    obtain ⟨stays, after, hstays, hpaced⟩ := exists_stays hlog wait retries files _
    obtain ⟨result, hsurveyed⟩ := hstays.notes_surveyFiles
    refine ⟨stays, result, after, .bind_ok hsearched (.bind_ok (notes_log hlogged) hsurveyed), ?_,
      hpaced, sleeps_stays_le hpaced⟩
    intro others searched hothers
    obtain ⟨hfiles, rfl⟩ := Prod.mk.inj (hsearched.run.symm.trans hothers)
    obtain rfl := Except.ok.inj hfiles
    exact ⟨_, hlogged, hstays, hstays.paths⟩

structure Clocked where
  machine : Machine
  waits : Nat

instance : HasMachine Clocked where
  machine := Clocked.machine
  setMachine machine clocked := { clocked with machine }

/-- Sessions in which something is published after the second wait. They break when one of the files
is opened, and there is none for another one. -/
def tardy : SurveyMeans Clocked Unit where
  session? path := pure (if path.name = "c.py" then none else some ())
  openDocument _ path := if path.name = "b.py" then fail .timedOut else pure ()
  hasPublished _ _ := return 2 ≤ (← get).waits
  diagnostics _ _ := pure []
  sleep _ := modify fun clocked => { clocked with waits := clocked.waits + 1 }
  log _ _ := pure ()

/-- The file that is opened is waited for twice, and the others are not waited for. -/
theorem survey_waits_tardy : ∃ stays : List (Stay Clocked Unit), ∃ result after,
    (tardy.noting.survey ⟨.zero false, .ok 3⟩ [] (Path.ofText "/") [".py"]).run
        ⟨⟨threeFiles, 0⟩, []⟩ = (result, ⟨after, stays.flatMap Stay.calls⟩) ∧
    stays.map (fun stay => (stay.path.text, (sleeps stay.calls).length)) =
      [(.ofString "/a.py", 2), (.ofString "/b.py", 0), (.ofString "/c.py", 0)] := by
  obtain ⟨stays, result, after, hsurvey, hfiles, -, -⟩ := survey_waits tardy (.zero false) 3 []
    (Path.ofText "/") [".py"] ⟨threeFiles, 0⟩ (fun _ _ _ => rfl)
  obtain ⟨journal, hfound⟩ := Machine.comes_findFiles sightings_threeFiles
  obtain ⟨started, hstarted, hstays, -⟩ :=
    hfiles [Path.ofText "/a.py", Path.ofText "/b.py", Path.ofText "/c.py"] _ (onMachine_run hfound)
  obtain rfl := (Prod.mk.inj hstarted).2
  refine ⟨stays, result, after, hsurvey.noted [], ?_⟩
  obtain _ | ⟨hfirst, _ | ⟨hsecond, _ | ⟨hthird, _ | _⟩⟩⟩ := hstays
  obtain ⟨rfl, rfl⟩ := Noted.mk.inj (Prod.mk.inj (hfirst.noted [])).2
  obtain ⟨rfl, rfl⟩ := Noted.mk.inj (Prod.mk.inj (hsecond.noted [])).2
  obtain ⟨rfl, rfl⟩ := Noted.mk.inj (Prod.mk.inj (hthird.noted [])).2
  rfl

end SurveyMeans

end ProjectCheck
