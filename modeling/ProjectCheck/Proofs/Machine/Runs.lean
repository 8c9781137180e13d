import ProjectCheck.Machine.Basic

/-!
What a step does, read off its parts. A step ends in a result or a failure and in a state, and what
is said of both is said part by part. `Ends` speaks of the result and the state together; `Moves`
speaks of the states alone, by a relation that holds along any sequence of parts.
-/
namespace ProjectCheck.Run

variable {σ α β ι : Type}

theorem run_pure (a : α) (s : σ) : (pure a : Run σ α).run s = (.ok a, s) := rfl

theorem run_get (s : σ) : (get : Run σ σ).run s = (.ok s, s) := rfl

theorem run_modify (change : σ → σ) (s : σ) :
    (modify change : Run σ PUnit).run s = (.ok ⟨⟩, change s) := rfl

theorem run_bind (step : Run σ α) (next : α → Run σ β) (s : σ) :
    (step >>= next).run s = match step.run s with
      | (.ok a, after) => (next a).run after
      | (.error failure, after) => (.error failure, after) := by
  change (ExceptT.bindCont next (step.run s).1).run (step.run s).2 = _
  rcases step.run s with ⟨_ | _, _⟩ <;> rfl

theorem run_bind_ok {step : Run σ α} {s after : σ} {a : α} (h : step.run s = (.ok a, after))
    (next : α → Run σ β) : (step >>= next).run s = (next a).run after := by
  rw [run_bind, h]

theorem run_bind_error {step : Run σ α} {s after : σ} {failure : Failure}
    (h : step.run s = (.error failure, after)) (next : α → Run σ β) :
    (step >>= next).run s = (.error failure, after) := by
  rw [run_bind, h]

theorem error_ne_ok {failure : Failure} {a : α} : Except.error failure ≠ .ok a := nofun

theorem run_bind_eq_ok {step : Run σ α} {next : α → Run σ β} {s after : σ} {b : β} :
    (step >>= next).run s = (.ok b, after) ↔
      ∃ a between, step.run s = (.ok a, between) ∧ (next a).run between = (.ok b, after) := by
  rw [run_bind]
  rcases step.run s with ⟨_ | a, between⟩
  · exact ⟨nofun, fun ⟨_, _, h, _⟩ => nomatch h⟩
  · refine ⟨fun h => ⟨a, between, rfl, h⟩, ?_⟩
    rintro ⟨_, _, ⟨⟩, h⟩
    exact h

theorem ofExcept_run (outcome : Except Failure α) (s : σ) :
    (ofExcept outcome).run s = (outcome, s) := by
  cases outcome <;> rfl

theorem ofExcept_run_eq_ok {outcome : Except Failure α} {s after : σ} {a : α} :
    (ofExcept outcome).run s = (.ok a, after) ↔ outcome = .ok a ∧ s = after := by
  rw [ofExcept_run]
  exact Prod.mk.injEq .. ▸ Iff.rfl

theorem attempt_run {step : Run σ α} {s after : σ} {outcome : Except Failure α}
    (h : step.run s = (outcome, after)) : step.attempt.run s = (.ok outcome, after) := by
  change (Except.ok (step.run s).1, (step.run s).2) = _
  rw [h]

theorem onMachine_run [HasMachine σ] {step : Run Machine α} {s : σ} {machine : Machine}
    {outcome : Except Failure α} (h : step.run (HasMachine.machine s) = (outcome, machine)) :
    step.onMachine.run s = (outcome, HasMachine.setMachine machine s) := by
  change ((step.run _).1, HasMachine.setMachine (step.run _).2 s) = _
  rw [h]

def Ends (step : Run σ α) (s : σ) (said : Except Failure α → σ → Prop) : Prop :=
  said (step.run s).1 (step.run s).2

namespace Ends

variable {step : Run σ α} {next : α → Run σ β} {s : σ}

theorem mono {said weaker : Except Failure α → σ → Prop} (h : Ends step s said)
    (hsaid : ∀ result after, said result after → weaker result after) : Ends step s weaker :=
  hsaid _ _ h

theorem pure {a : α} {said : Except Failure α → σ → Prop} (h : said (.ok a) s) :
    Ends (pure a) s said := h

theorem fail {failure : Failure} {said : Except Failure α → σ → Prop}
    (h : said (.error failure) s) : Ends (fail failure) s said := h

theorem ofExcept {outcome : Except Failure α} {said : Except Failure α → σ → Prop}
    (h : said outcome s) : Ends (ofExcept outcome) s said := by
  cases outcome <;> exact h

theorem ofExcept_bind {outcome : Except Failure α} {said : Except Failure β → σ → Prop}
    (hok : ∀ a, Ends (next a) s said) (herror : ∀ failure, said (.error failure) s) :
    Ends (Run.ofExcept outcome >>= next) s said := by
  cases outcome with
  | ok a => exact hok a
  | error failure => exact herror failure

theorem bind {said : Except Failure β → σ → Prop}
    (h : Ends step s fun result after => match result with
      | .ok a => Ends (next a) after said
      | .error failure => said (.error failure) after) : Ends (step >>= next) s said := by
  unfold Ends at h ⊢
  rw [run_bind]
  rcases hrun : step.run s with ⟨_ | _, _⟩ <;> simpa only [hrun] using h

/-- A second part goes on from the result and the state that the first part is known to end in. -/
theorem bind_of_run {said : Except Failure β → σ → Prop} {a : α} {between : σ}
    (hstep : step.run s = (.ok a, between)) (h : Ends (next a) between said) :
    Ends (step >>= next) s said :=
  bind (by rw [Ends, hstep]; exact h)

/-- A second part goes on from whatever the first part ends in, and its failures stay. -/
theorem bind_of {first : Except Failure α → σ → Prop} {said : Except Failure β → σ → Prop}
    (hstep : Ends step s first) (hok : ∀ a after, first (.ok a) after → Ends (next a) after said)
    (herror : ∀ failure after, first (.error failure) after → said (.error failure) after) :
    Ends (step >>= next) s said := by
  refine bind (hstep.mono fun result after h => ?_)
  cases result with
  | ok a => exact hok a after h
  | error failure => exact herror failure after h

theorem map {f : α → β} {said : Except Failure β → σ → Prop}
    (h : Ends step s fun result after => said (result.map f) after) : Ends (f <$> step) s said := by
  rw [map_eq_pure_bind]
  refine bind (h.mono fun result after h => ?_)
  cases result <;> exact h

/-- A second part goes on from a first part that never fails. -/
theorem bind_ok {first : α → σ → Prop} {said : Except Failure β → σ → Prop}
    (hstep : Ends step s fun result after => ∃ a, result = .ok a ∧ first a after)
    (hok : ∀ a after, first a after → Ends (next a) after said) : Ends (step >>= next) s said := by
  refine bind_of hstep (fun a after h => ?_) fun failure after h => ?_
  · obtain ⟨_, heq, hfirst⟩ := h
    exact hok a after (Except.ok.inj heq ▸ hfirst)
  · obtain ⟨_, hfailed, _⟩ := h
    cases hfailed

theorem get_bind {next : σ → Run σ β} {said : Except Failure β → σ → Prop}
    (h : Ends (next s) s said) : Ends (get >>= next) s said :=
  bind h

theorem attempt {said : Except Failure α → σ → Prop} (h : Ends step s said) :
    Ends step.attempt s fun result after => ∃ outcome, result = .ok outcome ∧ said outcome after :=
  ⟨_, rfl, h⟩

theorem onMachine [HasMachine σ] {step : Run Machine α} {said : Except Failure α → σ → Prop}
    (h : Ends step (HasMachine.machine s) fun result machine =>
      said result (HasMachine.setMachine machine s)) : Ends step.onMachine s said := h

end Ends

def Moves (related : σ → σ → Prop) (step : Run σ α) (s : σ) : Prop :=
  Ends step s fun _ after => related s after

structure Steady (related : σ → σ → Prop) : Prop where
  refl : ∀ s, related s s
  trans : ∀ {s between after}, related s between → related between after → related s after

/-- What is kept as it is holds along any sequence of steps. -/
theorem Steady.keeps (kept : σ → Prop) : Steady fun s after => kept s → kept after :=
  ⟨fun _ h => h, fun first second h => second (first h)⟩

namespace Moves

variable {related : σ → σ → Prop} {step : Run σ α} {next : α → Run σ β} {s : σ}

theorem attempt (h : Moves related step s) : Moves related step.attempt s := h

theorem get_bind {next : σ → Run σ β} (hnext : Moves related (next s) s) :
    Moves related (get >>= next) s :=
  Ends.get_bind hnext

section Steady

variable (hR : Steady related)

include hR

theorem ofExcept (outcome : Except Failure α) (s : σ) : Moves related (ofExcept outcome) s :=
  Ends.ofExcept (hR.refl s)

/-- A second part goes on from a state and a result that the first part ended in. -/
theorem bind_of_run (hstep : Moves related step s)
    (hnext : ∀ a after, step.run s = (.ok a, after) → Moves related (next a) after) :
    Moves related (step >>= next) s := by
  unfold Moves Ends at hstep hnext ⊢
  rw [run_bind]
  rcases hrun : step.run s with ⟨_ | a, after⟩ <;> rw [hrun] at hstep
  · exact hstep
  · exact hR.trans hstep (hnext a after hrun)

theorem bind (hstep : Moves related step s) (hnext : ∀ a after, Moves related (next a) after) :
    Moves related (step >>= next) s :=
  bind_of_run hR hstep fun a after _ => hnext a after

/-- What is made of the result of a step does not matter. -/
theorem bind_pure (hstep : Moves related step s) {result : α → β} :
    Moves related (do return result (← step)) s :=
  bind hR hstep fun _ after => hR.refl after

theorem forM {items : List ι} {step : ι → Run σ PUnit}
    (hstep : ∀ item ∈ items, ∀ s, Moves related (step item) s) (s : σ) :
    Moves related (items.forM step) s := by
  induction items generalizing s with
  | nil => exact hR.refl s
  | cons item rest ih =>
    exact bind hR (hstep item (List.mem_cons_self ..) s) fun _ after =>
      ih (fun other h => hstep other (List.mem_cons_of_mem item h)) after

theorem mapM {items : List ι} {step : ι → Run σ β}
    (hstep : ∀ item ∈ items, ∀ s, Moves related (step item) s) (s : σ) :
    Moves related (items.mapM step) s := by
  induction items generalizing s with
  | nil => exact hR.refl s
  | cons item rest ih =>
    rw [List.mapM_cons]
    exact bind hR (hstep item (List.mem_cons_self ..) s) fun _ after =>
      bind hR (ih (fun other h => hstep other (List.mem_cons_of_mem item h)) after) fun _ last =>
        hR.refl last

end Steady

/-- A relation of machines moves a larger state that holds the machine. -/
theorem onMachine [HasMachine σ] {step : Run Machine α} {relatedMachines : Machine → Machine → Prop}
    (h : Moves relatedMachines step (HasMachine.machine s))
    (hrelated : ∀ machine, relatedMachines (HasMachine.machine s) machine →
      related s (HasMachine.setMachine machine s)) : Moves related step.onMachine s :=
  hrelated _ h

theorem mono {weaker : σ → σ → Prop} (h : Moves related step s)
    (hrelated : ∀ after, related s after → weaker s after) : Moves weaker step s :=
  hrelated _ h

end Moves

end ProjectCheck.Run
