import ProjectCheck.Proofs.Server.Incidents
import ProjectCheck.Proofs.Server.Requests

/-!
Who waits at a client. A request has an entry from when it is made, and whoever waits for it takes
the entry away, however the request ends. A request that cannot be written ends before anyone waits
for it, and its entry stays. So at any time the entries are those of the requests that are waited
for and of those that could not be written.
-/
namespace ProjectCheck

open Run

namespace Session

def numbers (s : Session) : List Nat := s.pending.map Prod.fst

theorem numbers_begin (s : Session) : s.begin.numbers = s.numbers ++ [s.lastId + 1] :=
  List.map_append

theorem numbers_decideBy (s : Session) (decision? : Nat → Option Decision) :
    (s.decideBy decision?).numbers = s.numbers :=
  List.map_map

theorem numbers_finish (s : Session) (number : Nat) :
    (s.finish number).numbers = s.numbers.filter (· ≠ number) := by
  rw [numbers, numbers, List.filter_map]
  rfl

end Session

namespace Connection

def begun (c : Connection) : Connection := { c with session := c.session.begin }

/-- A message cannot be written: it has no octets, or the server has ended, if only by this message,
and its pipe tells so. -/
def CannotWrite (c : Connection) (message : Json) : Prop :=
  c.session.hasPipes = true ∧ (message.isWellFormed = false ∨
    c.behaviour.breaksPipe = true ∧ ((c.say (.toServer message)).take message).hasExited = true)

instance (c : Connection) (message : Json) : Decidable (c.CannotWrite message) :=
  inferInstanceAs (Decidable (_ ∧ (_ ∨ _ ∧ _)))

end Connection

namespace Machine

variable {pid : Nat} {m : Machine} {c : Connection}

/-- Sending fails exactly when the message cannot be written. -/
theorem send_cases (hc : m.connection? pid = some c) (message : Json) :
    c.CannotWrite message ∧
        (∃ failure after, (send pid message).run m = (.error failure, after)) ∨
      ¬ c.CannotWrite message ∧ ∃ after, (send pid message).run m = (.ok (), after) := by
  cases hpipes : c.session.hasPipes with
  | false =>
    have hcan : ¬ c.CannotWrite message := fun h => Bool.false_ne_true (hpipes.symm.trans h.1)
    exact .inr ⟨hcan, m, send_pipeless hc hpipes message⟩
  | true =>
    cases hwritten : message.isWellFormed with
    | false =>
      refine .inl ⟨⟨hpipes, .inl hwritten⟩, .unencodable, m, ?_⟩
      rw [send, run_bind_ok (run_get m)]
      simp only [hc, hpipes, hwritten]
      rfl
    | true =>
      obtain ⟨after, -, hrun, -⟩ := deliver_run hc message
      have hbehaviour : ((c.say (.toServer message)).take message).behaviour = c.behaviour :=
        (Connection.kin_take (c.say (.toServer message)) message).1.behaviour
      rw [send_run hc hpipes hwritten, hrun, hbehaviour, Connection.CannotWrite, hpipes, hwritten]
      split
      · rename_i hbreaks
        exact .inl ⟨⟨rfl, .inr (Bool.and_eq_true_iff.1 hbreaks)⟩, _, after, rfl⟩
      · rename_i hbreaks
        refine .inr ⟨?_, after, rfl⟩
        rintro ⟨-, ⟨⟨⟩⟩ | hboth⟩
        exact hbreaks (Bool.and_eq_true_iff.2 hboth)

/-- A request that is made is begun, and sent under its number. -/
theorem startRequest_send (hc : m.connection? pid = some c) (method : String)
    (params : Option Json) :
    ∃ between, between.connection? pid = some c.begun ∧
      (startRequest pid method params).run m =
        (do
          send pid (Message.request (c.session.lastId + 1) method params)
          return c.session.lastId + 1 : Run Machine Nat).run between := by
  have hupdate : (updateSession pid Session.begin).run m =
      (.ok (), m.revise pid Connection.begun) := rfl
  have hbegun : (m.revise pid Connection.begun).connection? pid = some c.begun :=
    connection?_revise hc _
  have hnumber : (((m.revise pid Connection.begun).session? pid).map (·.lastId)).getD 0 =
      c.session.lastId + 1 := by
    rw [session?, hbegun]
    rfl
  obtain ⟨between, hlog, hbetween⟩ : ∃ between,
      (log .debug s!"LSP Request: {method}").run (m.revise pid Connection.begun) =
          (.ok (), between) ∧
        between.connection? pid = some c.begun := ⟨_, rfl, hbegun⟩
  refine ⟨between, hbetween, ?_⟩
  unfold startRequest
  rw [run_bind_ok hupdate, run_bind_ok (run_get _), hnumber, run_bind_ok hlog]

/-- Whoever makes a request gets its number, unless the request cannot be written. -/
theorem startRequest_cases (hc : m.connection? pid = some c) (method : String)
    (params : Option Json) :
    let cannotWrite := c.begun.CannotWrite (Message.request (c.session.lastId + 1) method params)
    cannotWrite ∧
        (∃ failure after, (startRequest pid method params).run m = (.error failure, after)) ∨
      ¬ cannotWrite ∧
        ∃ after, (startRequest pid method params).run m = (.ok (c.session.lastId + 1), after) := by
  intro cannotWrite
  obtain ⟨between, hbegun, hrun⟩ := startRequest_send hc method params
  rcases send_cases hbegun (Message.request (c.session.lastId + 1) method params) with
    ⟨hcannot, failure, after, hsend⟩ | ⟨hcan, after, hsend⟩
  · exact .inl ⟨hcannot, failure, after, hrun.trans (run_bind_error hsend _)⟩
  · exact .inr ⟨hcan, after, hrun.trans (run_bind_ok hsend _)⟩

end Machine

/-- A client with those who make requests of it: the numbers of the requests that someone waits for,
and of those that ended when they could not be written. -/
structure Callers where
  machine : Machine
  waiting : List Nat := []
  unwritten : List Nat := []

namespace Callers

open Machine

def meet (pid : Nat) (incident : Incident) (callers : Callers) : Callers :=
  { callers with machine := ((incident.step pid).run callers.machine).2 }

/-- Someone makes a request, and waits for it if it could be written. The number of a request that
could not is the one that was given last. -/
def call (pid : Nat) (method : String) (params : Option Json) (callers : Callers) : Callers :=
  match (startRequest pid method params).run callers.machine with
  | (.ok number, after) =>
    { callers with machine := after, waiting := callers.waiting ++ [number] }
  | (.error _, after) =>
    let number := ((after.session? pid).map (·.lastId)).getD 0
    { callers with machine := after, unwritten := callers.unwritten ++ [number] }

def leave (pid number : Nat) (incident : Incident) (callers : Callers) : Callers :=
  if number ∈ callers.waiting then
    { callers.meet pid incident with waiting := callers.waiting.erase number }
  else callers

/-- What happens to the callers when something happens. Only a request that someone waits for can be
given up or gone on with. -/
def step (pid : Nat) (callers : Callers) : Incident → Callers
  | .occurs (.call method params) => callers.call pid method params
  | .occurs (.resume number method) => callers.leave pid number (.occurs (.resume number method))
  | .cancelled number => callers.leave pid number (.cancelled number)
  | incident => callers.meet pid incident

def after (pid : Nat) (incidents : List Incident) (callers : Callers) : Callers :=
  incidents.foldl (step pid) callers

structure Agrees (callers : Callers) (s : Session) : Prop where
  entries : s.numbers.Perm (callers.waiting ++ callers.unwritten)
  distinct : s.numbers.Nodup
  given : ∀ number ∈ s.numbers, number ≤ s.lastId

variable {callers later : Callers} {s : Session} {pid number : Nat}

namespace Agrees

theorem nodup (h : callers.Agrees s) : (callers.waiting ++ callers.unwritten).Nodup :=
  h.entries.nodup_iff.1 h.distinct

/-- What keeps the entries and the numbers keeps the agreement. -/
theorem of_same (h : callers.Agrees s) {s' : Session} (hnumbers : s'.numbers = s.numbers)
    (hlast : s'.lastId = s.lastId) (hwaiting : later.waiting = callers.waiting)
    (hunwritten : later.unwritten = callers.unwritten) : later.Agrees s' where
  entries := by rw [hnumbers, hwaiting, hunwritten]; exact h.entries
  distinct := hnumbers ▸ h.distinct
  given := by rw [hnumbers, hlast]; exact h.given

/-- A request that is begun has the next number, which no entry has. -/
theorem begin (h : callers.Agrees s)
    (hlater : (later.waiting ++ later.unwritten).Perm
      (callers.waiting ++ callers.unwritten ++ [s.lastId + 1])) : later.Agrees s.begin where
  entries := by
    rw [Session.numbers_begin]
    exact (h.entries.append_right _).trans hlater.symm
  distinct := by
    rw [Session.numbers_begin, List.nodup_append]
    refine ⟨h.distinct, List.pairwise_singleton .., fun number hmem last hlast => ?_⟩
    have hgiven := h.given number hmem
    rw [List.mem_singleton.1 hlast]
    omega
  given number hmem := by
    rw [Session.numbers_begin] at hmem
    rcases List.mem_append.1 hmem with hmem | hmem
    · exact Nat.le_succ_of_le (h.given number hmem)
    · exact Nat.le_of_eq (List.mem_singleton.1 hmem)

/-- A request that someone waits for has one entry, which is taken away when its caller goes on. -/
theorem finish (h : callers.Agrees s) (hwaits : number ∈ callers.waiting)
    (hwaiting : later.waiting = callers.waiting.erase number)
    (hunwritten : later.unwritten = callers.unwritten) : later.Agrees (s.finish number) where
  entries := by
    have herased : (callers.waiting ++ callers.unwritten).filter (· ≠ number) =
        callers.waiting.erase number ++ callers.unwritten := by
      rw [← List.erase_append_left _ hwaits, h.nodup.erase_eq_filter]
      refine List.filter_congr fun other _ => ?_
      by_cases hother : other = number <;> simp [hother]
    rw [Session.numbers_finish, hwaiting, hunwritten, ← herased]
    exact h.entries.filter _
  distinct := by
    rw [Session.numbers_finish]
    exact h.distinct.filter _
  given other hmem := by
    rw [Session.numbers_finish] at hmem
    exact h.given other (List.mem_filter.1 hmem).1

end Agrees

/-- What no caller is concerned with keeps the agreement when it keeps the entries. -/
theorem agrees_meet (h : callers.Agrees s) (hs : callers.machine.session? pid = some s)
    (incident : Incident) (hnumbers : (incident.effect callers.machine s).numbers = s.numbers)
    (hlast : (incident.effect callers.machine s).lastId = s.lastId) :
    ∃ s', (callers.meet pid incident).machine.session? pid = some s' ∧
      (callers.meet pid incident).Agrees s' :=
  ⟨_, ends_incident hs incident, h.of_same hnumbers hlast rfl rfl⟩

theorem agrees_leave (h : callers.Agrees s) (hs : callers.machine.session? pid = some s)
    (incident : Incident) (heffect : incident.effect callers.machine s = s.finish number) :
    ∃ s', (callers.leave pid number incident).machine.session? pid = some s' ∧
      (callers.leave pid number incident).Agrees s' := by
  unfold leave
  split
  · rename_i hwaits
    refine ⟨s.finish number, ?_, h.finish hwaits rfl rfl⟩
    rw [← heffect]
    exact ends_incident hs incident
  · exact ⟨s, hs, h⟩

/-- Whoever makes a request waits for it, unless it cannot be written. -/
theorem call_cases {c : Connection} (hc : callers.machine.connection? pid = some c)
    (method : String) (params : Option Json) :
    let cannotWrite := c.begun.CannotWrite (Message.request (c.session.lastId + 1) method params)
    let called := callers.call pid method params
    called.machine.session? pid = some c.session.begin ∧
      called.waiting =
        callers.waiting ++ (if cannotWrite then [] else [c.session.lastId + 1]) ∧
      called.unwritten =
        callers.unwritten ++ (if cannotWrite then [c.session.lastId + 1] else []) := by
  intro cannotWrite called
  have hs : callers.machine.session? pid = some c.session := by rw [session?, hc, Option.map_some]
  have hbegun := ends_startRequest hs method params
  rcases startRequest_cases hc method params with
    ⟨hcannot, failure, after, hrun⟩ | ⟨hcan, after, hrun⟩
  · rw [Ends, hrun] at hbegun
    simp only [called, call, hrun, cannotWrite, if_pos hcannot, hbegun]
    exact ⟨trivial, (List.append_nil _).symm, rfl⟩
  · rw [Ends, hrun] at hbegun
    simp only [called, call, hrun, cannotWrite, if_neg hcan]
    exact ⟨hbegun, trivial, (List.append_nil _).symm⟩

theorem agrees_call (h : callers.Agrees s) (hs : callers.machine.session? pid = some s)
    (method : String) (params : Option Json) :
    ∃ s', (callers.call pid method params).machine.session? pid = some s' ∧
      (callers.call pid method params).Agrees s' := by
  obtain ⟨c, hc, rfl⟩ := Option.map_eq_some_iff.1 hs
  obtain ⟨hbegun, hwaiting, hunwritten⟩ := call_cases hc method params
  refine ⟨c.session.begin, hbegun, h.begin ?_⟩
  rw [hwaiting, hunwritten]
  split
  · rw [List.append_nil, List.append_assoc]
  · rw [List.append_nil, List.append_assoc, List.append_assoc]
    exact List.perm_append_comm.append_left _

/-- Whatever happens, the entries stay those of the callers' requests. -/
theorem agrees_step (h : callers.Agrees s) (hs : callers.machine.session? pid = some s)
    (incident : Incident) :
    ∃ s', (callers.step pid incident).machine.session? pid = some s' ∧
      (callers.step pid incident).Agrees s' := by
  cases incident with
  | occurs occurrence =>
    cases occurrence with
    | call method params => exact agrees_call h hs method params
    | message value =>
      refine agrees_meet h hs _ ?_ ?_
      · change (s.receive value).session.pending.map Prod.fst = _
        rw [Session.pending_receive]
        exact s.numbers_decideBy _
      · exact s.lastId_effect (.message value)
    | ends code => exact agrees_meet h hs _ rfl rfl
    | noticed code =>
      refine agrees_meet h hs _ ?_ rfl
      change s.noticeExit.numbers = _
      rw [Session.noticeExit_eq]
      exact s.numbers_decideBy fun _ => some (.refused Session.exitText)
    | resume number method => exact agrees_leave h hs _ rfl
  | cancelled number => exact agrees_leave h hs _ rfl
  | greets => exact agrees_meet h hs _ rfl rfl
  | leaves => exact agrees_meet h hs _ rfl rfl
  | opens path language =>
    have hsame : ((Incident.opens path language).effect callers.machine s).numbers = s.numbers ∧
        ((Incident.opens path language).effect callers.machine s).lastId = s.lastId := by
      simp only [Incident.effect]
      split <;> exact ⟨rfl, rfl⟩
    exact agrees_meet h hs _ hsame.1 hsame.2
  | files root => exact agrees_meet h hs _ rfl rfl

theorem agrees_after (h : callers.Agrees s) (hs : callers.machine.session? pid = some s)
    (incidents : List Incident) :
    ∃ s', (callers.after pid incidents).machine.session? pid = some s' ∧
      (callers.after pid incidents).Agrees s' := by
  induction incidents generalizing callers s with
  | nil => exact ⟨s, hs, h⟩
  | cons incident rest ih =>
    obtain ⟨s', hs', h'⟩ := agrees_step h hs incident
    exact ih h' hs'

def unwrittenBy (c : Connection) : Incident → List Nat
  | .occurs (.call method params) =>
    if c.begun.CannotWrite (Message.request (c.session.lastId + 1) method params)
    then [c.session.lastId + 1] else []
  | _ => []

theorem unwritten_step {c : Connection} (hc : callers.machine.connection? pid = some c)
    (incident : Incident) :
    (callers.step pid incident).unwritten = callers.unwritten ++ unwrittenBy c incident := by
  have hleave (number : Nat) (incident : Incident) :
      (callers.leave pid number incident).unwritten = callers.unwritten := by
    unfold leave
    split <;> rfl
  cases incident with
  | occurs occurrence =>
    cases occurrence with
    | call method params => exact (call_cases hc method params).2.2
    | resume number method => exact (hleave number _).trans (List.append_nil _).symm
    | message | ends | noticed => exact (List.append_nil _).symm
  | cancelled number => exact (hleave number _).trans (List.append_nil _).symm
  | greets | leaves | opens | files => exact (List.append_nil _).symm

theorem unwritten_after (hs : callers.machine.session? pid = some s) (h : callers.Agrees s)
    (incidents : List Incident) :
    callers.unwritten <+: (callers.after pid incidents).unwritten := by
  induction incidents generalizing callers s with
  | nil => exact List.prefix_rfl
  | cons incident rest ih =>
    obtain ⟨c, hc, -⟩ := Option.map_eq_some_iff.1 hs
    obtain ⟨s', hs', h'⟩ := agrees_step h hs incident
    refine List.IsPrefix.trans ?_ (ih hs' h')
    rw [unwritten_step hc]
    exact List.prefix_append ..

/-- The entry of a request that someone waits for is gone when its caller goes on. -/
theorem not_mem_leave (h : callers.Agrees s) (hs : callers.machine.session? pid = some s)
    (hwaits : number ∈ callers.waiting) (incident : Incident)
    (heffect : incident.effect callers.machine s = s.finish number) :
    ∃ s', (callers.leave pid number incident).machine.session? pid = some s' ∧
      number ∉ s'.numbers := by
  obtain ⟨s', hs', h'⟩ := agrees_leave h hs incident heffect
  refine ⟨s', hs', fun hmem => ?_⟩
  have hleft : (callers.leave pid number incident).waiting ++
      (callers.leave pid number incident).unwritten =
        (callers.waiting ++ callers.unwritten).erase number := by
    rw [leave, if_pos hwaits, List.erase_append_left _ hwaits]
    rfl
  have hgone := h'.entries.mem_iff.1 hmem
  rw [hleft] at hgone
  exact (h.nodup.mem_erase_iff.1 hgone).1 rfl

end Callers

/-- In every run the entries are those of the requests that someone waits for and of those that
could not be written. The first are taken away when their callers go on, with what was decided, when
the time is over or because they give up; the second stay. So all entries are those of requests that
someone waits for exactly as long as none was made that could not be written. -/
theorem entries_are_callers (m : Machine) (pid : Nat) (s : Session) (hs : m.session? pid = some s)
    (hpending : s.pending = []) (incidents : List Incident) :
    let callers := Callers.after pid incidents { machine := m }
    ∃ c, callers.machine.connection? pid = some c ∧
      c.session.numbers.Perm (callers.waiting ++ callers.unwritten) ∧ c.session.numbers.Nodup ∧
      (c.session.numbers.Perm callers.waiting ↔ callers.unwritten = []) ∧
      (∀ incident, (callers.step pid incident).unwritten =
        callers.unwritten ++ Callers.unwrittenBy c incident) ∧
      (∀ later, callers.unwritten <+: (callers.after pid later).unwritten) ∧
      ∀ number ∈ callers.waiting, ∀ incident,
        (incident = .cancelled number ∨ ∃ method, incident = .occurs (.resume number method)) →
        ∃ s', (callers.step pid incident).machine.session? pid = some s' ∧ number ∉ s'.numbers := by
  intro callers
  have hfirst : Callers.Agrees { machine := m } s := by
    refine ⟨?_, ?_, ?_⟩ <;> simp [Session.numbers, hpending]
  obtain ⟨known, hknown, h⟩ := Callers.agrees_after hfirst hs incidents
  obtain ⟨c, hc, rfl⟩ := Option.map_eq_some_iff.1 hknown
  refine ⟨c, hc, h.entries, h.distinct, ⟨fun hperm => ?_, fun hnone => ?_⟩,
    Callers.unwritten_step hc, Callers.unwritten_after hknown h,
    fun number hwaits incident hends => ?_⟩
  · have hlength := (h.entries.symm.trans hperm).length_eq
    rw [List.length_append] at hlength
    exact List.eq_nil_of_length_eq_zero (Nat.add_eq_left.1 hlength)
  · have hentries := h.entries
    rwa [hnone, List.append_nil] at hentries
  · rcases hends with rfl | ⟨method, rfl⟩
    · exact Callers.not_mem_leave h hknown hwaits (.cancelled number) rfl
    · exact Callers.not_mem_leave h hknown hwaits (.occurs (.resume number method)) rfl

/-- Two requests to a server that says nothing. A text in the first has no octets, and its entry is
there beside the one of the second, which someone waits for. -/
theorem entries_are_callers_unencodable :
    let m : Machine := { files := .directory [], workingDirectory := [], connections := [
      { behaviour := { otherwise := .silence }, session := {} }] }
    let query : Json := .object [("query", .illFormed [0xD800])]
    let callers := Callers.after 0 [.occurs (.call "first" query), .occurs (.call "second" none)]
      { machine := m }
    callers.waiting = [2] ∧ callers.unwritten = [1] ∧
      ∃ c, callers.machine.connection? 0 = some c ∧ c.session.numbers.Perm [2, 1] := by
  intro m query callers
  obtain ⟨c, hc, hentries, -⟩ := entries_are_callers m 0 {} rfl rfl
    [.occurs (.call "first" query), .occurs (.call "second" none)]
  exact ⟨rfl, rfl, c, hc, hentries⟩

end ProjectCheck
