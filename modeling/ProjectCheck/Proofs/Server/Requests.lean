import ProjectCheck.Proofs.Server.Occurrences

/-!
Requests of a client. They are numbered in the order in which they are made. Each is decided once,
by the first answer that has its number or by the end of the server, whichever comes first, and is
out of time when whoever waits for it goes on before. Nothing else that happens has to do with it.
-/
namespace ProjectCheck

open Run Machine

namespace Occurrence

def isCall : Occurrence → Bool
  | call _ _ => true
  | _ => false

def decides? (number : Nat) : Occurrence → Option Decision
  | message value => value.answer? number
  | noticed _ => some (.refused Session.exitText)
  | _ => none

/-- What an answer tells whoever waits for it: its error, or its result, where no result is told as
an object without members. -/
def told (message : Members Json) : Except Failure Json :=
  match message.get? "error", message.get? "result" with
  | some error, _ => .error (.refused error.plain)
  | none, none | none, some .null => .ok (.object [])
  | none, some value => .ok value

/-- What a request ends with when this happens to it first. An answer has the number of the request
and no method; truth values and numbers with a fraction can be equal to a number too. -/
def outcome? (number : Nat) : Occurrence → Option (Except Failure Json)
  | message (.object value) =>
    match Members.get? "id" value, Members.has "method" value with
    | some id, false => if id.equalsInt number then some (told value) else none
    | _, _ => none
  | noticed _ => some (.error (.refused "LSP server exited"))
  | _ => none

theorem outcomeOf_decisionOf (message : Members Json) :
    outcomeOf (some (Session.decisionOf message)) = told message := by
  unfold Session.decisionOf told
  cases message.get? "error" with
  | some error => rfl
  | none =>
    cases message.get? "result" with
    | none => rfl
    | some value => cases value <;> rfl

theorem outcome?_eq (number : Nat) (occurrence : Occurrence) :
    occurrence.outcome? number =
      (occurrence.decides? number).map fun decision => outcomeOf (some decision) := by
  cases occurrence with
  | message value =>
    cases value with
    | object members =>
      simp only [outcome?, decides?, Json.answer?]
      cases Members.get? "id" members with
      | none => rfl
      | some id =>
        cases Members.has "method" members with
        | true => rfl
        | false =>
          simp only
          split
          · exact congrArg some (outcomeOf_decisionOf members).symm
          · rfl
    | _ => rfl
  | _ => rfl

/-- A request that nothing has decided is out of time. -/
theorem outcomeOf_findSome? (number : Nat) (history : List Occurrence) :
    outcomeOf (history.findSome? (·.decides? number)) =
      (history.findSome? (·.outcome? number)).getD (.error .timedOut) := by
  have hmap : history.findSome? (·.outcome? number) =
      (history.findSome? (·.decides? number)).map fun decision => outcomeOf (some decision) := by
    rw [List.map_findSome?]
    exact congrArg (List.findSome? · history) (funext (outcome?_eq number))
  rw [hmap]
  cases history.findSome? (·.decides? number) <;> rfl

end Occurrence

namespace Session

open Occurrence

theorem lookup_decideBy (s : Session) (decision? : Nat → Option Decision) (number : Nat) :
    (s.decideBy decision?).pending.lookup number =
      (s.pending.lookup number).map fun known => known.or (decision? number) := by
  change (s.pending.map _).lookup number = _
  induction s.pending with
  | nil => rfl
  | cons entry rest ih =>
    obtain ⟨other, known⟩ := entry
    rw [List.map_cons, List.lookup_cons, List.lookup_cons, ih]
    by_cases hother : number = other
    · rw [hother, beq_self_eq_true]
      rfl
    · rw [beq_false_of_ne hother]

theorem lookup_finish (s : Session) (number other : Nat) :
    (s.finish other).pending.lookup number =
      if number = other then none else s.pending.lookup number := by
  change (s.pending.filter _).lookup number = _
  induction s.pending with
  | nil => exact (ite_self none).symm
  | cons entry rest ih =>
    obtain ⟨n, known⟩ := entry
    rw [List.filter_cons, List.lookup_cons]
    by_cases hnumber : number = n
    · subst hnumber
      by_cases hother : number = other
      · rw [if_neg (by simp [hother]), ih, if_pos hother, if_pos hother]
      · rw [if_pos (by simp [hother]), List.lookup_cons, beq_self_eq_true, if_neg hother]
    · rw [beq_false_of_ne hnumber]
      split
      · rw [List.lookup_cons, beq_false_of_ne hnumber]
        exact ih
      · exact ih

/-- Requests that are begun get the next number. -/
theorem lastId_effect (s : Session) (occurrence : Occurrence) :
    (occurrence.effect s).lastId = s.lastId + if occurrence.isCall then 1 else 0 := by
  cases occurrence with
  | message value =>
    obtain ⟨pending, published, h⟩ := s.alike_receive value
    change (s.receive value).session.lastId = _
    rw [h]
    rfl
  | _ => rfl

theorem lastId_after (s : Session) (history : List Occurrence) :
    (s.after history).lastId = s.lastId + history.countP isCall := by
  induction history generalizing s with
  | nil => rfl
  | cons occurrence rest ih =>
    refine (ih (occurrence.effect s)).trans ?_
    rw [lastId_effect, List.countP_cons]
    omega

/-- What an occurrence does to a request that it neither begins nor ends: it decides it, if it does
and nothing else has before. -/
theorem lookup_effect {s : Session} {number : Nat} {occurrence : Occurrence}
    (hbegun : occurrence.isCall = true → number ≠ s.lastId + 1)
    (hwaits : ∀ method, occurrence ≠ .resume number method) :
    (occurrence.effect s).pending.lookup number =
      (s.pending.lookup number).map fun known => known.or (occurrence.decides? number) := by
  have hsame : s.pending.lookup number = (s.pending.lookup number).map fun known =>
      known.or none := by
    cases s.pending.lookup number with
    | none => rfl
    | some known => rw [Option.map_some, Option.or_none]
  cases occurrence with
  | call method params =>
    change (s.pending ++ [(s.lastId + 1, none)]).lookup number = _
    have hlast : [(s.lastId + 1, (none : Option Decision))].lookup number = none := by
      rw [List.lookup_cons, beq_false_of_ne (hbegun rfl)]
      rfl
    rw [List.lookup_append, hlast, Option.or_none]
    exact hsame
  | message value =>
    change (s.receive value).session.pending.lookup number = _
    rw [pending_receive, lookup_decideBy]
    rfl
  | ends code => exact hsame
  | noticed code =>
    change s.noticeExit.pending.lookup number = _
    rw [noticeExit_eq]
    exact lookup_decideBy s (fun _ => some (.refused exitText)) number
  | resume other method =>
    have hne : number ≠ other := by
      rintro rfl
      exact hwaits method rfl
    refine (lookup_finish s number other).trans ?_
    rw [if_neg hne]
    exact hsame

/-- What has no entry gets none by what does not begin it. -/
theorem lookup_effect_none {s : Session} {number : Nat} {occurrence : Occurrence}
    (hbegun : occurrence.isCall = true → number ≠ s.lastId + 1)
    (hnone : s.pending.lookup number = none) :
    (occurrence.effect s).pending.lookup number = none := by
  by_cases hresumed : ∃ method, occurrence = .resume number method
  · obtain ⟨method, rfl⟩ := hresumed
    exact (lookup_finish s number number).trans (if_pos rfl)
  · rw [lookup_effect hbegun fun method heq => hresumed ⟨method, heq⟩, hnone]
    rfl

def IsNumbered (s : Session) : Prop :=
  ∀ number, s.lastId < number → s.pending.lookup number = none

theorem isNumbered_after {s : Session} (h : s.IsNumbered) (history : List Occurrence) :
    (s.after history).IsNumbered := by
  induction history generalizing s with
  | nil => exact h
  | cons occurrence rest ih =>
    refine ih fun number hnumber => ?_
    rw [lastId_effect] at hnumber
    refine lookup_effect_none (fun hcall => ?_) (h number (by omega))
    rw [if_pos hcall] at hnumber
    omega

section Given

variable {number : Nat}

/-- What becomes of a request that was begun before, if any, as long as nobody goes on with it. -/
theorem lookup_after {s : Session} {history : List Occurrence}
    (hgiven : ∀ occurrence ∈ history, occurrence.isCall = true → number ≤ s.lastId)
    (hwaits : ∀ method, .resume number method ∉ history) :
    (s.after history).pending.lookup number = (s.pending.lookup number).map fun known =>
      known.or (history.findSome? (·.decides? number)) := by
  induction history generalizing s with
  | nil =>
    change s.pending.lookup number = _
    cases s.pending.lookup number with
    | none => rfl
    | some known => exact congrArg some Option.or_none.symm
  | cons occurrence rest ih =>
    have hbegun (hcall : occurrence.isCall = true) : number ≠ s.lastId + 1 := by
      have := hgiven occurrence (List.mem_cons_self ..) hcall
      omega
    have hlater : ∀ later ∈ rest, later.isCall = true →
        number ≤ (occurrence.effect s).lastId := by
      intro later hmem hcall
      have := hgiven later (List.mem_cons_of_mem _ hmem) hcall
      rw [lastId_effect]
      omega
    have hfirst : ∀ method, occurrence ≠ .resume number method := fun method heq =>
      hwaits method (heq ▸ List.mem_cons_self ..)
    refine (ih hlater fun method hmem => hwaits method (List.mem_cons_of_mem _ hmem)).trans ?_
    rw [lookup_effect hbegun hfirst, Option.map_map, List.findSome?_cons]
    refine congrArg (Option.map · _) (funext fun known => ?_)
    cases known <;> cases occurrence.decides? number <;> rfl

/-- What messages do to a request: the first that answers it decides it, unless it was decided
before. -/
theorem lookup_messages (s : Session) (messages : List Json) (number : Nat) :
    (s.after (messages.map .message)).pending.lookup number =
      (s.pending.lookup number).map fun known =>
        known.or (messages.findSome? (·.answer? number)) := by
  have hmessage : ∀ occurrence ∈ messages.map Occurrence.message, ∃ message,
      occurrence = .message message := fun occurrence hmem =>
    (List.mem_map.1 hmem).imp fun _ h => h.2.symm
  have hdecides : (messages.map .message).findSome? (Occurrence.decides? number) =
      messages.findSome? (·.answer? number) := List.findSome?_map ..
  refine (lookup_after (fun occurrence hmem hcall => ?_) fun method hmem => ?_).trans ?_
  · obtain ⟨message, rfl⟩ := hmessage occurrence hmem
    cases hcall
  · obtain ⟨message, heq⟩ := hmessage _ hmem
    cases heq
  · rw [hdecides]

/-- A request that is over stays over. -/
theorem lookup_after_none {s : Session} (hgiven : number ≤ s.lastId)
    (hnone : s.pending.lookup number = none) (history : List Occurrence) :
    (s.after history).pending.lookup number = none := by
  induction history generalizing s with
  | nil => exact hnone
  | cons occurrence rest ih =>
    refine ih ?_ (lookup_effect_none (fun _ => by omega) hnone)
    rw [lastId_effect]
    omega

end Given

theorem after_append (s : Session) (first second : List Occurrence) :
    s.after (first ++ second) = (s.after first).after second := List.foldl_append

/-- A request is decided by the first that decides it after it was made. -/
theorem decision?_after {s : Session} (h : s.IsNumbered) (before between : List Occurrence)
    (method : String) (params : Option Json)
    (hwaits : ∀ method, .resume ((s.after before).lastId + 1) method ∉ between) :
    (s.after (before ++ .call method params :: between)).decision? ((s.after before).lastId + 1) =
      between.findSome? (·.decides? ((s.after before).lastId + 1)) := by
  let begun := (s.after before).begin
  have hnone : (s.after before).pending.lookup ((s.after before).lastId + 1) = none :=
    isNumbered_after h before _ (Nat.lt_succ_self _)
  have hbegun : begun.pending.lookup begun.lastId = some none := by
    change ((s.after before).pending ++ [((s.after before).lastId + 1, none)]).lookup
      ((s.after before).lastId + 1) = _
    rw [List.lookup_append, hnone, List.lookup_cons_self]
    rfl
  have hlookup := lookup_after (s := begun) (fun _ _ _ => Nat.le_refl _) hwaits
  rw [hbegun] at hlookup
  rw [after_append, decision?]
  change ((begun.after between).pending.lookup begun.lastId).join = _
  rw [hlookup]
  rfl

/-- A request that someone went on with has no entry any more. -/
theorem lookup_resumed {s : Session} {number : Nat} {method : String} {history : List Occurrence}
    (hgiven : number ≤ s.lastId) (hresumed : .resume number method ∈ history) :
    (s.after history).pending.lookup number = none := by
  obtain ⟨before, rest, rfl⟩ := List.append_of_mem hresumed
  have hlater : number ≤ ((s.after before).finish number).lastId := by
    change number ≤ (s.after before).lastId
    rw [lastId_after]
    omega
  rw [after_append]
  exact lookup_after_none hlater ((lookup_finish _ number number).trans (if_pos rfl)) rest

end Session

namespace Machine

open Occurrence

def nextNumber (history : List Occurrence) : Nat := history.countP isCall + 1

/-- Requests are made under the numbers from one on. What whoever waits for a request gets is what
happened to it first after it was made; nothing that happens later changes this, and a request that
someone went on with is gone. An answer decides the undecided request with its number and changes
nothing else, neither what was published nor which versions were sent. -/
theorem requests_are_decided_once (m : Machine) (pid : Nat) (s : Session)
    (hs : m.session? pid = some s) (hlast : s.lastId = 0) (hpending : s.pending = []) :
    (∀ before method params,
      (startRequest pid method params).run (m.after pid before) = ExceptT.run (do
        updateSession pid Session.begin
        log .debug s!"LSP Request: {method}"
        send pid (Message.request (nextNumber before) method params)
        return nextNumber before) (m.after pid before)) ∧
    (∀ before method params between,
      (∀ other, .resume (nextNumber before) other ∉ between) →
      ((finishRequest pid (nextNumber before) method).run
        (m.after pid (before ++ .call method params :: between))).1 =
          (between.findSome? (·.outcome? (nextNumber before))).getD (.error .timedOut)) ∧
    (∀ before method params between other, .resume (nextNumber before) other ∈ between →
      ((m.after pid (before ++ .call method params :: between)).session? pid).map
        (·.pending.lookup (nextNumber before)) = some none) ∧
    ∀ history (message : Members Json) id, message.get? "id" = some id →
      message.has "method" = false →
      ∃ known answered, (m.after pid history).session? pid = some known ∧
        (m.after pid (history ++ [.message (.object message)])).session? pid = some answered ∧
        answered.pending = known.pending.map (fun entry => (entry.1, entry.2.or
          (if id.equalsInt entry.1 then some (Session.decisionOf message) else none))) ∧
        answered.lastId = known.lastId ∧ answered.published = known.published ∧
        answered.versions = known.versions := by
  have hnumbered : s.IsNumbered := fun number _ => by rw [hpending]; rfl
  have hnumber (before : List Occurrence) : (s.after before).lastId + 1 = nextNumber before := by
    rw [Session.lastId_after, hlast, Nat.zero_add, nextNumber]
  refine ⟨fun before method params => ?_, fun before method params between hwaits => ?_,
    fun before method params between other hresumed => ?_, fun history message id hid hmethod => ?_⟩
  · have hbegun := session?_revise (session?_after hs before) Session.begin
    have hupdate : (updateSession pid Session.begin).run (m.after pid before) = (.ok (),
        (m.after pid before).revise pid fun c => { c with session := c.session.begin }) := rfl
    have hgiven : ((some (s.after before).begin).map (·.lastId)).getD 0 = nextNumber before :=
      hnumber before
    unfold startRequest
    rw [run_bind_ok hupdate, run_bind_ok (run_get _), hbegun, hgiven, run_bind_ok hupdate]
  · have hdecided := Session.decision?_after hnumbered before between method params
      (by rwa [hnumber])
    have hfinished := ends_resumed (session?_after hs (before ++ .call method params :: between))
      (nextNumber before) method
    rw [hnumber] at hdecided
    rw [hfinished.1, hdecided, outcomeOf_findSome?]
  · rw [session?_after hs, Session.after_append]
    have hbegun : (s.after before).after (.call method params :: between) =
      (s.after before).begin.after between := rfl
    have hgiven : nextNumber before ≤ (s.after before).begin.lastId :=
      Nat.le_of_eq (hnumber before).symm
    rw [hbegun]
    exact congrArg some (Session.lookup_resumed hgiven hresumed)
  · let known := s.after history
    have hanswered : (s.after (history ++ [.message (.object message)])) =
        (known.receive (.object message)).session := Session.after_append ..
    have hreceived : known.receive (.object message) = known.receiveAnswer message id := by
      simp only [Session.receive, hid, hmethod]
    refine ⟨known, _, session?_after hs history, session?_after hs _, ?_⟩
    rw [hanswered, hreceived, Session.receiveAnswer_session]
    exact ⟨rfl, rfl, rfl, rfl⟩

/-- Two requests to a server that says nothing of itself. The second is answered first, and then
once more by an error; the end of the server decides the first. -/
theorem requests_are_decided_once_two :
    let m : Machine := { files := .directory [], workingDirectory := [], connections := [
      { behaviour := { otherwise := .silence }, session := {} }] }
    let answer (name : String) : Occurrence :=
      .message (.object [("id", .float (.ofInt 2)), (name, .int 7)])
    let between := [.call "second" none, answer "result", answer "error", .noticed 1]
    ((finishRequest 0 1 "first").run (m.after 0 (.call "first" none :: between))).1 =
        .error (.refused "LSP server exited") ∧
      ((finishRequest 0 2 "second").run (m.after 0 (.call "first" none :: between))).1 =
        .ok (.int 7) := by
  intro m answer between
  obtain ⟨-, houtcome, -⟩ := requests_are_decided_once m 0 {} rfl rfl rfl
  have hfirst := houtcome [] "first" none between (by simp [between, answer])
  have hsecond := houtcome [.call "first" none] "second" none between.tail
    (by simp [between, answer])
  exact ⟨hfirst, hsecond⟩

end Machine

end ProjectCheck
