import ProjectCheck.Proofs.Machine.Waiting
import ProjectCheck.Server.Client

/-!
Talking with a server. What is written to one process leaves all others as they are, and what goes
between the client and the process stays a dialogue as long as every message is said in its phase.
-/
namespace ProjectCheck

open Run Message

namespace Connection

theorem ofClient_post (c : Connection) (delay : Nat) (message : Json) :
    (c.post delay message).dialogue.filter Utterance.isOfClient =
      c.dialogue.filter Utterance.isOfClient := by
  unfold post bring
  split
  · split <;> simp [say, Utterance.isOfClient]
  · rfl

/-- What a server does with a message adds nothing to what the client said. -/
theorem ofClient_take (c : Connection) (message : Json) :
    (c.take message).dialogue.filter Utterance.isOfClient =
      c.dialogue.filter Utterance.isOfClient := by
  unfold take
  split
  · rfl
  · split
    · rfl
    · split
      · unfold takeRequest
        split
        · exact ofClient_post c 0 _
        · exact ofClient_post c 0 _
        · rfl
        · rfl
      · split
        · split
          · unfold takeDocument
            simp only
            split <;> split
            · exact ofClient_post c _ _
            · exact ofClient_post c _ _
            · rfl
            · rfl
          · rfl
        · rfl

structure Stands (phase : Phase) (requests : Nat) (c : Connection) : Prop where
  dialogue : Dialogue c.dialogue phase
  lastId : c.session.lastId = requests
  hasPipes : c.session.hasPipes = true

theorem Stands.of_calm {phase : Phase} {requests : Nat} {c after : Connection}
    (h : c.Stands phase requests) (hcalm : c.Calm after) : after.Stands phase requests :=
  ⟨hcalm.dialogue ▸ h.dialogue, hcalm.lastId.trans h.lastId, hcalm.hasPipes.trans h.hasPipes⟩

end Connection

namespace Machine

variable {m between after : Machine} {pid : Nat}

def Has (pid : Nat) (kind : Connection → Prop) (m : Machine) : Prop :=
  ∃ c, m.connection? pid = some c ∧ kind c

theorem Has.mono {kind weaker : Connection → Prop} (h : m.Has pid kind)
    (hkind : ∀ c, kind c → weaker c) : m.Has pid weaker := by
  obtain ⟨c, hc, hkindc⟩ := h
  exact ⟨c, hc, hkind c hkindc⟩

theorem stands_of_calm {phase : Phase} {requests : Nat} (c c' : Connection) (hcalm : c.Calm c')
    (h : c.Stands phase requests) : c'.Stands phase requests :=
  h.of_calm hcalm

/-- Nothing is said: a kind of connections that does not care is kept. -/
theorem Calm.has (h : m.Calm after) {kind : Connection → Prop} (hkind : m.Has pid kind)
    (hcalm : ∀ c c', c.Calm c' → kind c → kind c') : after.Has pid kind := by
  obtain ⟨c, hc, hkindc⟩ := hkind
  obtain ⟨c', hc', hcc'⟩ := h.each pid c hc
  exact ⟨c', hc', hcalm c c' hcc' hkindc⟩

/-- The same processes later on, when nothing was said with any but one of them, and all connections
still carry a dialogue. -/
structure Talked (pid : Nat) (m after : Machine) : Prop where
  faithful : after.Faithful
  length : after.connections.length = m.connections.length
  each : ∀ other c, m.connection? other = some c →
    ∃ c', after.connection? other = some c' ∧ c.Kin c' ∧ (other ≠ pid → c.Calm c')

theorem Talked.trans (h : Talked pid m between) (hnext : Talked pid between after) :
    Talked pid m after where
  faithful := hnext.faithful
  length := hnext.length.trans h.length
  each := by
    intro other c hc
    obtain ⟨c₁, hc₁, hkin, hcalm⟩ := h.each other c hc
    obtain ⟨c₂, hc₂, hkin', hcalm'⟩ := hnext.each other c₁ hc₁
    exact ⟨c₂, hc₂, hkin.trans hkin', fun hother => (hcalm hother).trans (hcalm' hother)⟩

theorem Calm.talked (h : m.Calm after) (hafter : after.Faithful) : Talked pid m after where
  faithful := hafter
  length := h.length
  each := by
    intro other c hc
    obtain ⟨c', hc', hcalm⟩ := h.each other c hc
    exact ⟨c', hc', hcalm.toKin, fun _ => hcalm⟩

/-- A connection that is there later was there before. -/
theorem Talked.exists_before (h : Talked pid m after) {other : Nat} {c' : Connection}
    (hc' : after.connection? other = some c') :
    ∃ c, m.connection? other = some c ∧ c.Kin c' ∧ (other ≠ pid → c.Calm c') :=
  exists_connection?_of_length_eq h.length (h.each other) hc'

/-- A process that is still there is the same one. -/
theorem Talked.has (h : Talked pid m after) {other : Nat} {kind : Connection → Prop}
    (hkind : m.Has other kind) (hkin : ∀ c c', c.Kin c' → kind c → kind c') :
    after.Has other kind := by
  obtain ⟨c, hc, hkindc⟩ := hkind
  obtain ⟨c', hc', hcc', -⟩ := h.each other c hc
  exact ⟨c', hc', hkin c c' hcc' hkindc⟩

/-- Another process is where it was. -/
theorem Talked.has_other (h : Talked pid m after) {other : Nat} (hother : other ≠ pid)
    {kind : Connection → Prop} (hkind : m.Has other kind)
    (hcalm : ∀ c c', c.Calm c' → kind c → kind c') : after.Has other kind := by
  obtain ⟨c, hc, hkindc⟩ := hkind
  obtain ⟨c', hc', -, hcc'⟩ := h.each other c hc
  exact ⟨c', hc', hcalm c c' (hcc' hother) hkindc⟩

/-- One connection is changed, when the events that were noted with it are what the client said. -/
theorem talked_revise {change : Connection → Connection} {noted : Machine}
    {c : Connection} {said : List Utterance} (hfaithful : m.Faithful)
    (hc : m.connection? pid = some c) (hconnections : noted.connections = m.connections)
    (hevents : ∀ other, noted.journal.events.filterMap (Event.about? other) =
      m.journal.events.filterMap (Event.about? other) ++ if other = pid then said else [])
    (hchange : (change c).Faithful ∧ c.Kin (change c))
    (hsaid : (change c).dialogue.filter Utterance.isOfClient =
      c.dialogue.filter Utterance.isOfClient ++ said) :
    Talked pid m (noted.revise pid change) := by
  have hself : (noted.revise pid change).connection? pid = some (change c) := by
    rw [connection?_revise_self, connection?, hconnections, ← connection?, hc, Option.map_some]
  have hother : ∀ other, other ≠ pid →
      (noted.revise pid change).connection? other = m.connection? other := by
    intro other hne
    rw [connection?_revise_of_ne (Ne.symm hne), connection?, hconnections, connection?]
  refine ⟨⟨?_, ?_⟩, ?_, ?_⟩
  · intro other c' hc'
    by_cases hne : other = pid
    · subst hne
      obtain rfl := Option.some.inj (hself.symm.trans hc')
      exact hchange.1
    · exact hfaithful.connections other c' ((hother other hne).symm.trans hc')
  · intro other
    change noted.journal.events.filterMap (Event.about? other) = _
    rw [hevents, hfaithful.recorded]
    by_cases hne : other = pid
    · subst hne
      rw [dialogue, dialogue, hself, hc, if_pos rfl]
      exact hsaid.symm
    · rw [dialogue, dialogue, hother other hne, if_neg hne, List.append_nil]
  · change (noted.connections.modify pid change).length = _
    rw [List.length_modify, hconnections]
  · intro other c' hc'
    by_cases hne : other = pid
    · subst hne
      obtain rfl := Option.some.inj (hc.symm.trans hc')
      exact ⟨_, hself, hchange.2, fun h => absurd rfl h⟩
    · exact ⟨c', (hother other hne).trans hc', .refl c', fun _ => .refl c'⟩

/-! Sending. -/

/-- A noted event adds what it says to its process. -/
theorem events_noted {event : Event} {utterance : Utterance}
    (hevent : ∀ other, event.about? other = if pid = other then some utterance else none)
    (m : Machine) (other : Nat) :
    (m.noted event).journal.events.filterMap (Event.about? other) =
      m.journal.events.filterMap (Event.about? other) ++
        if other = pid then [utterance] else [] := by
  rw [noted, List.filterMap_append]
  by_cases h : other = pid
  · simp [hevent, h]
  · simp [hevent, h, Ne.symm h]

/-- A message that may be said is sent, and the server does with it what it does; or it cannot be
written and nothing happens. -/
theorem ends_send {message : Json} {c : Connection} (kind : Connection → Prop)
    (hfaithful : m.Faithful) (hc : m.connection? pid = some c)
    (hpipes : c.session.hasPipes = true)
    (hsaid : ((c.say (.toServer message)).take message).Faithful)
    (hkind : kind ((c.say (.toServer message)).take message))
    (hcalm : ∀ c c', c.Calm c' → kind c → kind c') :
    Ends (send pid message) m fun result after => Talked pid m after ∧
      (after.Has pid kind ∨ (∃ failure, result = .error failure) ∧ after = m) := by
  refine Ends.get_bind ?_
  simp only [hc, hpipes, Bool.not_true, Bool.false_eq_true, ↓reduceIte]
  split
  · exact ⟨(Calm.refl m).talked hfaithful, .inr ⟨⟨_, rfl⟩, rfl⟩⟩
  · have htalked : Talked pid m ((m.noted (.sent pid message)).revise pid fun _ =>
        (c.say (.toServer message)).take message) := by
      refine talked_revise hfaithful hc rfl (events_noted (fun _ => rfl) m) ⟨hsaid, ?_⟩ ?_
      · have hkin := (Connection.kin_take (c.say (.toServer message)) message).1
        exact ⟨hkin.behaviour, hkin.spec, hkin.hasPipes, hkin.exited⟩
      · rw [Connection.ofClient_take]
        exact List.filter_append ..
    have hrest : Ends (deliver pid message c) m fun _ after =>
        Calmly ((m.noted (.sent pid message)).revise pid fun _ =>
          (c.say (.toServer message)).take message) after := by
      refine Moves.bind steady_calmly (lenient_calmly.moves_stir pid _) fun _ after => ?_
      split <;> exact steady_calmly.refl after
    have hhas : ((m.noted (.sent pid message)).revise pid fun _ =>
        (c.say (.toServer message)).take message).Has pid kind := by
      refine ⟨_, ?_, hkind⟩
      rw [connection?_revise_self, connection?_noted, hc, Option.map_some]
    refine hrest.mono fun result after hcalmly => ?_
    obtain ⟨hafter, hcalm'⟩ := hcalmly htalked.faithful
    exact ⟨htalked.trans (hcalm'.talked hafter), .inl (hcalm'.has hhas hcalm)⟩

/-- A request that may be said now is sent, and it may be answered at once. -/
theorem ends_sendRequest {phase next answered : Phase} {requests id : Nat} {method : String}
    {params : Option Json} (hfaithful : m.Faithful)
    (hstands : m.Has pid (Connection.Stands phase requests))
    (hstep : phase.Step (.toServer (Message.request id method params)) next)
    (hanswer : ∀ message, IsResult id message → next.Step (.fromServer message) answered) :
    Ends (send pid (Message.request id method params)) m fun result after => Talked pid m after ∧
      ((after.Has pid fun c => c.Stands next requests ∨ c.Stands answered requests) ∨
        ∃ failure, result = .error failure) := by
  obtain ⟨c, hc, hstand⟩ := hstands
  have hdialogue := hstand.dialogue.snoc hstep
  have hconnection := hfaithful.connections pid c hc
  obtain ⟨hsaid, hphase⟩ := (hconnection.say hdialogue (hconnection.ended.say rfl)).take_request
    hdialogue hanswer method params
  obtain ⟨hkin, hsession⟩ := Connection.kin_take
    (c.say (.toServer (Message.request id method params))) (Message.request id method params)
  have hlast := (congrArg Session.lastId hsession).trans hstand.lastId
  have hpipes := hkin.hasPipes.trans hstand.hasPipes
  have hsent := ends_send (fun c => c.Stands next requests ∨ c.Stands answered requests) hfaithful
    hc hstand.hasPipes hsaid (hphase.imp (⟨·, hlast, hpipes⟩) (⟨·, hlast, hpipes⟩))
    fun _ _ hcalm h => h.imp (·.of_calm hcalm) (·.of_calm hcalm)
  refine hsent.mono fun result after hafter => ?_
  obtain ⟨htalked, hstands | ⟨hfailed, -⟩⟩ := hafter
  · exact ⟨htalked, .inl hstands⟩
  · exact ⟨htalked, .inr hfailed⟩

/-- A notification that may be said now is sent, or it cannot be written. -/
theorem ends_sendNotification {phase next : Phase} {requests : Nat} {method : String}
    {params : Option Json} (hfaithful : m.Faithful)
    (hstands : m.Has pid (Connection.Stands phase requests))
    (hstep : phase.Step (.toServer (notification method params)) next) :
    Ends (send pid (notification method params)) m fun result after => Talked pid m after ∧
      (after.Has pid (Connection.Stands next requests) ∨
        (∃ failure, result = .error failure) ∧ after = m) := by
  obtain ⟨c, hc, hstand⟩ := hstands
  have hdialogue := hstand.dialogue.snoc hstep
  have hconnection := hfaithful.connections pid c hc
  obtain ⟨hsaid, hphase⟩ := (hconnection.say hdialogue
    (hconnection.ended.say rfl)).take_notification hdialogue method params
  obtain ⟨hkin, hsession⟩ := Connection.kin_take
    (c.say (.toServer (notification method params))) (notification method params)
  have hlast := (congrArg Session.lastId hsession).trans hstand.lastId
  have hpipes := hkin.hasPipes.trans hstand.hasPipes
  exact ends_send _ hfaithful hc hstand.hasPipes hsaid ⟨hphase, hlast, hpipes⟩ stands_of_calm

/-! Steps that talk with one process. -/

/-- What is calm talks with a process too, and leaves it where it stands. -/
theorem talked_of_calmly {α : Type} {step : Run Machine α} {kind : Connection → Prop}
    (hfaithful : m.Faithful) (hhas : m.Has pid kind)
    (hkind : ∀ c c', c.Calm c' → kind c → kind c') (hstep : Moves Calmly step m) :
    Ends step m fun _ after => Talked pid m after ∧ after.Has pid kind := by
  refine Ends.mono hstep fun result after hcalmly => ?_
  obtain ⟨hafter, hcalm⟩ := hcalmly hfaithful
  exact ⟨hcalm.talked hafter, hcalm.has hhas hkind⟩

def Talks {α : Type} (pid : Nat) (step : Run Machine α) (m : Machine)
    (reached : α → Machine → Prop) : Prop :=
  Ends step m fun result after => Talked pid m after ∧ ∀ a, result = .ok a → reached a after

namespace Talks

variable {α β : Type} {step : Run Machine α} {first : α → Machine → Prop}

/-- A second part goes on from what the first part comes to. -/
theorem bind {next : α → Run Machine β} {reached : β → Machine → Prop}
    (h : Talks pid step m first)
    (hnext : ∀ a between, between.Faithful → first a between →
      Talks pid (next a) between reached) : Talks pid (step >>= next) m reached := by
  refine Ends.bind_of h (fun a between hfirst => ?_) fun failure after hfailed => ?_
  · obtain ⟨htalked, hreached⟩ := hfirst
    refine (hnext a between htalked.faithful (hreached a rfl)).mono fun result after hafter => ?_
    exact ⟨htalked.trans hafter.1, hafter.2⟩
  · exact ⟨hfailed.1, nofun⟩

theorem pure {a : α} (hfaithful : m.Faithful) (h : first a m) : Talks pid (pure a) m first := by
  refine Ends.pure ⟨(Calm.refl m).talked hfaithful, ?_⟩
  intro other heq
  obtain rfl := Except.ok.inj heq
  exact h

/-- Where a process stands it stands after something calm. -/
theorem of_calmly {kind : Connection → Prop} (hfaithful : m.Faithful) (hhas : m.Has pid kind)
    (hkind : ∀ c c', c.Calm c' → kind c → kind c') (hstep : Moves Calmly step m) :
    Talks pid step m fun _ after => after.Has pid kind := by
  refine (talked_of_calmly hfaithful hhas hkind hstep).mono fun result after h => ?_
  exact ⟨h.1, fun _ _ => h.2⟩

end Talks

/-! Requests and notifications. -/

/-- The session has numbered one more request. -/
theorem talked_begin {phase : Phase} {requests : Nat} (hfaithful : m.Faithful)
    (hstands : m.Has pid (Connection.Stands phase requests)) :
    Talked pid m (m.revise pid fun c => { c with session := c.session.begin }) ∧
      (m.revise pid fun c => { c with session := c.session.begin }).Has pid
        (Connection.Stands phase (requests + 1)) := by
  obtain ⟨c, hc, hstand⟩ := hstands
  have hbegun : Connection.Faithful { c with session := c.session.begin } := by
    refine (hfaithful.connections pid c hc).session fun id value hmem => ?_
    rcases List.mem_append.1 hmem with hmem | hmem
    · exact .inl hmem
    · cases List.mem_singleton.1 hmem
  constructor
  · refine talked_revise hfaithful hc rfl ?_ ⟨hbegun, rfl, rfl, rfl, id⟩ (List.append_nil _).symm
    intro other
    rw [ite_self, List.append_nil]
  · refine ⟨{ c with session := c.session.begin }, ?_, hstand.dialogue, ?_, hstand.hasPipes⟩
    · rw [connection?_revise_self, hc, Option.map_some]
    · exact congrArg (· + 1) hstand.lastId

theorem lastId_of_stands {phase : Phase} {requests : Nat}
    (h : m.Has pid (Connection.Stands phase requests)) :
    ((m.session? pid).map (·.lastId)).getD 0 = requests := by
  obtain ⟨c, hc, hstand⟩ := h
  rw [session?, hc, Option.map_some, Option.map_some, Option.getD_some, hstand.lastId]

/-- A request that may be said now is sent under the next number. -/
theorem talks_startRequest {phase next answered : Phase} {requests : Nat} {method : String}
    {params : Option Json} (hfaithful : m.Faithful)
    (hstands : m.Has pid (Connection.Stands phase requests))
    (hstep : phase.Step (.toServer (Message.request (requests + 1) method params)) next)
    (hanswer : ∀ message, IsResult (requests + 1) message →
      next.Step (.fromServer message) answered) :
    Talks pid (startRequest pid method params) m fun id after => id = requests + 1 ∧
      after.Has pid fun c => c.Stands next (requests + 1) ∨ c.Stands answered (requests + 1) := by
  obtain ⟨hbegun, hnumbered⟩ := talked_begin hfaithful hstands
  have hbegin : Talks pid (updateSession pid Session.begin) m fun _ after =>
      after.Has pid (Connection.Stands phase (requests + 1)) := ⟨hbegun, fun _ _ => hnumbered⟩
  refine hbegin.bind fun _ begun hbegun hnumbered => Ends.get_bind ?_
  simp only [lastId_of_stands hnumbered]
  have hlog := Talks.of_calmly hbegun hnumbered stands_of_calm
    (lenient_calmly.moves_log .debug s!"LSP Request: {method}" begun)
  refine hlog.bind fun _ logged hlogged hnumbered => ?_
  have hsent : Talks pid (send pid (Message.request (requests + 1) method params)) logged
      fun _ after => after.Has pid fun c =>
        c.Stands next (requests + 1) ∨ c.Stands answered (requests + 1) := by
    refine (ends_sendRequest hlogged hnumbered hstep hanswer).mono fun result after h => ?_
    obtain ⟨htalked, hhas | ⟨failure, hfailed⟩⟩ := h
    · exact ⟨htalked, fun _ _ => hhas⟩
    · exact ⟨htalked, fun _ heq => by cases hfailed.symm.trans heq⟩
  exact hsent.bind fun _ after hafter hhas => .pure hafter ⟨rfl, hhas⟩

theorem mem_of_decision? {s : Session} {id : Nat} {decision : Decision}
    (h : s.decision? id = some decision) : (id, some decision) ∈ s.pending := by
  rw [Session.decision?, Option.join_eq_some_iff, List.lookup_eq_some_iff] at h
  obtain ⟨before, after, heq, -⟩ := h
  rw [heq]
  exact List.mem_append_right before (List.mem_cons_self ..)

theorem calmly_finish (pid id : Nat) (m : Machine) :
    Moves Calmly (updateSession pid fun s => s.finish id) m :=
  calmly_session (fun s => s.finish id)
    (fun _ => ⟨rfl, rfl, rfl, fun _ _ hmem => (List.mem_filter.1 hmem).1⟩) m pid

theorem calmly_logTimeout (method : String) (decision : Option Decision) (m : Machine) :
    Moves Calmly (logTimeout method decision) m := by
  cases decision with
  | none => exact lenient_calmly.moves_log .debug _ m
  | some _ => exact steady_calmly.refl m

/-- A request ends with a value only if the server has answered it with a result. -/
theorem ends_finishRequest (pid id : Nat) (method : String) (hfaithful : m.Faithful) :
    Ends (finishRequest pid id method) m fun result after => Calmly m after ∧
      ∀ value, result = .ok value → m.Has pid fun c =>
        ∃ message, IsResult id message ∧ .fromServer message ∈ c.dialogue := by
  refine Ends.get_bind (Ends.bind_of (calmly_logTimeout method _ m) (fun _ between hlog => ?_)
    fun failure after h => ⟨h, nofun⟩)
  refine Ends.bind_of (calmly_finish pid id between) (fun _ after hfinish => ?_)
    fun failure after h => ⟨steady_calmly.trans hlog h, nofun⟩
  refine Ends.ofExcept ⟨steady_calmly.trans hlog hfinish, fun value hvalue => ?_⟩
  obtain ⟨decision, hdecision, houtcome⟩ : ∃ decision,
      (m.session? pid).bind (·.decision? id) = decision ∧ outcomeOf decision = .ok value :=
    ⟨_, rfl, hvalue⟩
  match decision, houtcome with
  | some (.result _), _ =>
    obtain ⟨session, hsession, hdecided⟩ := Option.bind_eq_some_iff.1 hdecision
    obtain ⟨c, hc, rfl⟩ := Option.map_eq_some_iff.1 hsession
    exact ⟨c, hc, (hfaithful.connections pid c hc).decided id _ (mem_of_decision? hdecided)⟩

/-- A request that may be said now ends with a value only in the phase in which it was answered. -/
theorem talks_request {phase next answered : Phase} {requests : Nat} {method : String}
    {params : Option Json} (hfaithful : m.Faithful)
    (hstands : m.Has pid (Connection.Stands phase requests))
    (hstep : phase.Step (.toServer (Message.request (requests + 1) method params)) next)
    (hanswer : ∀ message, IsResult (requests + 1) message →
      next.Step (.fromServer message) answered)
    (hbehind : ∀ said message, Dialogue said next → IsResult (requests + 1) message →
      .fromServer message ∉ said) :
    Talks pid (request pid method params) m fun _ after =>
      after.Has pid (Connection.Stands answered (requests + 1)) := by
  refine (talks_startRequest hfaithful hstands hstep hanswer).bind
    fun id started hstarted hsent => ?_
  obtain ⟨rfl, hphase⟩ := hsent
  have hawaited := Talks.of_calmly hstarted hphase
    (fun _ _ hcalm h => h.imp (·.of_calm hcalm) (·.of_calm hcalm))
    (calmly_awaitDecision pid (requests + 1) started)
  refine hawaited.bind fun _ waited hwaited hphase => ?_
  refine (ends_finishRequest pid (requests + 1) method hwaited).mono fun result after h => ?_
  obtain ⟨hcalmly, hvalue⟩ := h
  obtain ⟨hafter, hcalm⟩ := hcalmly hwaited
  refine ⟨hcalm.talked hafter, ?_⟩
  intro value heq
  -- The answer is in the dialogue, so this is not where it was still awaited.
  obtain ⟨c, hc, message, hresult, hmem⟩ := hvalue value heq
  obtain ⟨c', hc', hstand⟩ := hphase
  obtain rfl := Option.some.inj (hc.symm.trans hc')
  have hanswered : c.Stands answered (requests + 1) :=
    hstand.resolve_left fun h => hbehind _ message h.dialogue hresult hmem
  exact hcalm.has ⟨c, hc, hanswered⟩ stands_of_calm

/-- A notification that may be said now takes the dialogue on, or cannot be written. -/
theorem ends_notify {phase next : Phase} {requests : Nat} {method : String}
    {params : Option Json} (hfaithful : m.Faithful)
    (hstands : m.Has pid (Connection.Stands phase requests))
    (hstep : phase.Step (.toServer (notification method params)) next) :
    Ends (notify pid method params) m fun result after => Talked pid m after ∧
      (after.Has pid (Connection.Stands next requests) ∨
        (∃ failure, result = .error failure) ∧
          after.Has pid (Connection.Stands phase requests)) := by
  have hlogged := talked_of_calmly hfaithful hstands stands_of_calm
    (lenient_calmly.moves_log .debug s!"LSP Notification: {method}" m)
  refine Ends.bind_of hlogged (fun _ between hlog => ?_)
    fun failure after hlog => ⟨hlog.1, .inr ⟨⟨failure, rfl⟩, hlog.2⟩⟩
  obtain ⟨hlog, hbetween⟩ := hlog
  refine (ends_sendNotification hlog.faithful hbetween hstep).mono fun result after hsent => ?_
  obtain ⟨htalked, hnext | ⟨hfailed, rfl⟩⟩ := hsent
  · exact ⟨hlog.trans htalked, .inl hnext⟩
  · exact ⟨hlog.trans htalked, .inr ⟨hfailed, hbetween⟩⟩

/-- A notification that takes the dialogue on unless it fails. -/
theorem talks_notify {phase next : Phase} {requests : Nat} {method : String}
    {params : Option Json} (hfaithful : m.Faithful)
    (hstands : m.Has pid (Connection.Stands phase requests))
    (hstep : phase.Step (.toServer (notification method params)) next) :
    Talks pid (notify pid method params) m fun _ after =>
      after.Has pid (Connection.Stands next requests) := by
  refine (ends_notify hfaithful hstands hstep).mono fun result after h => ?_
  obtain ⟨htalked, hnext | ⟨⟨failure, hfailed⟩, -⟩⟩ := h
  · exact ⟨htalked, fun _ _ => hnext⟩
  · exact ⟨htalked, fun _ heq => by cases hfailed.symm.trans heq⟩

end Machine

end ProjectCheck
