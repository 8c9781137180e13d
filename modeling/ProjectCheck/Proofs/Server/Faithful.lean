import ProjectCheck.Proofs.Json.Reread
import ProjectCheck.Proofs.Server.Dialogue
import ProjectCheck.Proofs.Server.Frames
import ProjectCheck.Proofs.Server.Reception

/-!
Connections that carry a dialogue. What has come to the client, or is still to come, are frames of
messages that the server has sent, and a request is only decided by a result when the server has
answered it with a result. Nothing that a server sends of itself changes this, and the client never
sends anything because of it.
-/
namespace ProjectCheck

open Message Frame

namespace Session

theorem pending_keepFor (s : Session) (uri diagnostics : Json) :
    (s.keepFor uri diagnostics).pending = s.pending := by
  unfold keepFor
  split <;> rfl

theorem pending_publish (s : Session) (params : Members Json) :
    (s.publish params).session.pending = s.pending := by
  unfold publish
  simp only
  split
  · rfl
  · rfl
  · split
    · rfl
    · split <;> exact pending_keepFor s _ _

theorem pending_receiveCall (s : Session) (message : Members Json) :
    (s.receiveCall message).session.pending = s.pending := by
  unfold receiveCall
  simp only
  split
  · split
    · exact pending_publish s _
    · rfl
  · split
    · split <;> rfl
    · split <;> rfl

/-- What is decided anew is the request that was answered. -/
theorem mem_pending_decide {s : Session} {number id : Nat} {decision : Decision}
    {value : Option Decision} (h : (id, value) ∈ (s.decide number decision).pending) :
    (id, value) ∈ s.pending ∨ (id = number ∧ value = some decision) := by
  obtain ⟨entry, hentry, heq⟩ := List.mem_map.1 h
  split at heq
  · exact .inr ⟨(Prod.mk.inj heq).1.symm, (Prod.mk.inj heq).2.symm⟩
  · exact .inl (heq ▸ hentry)

/-- An answer decides its request only. -/
theorem mem_pending_receiveAnswer {s : Session} {message : Members Json} {number id : Nat}
    {value : Option Decision}
    (h : (id, value) ∈ (s.receiveAnswer message (.int number)).session.pending) :
    (id, value) ∈ s.pending ∨ (id = number ∧ value = some (decisionOf message)) := by
  unfold receiveAnswer at h
  simp only at h
  split at h
  · exact .inl h
  · rename_i entry _ hfound
    have hnumber : (number : Int) = entry := by
      have := List.find?_some hfound
      simpa only [Json.equalsInt, beq_iff_eq] using this
    obtain rfl : number = entry := Int.ofNat_inj.1 hnumber
    exact mem_pending_decide h

end Session

/-! A message that is read back is of the same kind. -/

theorem reread_publish {uri : String} {diagnostics value : Json}
    (h : Json.reread Json.depthLimit (ServerBehaviour.publish uri diagnostics) = .ok value) :
    ∃ read, value = ServerBehaviour.publish uri read := by
  change (Json.rereadMembers 979 [] _).map Json.object = .ok value at h
  cases hread : Json.reread 978 diagnostics with
  | error fault =>
    simp [Json.rereadMembers, Json.reread, Message.version, hread, bind, Except.bind,
      Except.map] at h
  | ok read =>
    refine ⟨read, ?_⟩
    simpa [Json.rereadMembers, Json.reread, Message.version, hread, bind, Except.bind, Except.map,
      Members.set, ServerBehaviour.publish, eq_comm] using h

theorem reread_answer {id : Nat} {name : String} {answer value : Json}
    (hname : name = "result" ∨ name = "error")
    (h : Json.reread Json.depthLimit (ServerBehaviour.answer (.int id) name answer) = .ok value) :
    ∃ read, value = ServerBehaviour.answer (.int id) name read := by
  change (Json.rereadMembers 979 [] _).map Json.object = .ok value at h
  cases hid : Json.rereadInt id with
  | error fault =>
    simp [Json.rereadMembers, Json.reread, Message.version, hid, bind, Except.bind, Except.map] at h
  | ok number =>
    obtain rfl : Json.int id = number := by
      unfold Json.rereadInt at hid
      split at hid <;> cases hid
      rfl
    cases hread : Json.reread 979 answer with
    | error fault =>
      simp [Json.rereadMembers, Json.reread, Message.version, hid, hread, bind, Except.bind,
        Except.map] at h
    | ok read =>
      refine ⟨read, ?_⟩
      rcases hname with rfl | rfl <;>
        simpa [Json.rereadMembers, Json.reread, Message.version, hid, hread, bind, Except.bind,
          Except.map, Members.set, ServerBehaviour.answer, eq_comm] using h

theorem Message.IsResult.reread {id : Nat} {message value : Json} (hresult : IsResult id message)
    (h : Json.reread Json.depthLimit message = .ok value) : IsResult id value := by
  obtain ⟨answer, rfl⟩ := hresult
  exact reread_answer (.inl rfl) h

theorem Message.IsAside.reread {message value : Json} (haside : IsAside message)
    (h : Json.reread Json.depthLimit message = .ok value) : IsAside value := by
  obtain ⟨uri, diagnostics, rfl⟩ | ⟨id, error, rfl⟩ := haside
  · obtain ⟨read, rfl⟩ := reread_publish h
    exact .inl ⟨uri, read, rfl⟩
  · obtain ⟨read, rfl⟩ := reread_answer (.inr rfl) h
    exact .inr ⟨id, read, rfl⟩

/-! Taking a message of the server. -/

namespace Session

theorem receive_publish (s : Session) (uri : String) (diagnostics : Json) :
    (s.receive (ServerBehaviour.publish uri diagnostics)).reply = none ∧
      (s.receive (ServerBehaviour.publish uri diagnostics)).session.pending = s.pending := by
  obtain ⟨members, hid, heq⟩ : ∃ members : Members Json, members.get? "id" = none ∧
      s.receive (ServerBehaviour.publish uri diagnostics) = s.receiveCall members :=
    ⟨[Message.version, ("method", .string "textDocument/publishDiagnostics"),
      ("params", .object [("uri", .string uri), ("diagnostics", diagnostics)])], rfl, rfl⟩
  rw [heq]
  refine ⟨?_, pending_receiveCall s members⟩
  cases hreply : (s.receiveCall members).reply with
  | none => rfl
  | some reply =>
    obtain ⟨id, hsome, -⟩ := reply_receiveCall hreply
    cases hid.symm.trans hsome

/-- What a server sends of itself is never answered, and only a result decides by a result. -/
theorem receive_of_kind (s : Session) {message : Json}
    (hkind : IsAside message ∨ ∃ id, IsResult id message) :
    (s.receive message).reply = none ∧
      ∀ id value, (id, some (.result value)) ∈ (s.receive message).session.pending →
        (id, some (.result value)) ∈ s.pending ∨ IsResult id message := by
  obtain (⟨uri, diagnostics, rfl⟩ | ⟨number, error, rfl⟩) | ⟨number, result, rfl⟩ := hkind
  · obtain ⟨hreply, hpending⟩ := s.receive_publish uri diagnostics
    exact ⟨hreply, fun id value hmem => .inl (hpending ▸ hmem)⟩
  · refine ⟨reply_receiveAnswer s _ _, ?_⟩
    intro id value hmem
    obtain hmem | ⟨-, hdecided⟩ := mem_pending_receiveAnswer hmem
    · exact .inl hmem
    · cases hdecided
  · refine ⟨reply_receiveAnswer s _ _, ?_⟩
    intro id value hmem
    obtain hmem | ⟨rfl, -⟩ := mem_pending_receiveAnswer hmem
    · exact .inl hmem
    · exact .inr ⟨result, rfl⟩

end Session

namespace Dialogue

/-- What a server sends is a result, a publication or an error. -/
theorem kind_of {said : List Utterance} {phase : Phase} (h : Dialogue said phase) {message : Json}
    (hmem : .fromServer message ∈ said) : IsAside message ∨ ∃ id, IsResult id message := by
  induction h with
  | nil => exact absurd hmem List.not_mem_nil
  | snoc _ hstep ih =>
    rw [List.mem_append, List.mem_singleton] at hmem
    rcases hmem with hmem | rfl
    · exact ih hmem
    · cases hstep with
      | greeted hresult => exact .inr ⟨1, hresult⟩
      | released hresult => exact .inr ⟨2, hresult⟩
      | aside haside => exact .inl haside

end Dialogue

/-! Connections. -/

namespace Connection

def Sent (c : Connection) (message : Json) : Prop :=
  .fromServer message ∈ c.dialogue ∧ message.isWellFormed = true ∧
    isMeasurable (content message) = true

def IsEndedOnce (c : Connection) : Prop :=
  c.behaviour.refusesTermination = true ∨ terminations c.dialogue = 0 ∨
    c.hasExited = true ∧ terminations c.dialogue = 1

/-- A connection that carries a dialogue: what comes to the client are frames of what the server has
sent, what is decided by a result was answered with a result, and the server is ended once. -/
structure Faithful (c : Connection) : Prop where
  phase : ∃ phase, Dialogue c.dialogue phase
  unframed : c.unframed = []
  pipe : ∃ messages : List Json, (∀ message ∈ messages, c.Sent message) ∧
    c.pipe = (messages.map content).flatMap ofContent
  delayed : ∀ entry ∈ c.delayed, ∃ message, c.Sent message ∧ entry.2 = ofContent (content message)
  decided : ∀ id value, (id, some (.result value)) ∈ c.session.pending →
    ∃ message, IsResult id message ∧ .fromServer message ∈ c.dialogue
  ended : c.IsEndedOnce

theorem ofMessage?_eq_some {message : Json} {octets : Bytes}
    (h : ofMessage? message = some octets) :
    message.isWellFormed = true ∧ isMeasurable (content message) = true ∧
      octets = ofContent (content message) := by
  unfold ofMessage? at h
  split at h
  · rename_i hwritten
    rw [Bool.and_eq_true] at hwritten
    exact ⟨hwritten.1, hwritten.2, (Option.some.inj h).symm⟩
  · cases h

theorem Sent.say {c : Connection} {message : Json} (h : c.Sent message) (utterance : Utterance) :
    (c.say utterance).Sent message :=
  ⟨List.mem_append_left _ h.1, h.2⟩

theorem IsEndedOnce.say {c : Connection} (h : c.IsEndedOnce) {utterance : Utterance}
    (hutterance : utterance.isTermination = false) : (c.say utterance).IsEndedOnce := by
  have hsame : terminations (c.say utterance).dialogue = terminations c.dialogue := by
    rw [Connection.say, terminations_append_singleton, hutterance]
    rfl
  rw [IsEndedOnce, hsame]
  exact h

/-- What is said more leaves all that was sent before as sent. -/
theorem Faithful.say {c : Connection} (h : c.Faithful) {utterance : Utterance} {phase : Phase}
    (hdialogue : Dialogue (c.dialogue ++ [utterance]) phase)
    (hended : (c.say utterance).IsEndedOnce) : (c.say utterance).Faithful where
  phase := ⟨phase, hdialogue⟩
  unframed := h.unframed
  pipe := by
    obtain ⟨messages, hmessages, hpipe⟩ := h.pipe
    refine ⟨messages, ?_, hpipe⟩
    intro message hmem
    exact (hmessages message hmem).say utterance
  delayed := by
    intro entry hentry
    obtain ⟨message, hsent, heq⟩ := h.delayed entry hentry
    exact ⟨message, hsent.say utterance, heq⟩
  decided := by
    intro id value hmem
    obtain ⟨message, hresult, hsent⟩ := h.decided id value hmem
    exact ⟨message, hresult, List.mem_append_left _ hsent⟩
  ended := hended

theorem Faithful.bring {c : Connection} (h : c.Faithful) {message : Json} (hsent : c.Sent message)
    (delay : Nat) : (c.bring delay (ofContent (content message))).Faithful := by
  obtain ⟨messages, hmessages, hpipe⟩ := h.pipe
  unfold Connection.bring
  split
  · refine ⟨h.phase, h.unframed, ⟨messages ++ [message], ?_, ?_⟩, h.delayed, h.decided,
      h.ended⟩
    · intro other hmem
      rcases List.mem_append.1 hmem with hmem | hmem
      · exact hmessages other hmem
      · exact List.mem_singleton.1 hmem ▸ hsent
    · simp [hpipe]
  · refine ⟨h.phase, h.unframed, ⟨messages, hmessages, hpipe⟩, ?_, h.decided, h.ended⟩
    intro entry hentry
    rcases List.mem_append.1 hentry with hentry | hentry
    · exact h.delayed entry hentry
    · exact ⟨message, hsent, by rw [List.mem_singleton.1 hentry]⟩

/-- Posting keeps a connection faithful when the server may send the message; a message that cannot
be written is not sent. -/
theorem Faithful.post {c : Connection} (h : c.Faithful) {message : Json} {phase next : Phase}
    (hdialogue : Dialogue c.dialogue phase) (hstep : phase.Step (.fromServer message) next)
    (delay : Nat) :
    (c.post delay message).Faithful ∧
      (Dialogue (c.post delay message).dialogue phase ∨
        Dialogue (c.post delay message).dialogue next) := by
  unfold Connection.post
  split
  · rename_i octets hoctets
    obtain ⟨hwritten, hmeasurable, rfl⟩ := ofMessage?_eq_some hoctets
    have hnext := hdialogue.snoc hstep
    have hsent : (c.say (.fromServer message)).Sent message :=
      ⟨List.mem_append_right _ (List.mem_singleton_self _), hwritten, hmeasurable⟩
    refine ⟨(h.say hnext (h.ended.say rfl)).bring hsent delay, .inr ?_⟩
    unfold Connection.bring
    split <;> exact hnext
  · exact ⟨h, .inl hdialogue⟩

end Connection

end ProjectCheck
