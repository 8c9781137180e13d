import ProjectCheck.Proofs.Server.Faithful

/-!
What changes in a connection, and what does not. Whatever a server does with a message, it stays the
same server; what happens between the messages is calm, as nothing is said and no request is
numbered.
-/
namespace ProjectCheck

open Message Frame

namespace Connection

structure Kin (c after : Connection) : Prop where
  behaviour : after.behaviour = c.behaviour
  spec : after.session.spec = c.session.spec
  hasPipes : after.session.hasPipes = c.session.hasPipes
  exited : c.hasExited = true → after.hasExited = true

structure Calm (c after : Connection) : Prop extends Kin c after where
  dialogue : after.dialogue = c.dialogue
  lastId : after.session.lastId = c.session.lastId

theorem Kin.refl (c : Connection) : Kin c c := ⟨rfl, rfl, rfl, id⟩

theorem Kin.trans {c between after : Connection} (h : Kin c between) (hnext : Kin between after) :
    Kin c after where
  behaviour := hnext.behaviour.trans h.behaviour
  spec := hnext.spec.trans h.spec
  hasPipes := hnext.hasPipes.trans h.hasPipes
  exited := fun hexited => hnext.exited (h.exited hexited)

theorem Calm.refl (c : Connection) : Calm c c := ⟨.refl c, rfl, rfl⟩

theorem Calm.trans {c between after : Connection} (h : Calm c between)
    (hnext : Calm between after) : Calm c after :=
  ⟨h.toKin.trans hnext.toKin, hnext.dialogue.trans h.dialogue, hnext.lastId.trans h.lastId⟩

variable {c : Connection}

/-! What a server does with a message. -/

theorem kin_post (c : Connection) (delay : Nat) (message : Json) :
    Kin c (c.post delay message) := by
  unfold post bring
  split
  · split <;> exact ⟨rfl, rfl, rfl, id⟩
  · exact .refl c

theorem calm_exit (c : Connection) (code : Int) : Calm c (c.exit code) :=
  ⟨⟨rfl, rfl, rfl, fun _ => rfl⟩, rfl, rfl⟩

theorem session_post (c : Connection) (delay : Nat) (message : Json) :
    (c.post delay message).session = c.session := by
  unfold post bring
  split
  · split <;> rfl
  · rfl

theorem IsEndedOnce.exit (h : c.IsEndedOnce) (code : Int) : (c.exit code).IsEndedOnce := by
  rcases h with hrefuses | hnone | ⟨-, honce⟩
  · exact .inl hrefuses
  · exact .inr (.inl hnone)
  · exact .inr (.inr ⟨rfl, honce⟩)

theorem Faithful.exit (h : c.Faithful) (code : Int) : (c.exit code).Faithful :=
  ⟨h.phase, h.unframed, h.pipe, h.delayed, h.decided, h.ended.exit code⟩

theorem take_request (c : Connection) (id : Nat) (method : String) (params : Option Json) :
    c.take (request id method params) =
      if c.hasExited then c else c.takeRequest (.int id) method := by
  cases params <;> rfl

theorem take_notification (c : Connection) (method : String) (params : Option Json) :
    c.take (notification method params) =
      if c.hasExited then c
      else if method = "textDocument/didOpen" ∨ method = "textDocument/didChange" then
        match params.bind DocumentRef.ofParams? with
        | some document => c.takeDocument document
        | none => c
      else c := by
  cases params <;> rfl

theorem kin_takeRequest (c : Connection) (id : Json) (method : String) :
    Kin c (c.takeRequest id method) ∧ (c.takeRequest id method).session = c.session := by
  unfold takeRequest
  split
  · exact ⟨kin_post c 0 _, session_post c 0 _⟩
  · exact ⟨kin_post c 0 _, session_post c 0 _⟩
  · exact ⟨.refl c, rfl⟩
  · exact ⟨(calm_exit c _).toKin, rfl⟩

theorem kin_takeDocument (c : Connection) (document : DocumentRef) :
    Kin c (c.takeDocument document) ∧ (c.takeDocument document).session = c.session := by
  unfold takeDocument
  simp only
  split <;> split
  · exact ⟨(kin_post c _ _).trans (calm_exit _ 1).toKin, session_post c _ _⟩
  · exact ⟨kin_post c _ _, session_post c _ _⟩
  · exact ⟨(calm_exit c 1).toKin, rfl⟩
  · exact ⟨.refl c, rfl⟩

/-- The server that has taken a message is the same, and so is the client's session. -/
theorem kin_take (c : Connection) (message : Json) :
    Kin c (c.take message) ∧ (c.take message).session = c.session := by
  unfold take
  split
  · exact ⟨.refl c, rfl⟩
  · split
    · exact ⟨.refl c, rfl⟩
    · split
      · exact kin_takeRequest c _ _
      · split
        · split
          · exact kin_takeDocument c _
          · exact ⟨.refl c, rfl⟩
        · exact ⟨.refl c, rfl⟩

/-- A server that has taken a request has answered it with a result or is where it was. -/
theorem Faithful.take_request (h : c.Faithful) {id : Nat} {phase answered : Phase}
    (hdialogue : Dialogue c.dialogue phase)
    (hanswer : ∀ message, IsResult id message → phase.Step (.fromServer message) answered)
    (method : String) (params : Option Json) :
    (c.take (request id method params)).Faithful ∧
      (Dialogue (c.take (request id method params)).dialogue phase ∨
        Dialogue (c.take (request id method params)).dialogue answered) := by
  rw [Connection.take_request]
  split
  · exact ⟨h, .inl hdialogue⟩
  · unfold takeRequest
    split
    · rename_i value _
      exact h.post hdialogue (hanswer _ ⟨value, rfl⟩) 0
    · rename_i value _
      obtain ⟨hfaithful, hphase⟩ := h.post hdialogue (.aside (.inr ⟨id, value, rfl⟩)) 0
      exact ⟨hfaithful, .inl (hphase.elim (fun h => h) fun h => h)⟩
    · exact ⟨h, .inl hdialogue⟩
    · exact ⟨h.exit _, .inl hdialogue⟩

theorem Faithful.takeDocument (h : c.Faithful) {phase : Phase}
    (hdialogue : Dialogue c.dialogue phase) (document : DocumentRef) :
    (c.takeDocument document).Faithful ∧ Dialogue (c.takeDocument document).dialogue phase := by
  have hposted : ∀ delay diagnostics,
      let posted := c.post delay (ServerBehaviour.publish document.uri diagnostics)
      posted.Faithful ∧ Dialogue posted.dialogue phase := by
    intro delay diagnostics
    obtain ⟨hfaithful, hphase⟩ :=
      h.post hdialogue (.aside (.inl ⟨document.uri, diagnostics, rfl⟩)) delay
    exact ⟨hfaithful, hphase.elim (fun h => h) fun h => h⟩
  unfold Connection.takeDocument
  simp only
  split <;> split
  · exact ⟨(hposted _ _).1.exit 1, (hposted _ _).2⟩
  · exact hposted _ _
  · exact ⟨h.exit 1, hdialogue⟩
  · exact ⟨h, hdialogue⟩

/-- A server that has taken a notification is where it was. -/
theorem Faithful.take_notification (h : c.Faithful) {phase : Phase}
    (hdialogue : Dialogue c.dialogue phase) (method : String) (params : Option Json) :
    (c.take (notification method params)).Faithful ∧
      Dialogue (c.take (notification method params)).dialogue phase := by
  rw [Connection.take_notification]
  split
  · exact ⟨h, hdialogue⟩
  · split
    · split
      · exact h.takeDocument hdialogue _
      · exact ⟨h, hdialogue⟩
    · exact ⟨h, hdialogue⟩

/-! What happens between the messages. -/

/-- A session that decides nothing more by a result. -/
theorem Faithful.session (h : c.Faithful) {session : Session}
    (hdecided : ∀ id value, (id, some (.result value)) ∈ session.pending →
      (id, some (.result value)) ∈ c.session.pending ∨
        ∃ message, IsResult id message ∧ .fromServer message ∈ c.dialogue) :
    ({ c with session } : Connection).Faithful where
  phase := h.phase
  unframed := h.unframed
  pipe := h.pipe
  delayed := h.delayed
  decided := by
    intro id value hmem
    rcases hdecided id value hmem with hmem | hanswered
    · exact h.decided id value hmem
    · exact hanswered
  ended := h.ended

/-- Frames of sent messages that come one after the other are a stream of them. -/
theorem exists_frames (entries : List (Nat × Bytes))
    (hentries : ∀ entry ∈ entries, ∃ message, c.Sent message ∧
      entry.2 = ofContent (content message)) :
    ∃ messages : List Json, (∀ message ∈ messages, c.Sent message) ∧
      entries.flatMap Prod.snd = (messages.map content).flatMap ofContent := by
  induction entries with
  | nil => exact ⟨[], fun _ hmem => absurd hmem List.not_mem_nil, rfl⟩
  | cons entry rest ih =>
    obtain ⟨message, hsent, heq⟩ := hentries entry (List.mem_cons_self ..)
    obtain ⟨others, hothers, hrest⟩ :=
      ih fun other hmem => hentries other (List.mem_cons_of_mem entry hmem)
    refine ⟨message :: others, ?_, ?_⟩
    · intro other hmem
      rcases List.mem_cons.1 hmem with rfl | hmem
      · exact hsent
      · exact hothers other hmem
    · rw [List.flatMap_cons, heq, hrest]
      rfl

theorem Faithful.pass (h : c.Faithful) : c.pass.Faithful := by
  have hcloser : ∀ entry ∈ c.delayed.map fun entry => (entry.1 - 1, entry.2),
      ∃ message, c.Sent message ∧ entry.2 = ofContent (content message) := by
    intro entry hmem
    obtain ⟨before, hbefore, rfl⟩ := List.mem_map.1 hmem
    exact h.delayed before hbefore
  refine ⟨h.phase, h.unframed, ?_, ?_, h.decided, h.ended⟩
  · obtain ⟨messages, hmessages, hpipe⟩ := h.pipe
    obtain ⟨others, hothers, hcame⟩ := exists_frames
      ((c.delayed.map fun entry => (entry.1 - 1, entry.2)).filter fun entry => entry.1 = 0)
      fun entry hmem => hcloser entry ((List.mem_filter.1 hmem).1)
    refine ⟨messages ++ others, ?_, ?_⟩
    · intro message hmem
      rcases List.mem_append.1 hmem with hmem | hmem
      · exact hmessages message hmem
      · exact hothers message hmem
    · simp only [Connection.pass, hpipe, List.map_append, List.flatMap_append]
      rw [hcame]
  · intro entry hmem
    exact hcloser entry ((List.mem_filter.1 hmem).1)

theorem calm_pass (c : Connection) : Calm c c.pass := ⟨⟨rfl, rfl, rfl, id⟩, rfl, rfl⟩

end Connection

end ProjectCheck
