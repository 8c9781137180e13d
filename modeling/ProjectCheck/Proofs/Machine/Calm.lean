import ProjectCheck.Machine.Turns
import ProjectCheck.Proofs.Machine.Reading
import ProjectCheck.Proofs.Server.Conduct
import ProjectCheck.Proofs.Text.Utf8

/-!
Machines whose connections all carry a dialogue, as the journal has it. Whatever is due is done
calmly: taking turns, waiting and reading what the servers have sent say nothing to any server.
-/
namespace ProjectCheck

open Run Message Frame

def Event.about? (pid : Nat) : Event → Option Utterance
  | .sent other message => if other = pid then some (.toServer message) else none
  | .terminated other => if other = pid then some .termination else none
  | .spawned _ _ => none

def Utterance.isOfClient : Utterance → Bool
  | .fromServer _ => false
  | _ => true

namespace Machine

def dialogue (m : Machine) (pid : Nat) : List Utterance :=
  ((m.connection? pid).map (·.dialogue)).getD []

structure Faithful (m : Machine) : Prop where
  connections : ∀ pid c, m.connection? pid = some c → c.Faithful
  recorded : ∀ pid, m.journal.events.filterMap (Event.about? pid) =
    (m.dialogue pid).filter Utterance.isOfClient

structure Calm (m after : Machine) : Prop where
  events : after.journal.events = m.journal.events
  length : after.connections.length = m.connections.length
  each : ∀ pid c, m.connection? pid = some c →
    ∃ c', after.connection? pid = some c' ∧ c.Calm c'

def Calmly (m after : Machine) : Prop := m.Faithful → after.Faithful ∧ m.Calm after

variable {m between after : Machine} {pid : Nat}

theorem Calm.refl (m : Machine) : m.Calm m := ⟨rfl, rfl, fun _ c hc => ⟨c, hc, .refl c⟩⟩

theorem Calm.trans (h : m.Calm between) (hnext : between.Calm after) : m.Calm after where
  events := hnext.events.trans h.events
  length := hnext.length.trans h.length
  each := fun pid c hc => by
    obtain ⟨c₁, hc₁, hcalm⟩ := h.each pid c hc
    obtain ⟨c₂, hc₂, hnext⟩ := hnext.each pid c₁ hc₁
    exact ⟨c₂, hc₂, hcalm.trans hnext⟩

theorem steady_calmly : Steady Calmly where
  refl := fun m h => ⟨h, .refl m⟩
  trans := fun h hnext hfaithful => by
    obtain ⟨hbetween, hcalm⟩ := h hfaithful
    obtain ⟨hafter, hcalm'⟩ := hnext hbetween
    exact ⟨hafter, hcalm.trans hcalm'⟩

theorem connection?_eq_none_iff : m.connection? pid = none ↔ m.connections.length ≤ pid :=
  List.getElem?_eq_none_iff

/-- With as many connections as before, none is there now that was not there before. -/
theorem exists_connection?_of_length_eq {Kept : Connection → Connection → Prop}
    (hlength : after.connections.length = m.connections.length)
    (heach : ∀ c, m.connection? pid = some c → ∃ c', after.connection? pid = some c' ∧ Kept c c')
    {c' : Connection} (hc' : after.connection? pid = some c') :
    ∃ c, m.connection? pid = some c ∧ Kept c c' := by
  cases hc : m.connection? pid with
  | none =>
    rw [connection?_eq_none_iff, ← hlength, ← connection?_eq_none_iff, hc'] at hc
    cases hc
  | some c =>
    obtain ⟨c'', hc'', hkept⟩ := heach c hc
    exact ⟨c, rfl, Option.some.inj (hc''.symm.trans hc') ▸ hkept⟩

/-- A calm machine has a connection only where it had one. -/
theorem Calm.exists_before (h : m.Calm after) {c' : Connection}
    (hc' : after.connection? pid = some c') :
    ∃ c, m.connection? pid = some c ∧ c.Calm c' :=
  exists_connection?_of_length_eq h.length (h.each pid) hc'

theorem Calm.dialogue_eq (h : m.Calm after) (pid : Nat) : after.dialogue pid = m.dialogue pid := by
  unfold Machine.dialogue
  cases hc : m.connection? pid with
  | none =>
    have hnone : after.connection? pid = none := by
      rwa [connection?_eq_none_iff, h.length, ← connection?_eq_none_iff]
    rw [hnone]
  | some c =>
    obtain ⟨c', hc', hcalm⟩ := h.each pid c hc
    rw [hc', Option.map_some, Option.map_some, hcalm.dialogue]

theorem Faithful.of_calm (h : m.Faithful) (hcalm : m.Calm after)
    (hconnections : ∀ pid c, after.connection? pid = some c → c.Faithful) : after.Faithful :=
  ⟨hconnections, fun pid => by rw [hcalm.events, hcalm.dialogue_eq, h.recorded pid]⟩

/-- A calm change of one connection. -/
theorem calmly_revise {change : Connection → Connection}
    (hchange : ∀ c, m.connection? pid = some c → c.Faithful →
      (change c).Faithful ∧ c.Calm (change c)) : Calmly m (m.revise pid change) := by
  intro hfaithful
  have hcalm : m.Calm (m.revise pid change) := by
    refine ⟨rfl, List.length_modify .., fun other c hc => ?_⟩
    by_cases hpid : pid = other
    · subst hpid
      refine ⟨change c, ?_, (hchange c hc (hfaithful.connections pid c hc)).2⟩
      rw [connection?_revise_self, hc, Option.map_some]
    · exact ⟨c, (connection?_revise_of_ne hpid change m).trans hc, .refl c⟩
  refine ⟨hfaithful.of_calm hcalm fun other c' hc' => ?_, hcalm⟩
  by_cases hpid : pid = other
  · subst hpid
    rw [connection?_revise_self] at hc'
    obtain ⟨c, hc, rfl⟩ := Option.map_eq_some_iff.1 hc'
    exact (hchange c hc (hfaithful.connections pid c hc)).1
  · rw [connection?_revise_of_ne hpid] at hc'
    exact hfaithful.connections other c' hc'

theorem lenient_calmly : Lenient Calmly where
  steady := steady_calmly
  quiet := fun {m after} hconnections hevents hfaithful => by
    have hsame : ∀ pid, after.connection? pid = m.connection? pid := fun pid => by
      rw [connection?, hconnections, connection?]
    have hcalm : m.Calm after := ⟨hevents, by rw [hconnections], fun pid c hc =>
      ⟨c, (hsame pid).trans hc, .refl c⟩⟩
    exact ⟨hfaithful.of_calm hcalm fun pid c hc =>
      hfaithful.connections pid c ((hsame pid).symm.trans hc), hcalm⟩
  tasks := fun m pid reader listener watcher => calmly_revise fun c _ h =>
    ⟨⟨h.phase, h.unframed, h.pipe, h.delayed, h.decided, h.ended⟩, ⟨⟨rfl, rfl, rfl, id⟩, rfl, rfl⟩⟩

/-- What holds of faithful machines only need be shown for them. -/
theorem moves_of_faithful {α : Type} {step : Run Machine α}
    (h : m.Faithful → Moves Calmly step m) : Moves Calmly step m :=
  fun hfaithful => h hfaithful hfaithful

/-! Looking whether a server is alive and noticing its end. -/

theorem calmly_session (change : Session → Session)
    (hchange : ∀ s : Session, (change s).spec = s.spec ∧ (change s).hasPipes = s.hasPipes ∧
      (change s).lastId = s.lastId ∧ ∀ id value, (id, some (.result value)) ∈ (change s).pending →
        (id, some (.result value)) ∈ s.pending) (m : Machine) (pid : Nat) :
    Moves Calmly (updateSession pid change) m :=
  calmly_revise fun c _ h => by
    obtain ⟨hspec, hpipes, hlast, hpending⟩ := hchange c.session
    exact ⟨h.session fun id value hmem => .inl (hpending id value hmem),
      ⟨⟨rfl, hspec, hpipes, id⟩, rfl, hlast⟩⟩

/-- Whether a server is alive is always found out, and calmly. -/
theorem ends_checkAlive (pid : Nat) (m : Machine) :
    Ends (checkAlive pid) m fun result after => ∃ alive, result = .ok alive ∧ Calmly m after := by
  refine Ends.get_bind ?_
  split
  · exact ⟨false, rfl, steady_calmly.refl m⟩
  · split
    · exact ⟨false, rfl, steady_calmly.refl m⟩
    · split
      · refine ⟨false, rfl, steady_calmly.trans (calmly_session
          (fun s => { s with exitNoticed := true }) (fun _ => ?_) m pid)
          (lenient_calmly.moves_log _ _ _)⟩
        exact ⟨rfl, rfl, rfl, fun _ _ hmem => hmem⟩
      · exact ⟨true, rfl, steady_calmly.refl m⟩

theorem calmly_checkAlive (pid : Nat) (m : Machine) : Moves Calmly (checkAlive pid) m :=
  (ends_checkAlive pid m).mono fun _ _ ⟨_, _, hcalmly⟩ => hcalmly

theorem mem_pending_decideAll {s : Session} {text : String} {id : Nat} {value : Json}
    (h : (id, some (.result value)) ∈ (s.decideAll (.refused text)).pending) :
    (id, some (.result value)) ∈ s.pending := by
  obtain ⟨entry, hentry, heq⟩ := List.mem_map.1 h
  split at heq
  · cases heq
  · exact heq ▸ hentry

theorem calmly_noticeExit (pid : Nat) (m : Machine) : Moves Calmly (noticeExit pid) m := by
  refine Moves.get_bind ?_
  split
  · refine Moves.bind steady_calmly (lenient_calmly.moves_log _ _ _) fun _ _ =>
      Moves.bind steady_calmly (calmly_session _ (fun _ => ?_) _ pid) fun _ _ =>
        lenient_calmly.moves_handOnDecision _
    exact ⟨rfl, rfl, rfl, fun _ _ hmem => mem_pending_decideAll hmem⟩
  · exact steady_calmly.refl m

/-! Reading what a server has sent. -/

def Sent (m : Machine) (pid : Nat) (message : Json) : Prop :=
  ∃ c, m.connection? pid = some c ∧ c.Sent message

theorem Calm.sent (h : m.Calm after) {message : Json} (hsent : m.Sent pid message) :
    after.Sent pid message := by
  obtain ⟨c, hc, hmem, hwritten⟩ := hsent
  obtain ⟨c', hc', hcalm⟩ := h.each pid c hc
  exact ⟨c', hc', hcalm.dialogue ▸ hmem, hwritten⟩

def CalmlyGiven (pid : Nat) (messages : List Json) (m after : Machine) : Prop :=
  (∀ message ∈ messages, m.Sent pid message) → Calmly m after

theorem steady_calmlyGiven (pid : Nat) (messages : List Json) :
    Steady (CalmlyGiven pid messages) where
  refl := fun m _ => steady_calmly.refl m
  trans := fun h hnext hsent hfaithful => by
    obtain ⟨hbetween, hcalm⟩ := h hsent hfaithful
    obtain ⟨hafter, hcalm'⟩ := hnext (fun message hmem => hcalm.sent (hsent message hmem)) hbetween
    exact ⟨hafter, hcalm.trans hcalm'⟩

/-- A message that the server has sent is taken without a word. -/
theorem calmly_receive {message value : Json} (hsent : m.Sent pid message)
    (hread : Json.reread Json.depthLimit message = .ok value) :
    Moves Calmly (receive pid value) m := by
  refine moves_of_faithful fun hfaithful => ?_
  obtain ⟨c, hc, hmem, -⟩ := hsent
  obtain ⟨phase, hdialogue⟩ := (hfaithful.connections pid c hc).phase
  have hkind : IsAside value ∨ ∃ id, IsResult id value :=
    (hdialogue.kind_of hmem).imp (·.reread hread) fun ⟨id, h⟩ => ⟨id, h.reread hread⟩
  have hresult : ∀ id, IsResult id value → IsResult id message := by
    intro id hvalue
    rcases hdialogue.kind_of hmem with haside | ⟨other, hother⟩
    · exact absurd (haside.reread hread) hvalue.not_isAside
    · exact (hother.reread hread).id_eq hvalue ▸ hother
  refine lenient_calmly.moves_receive (fun c' hc' => calmly_revise fun c'' hc'' h => ?_)
    fun c' reply hc' hreply => ?_
  · obtain rfl : c = c' := Option.some.inj (hc.symm.trans hc')
    obtain rfl : c = c'' := Option.some.inj (hc.symm.trans hc'')
    obtain ⟨pending, published, halike⟩ := c.session.alike_receive value
    refine ⟨h.session fun id decided hpending => ?_, ⟨⟨rfl, ?_, ?_, id⟩, rfl, ?_⟩⟩
    · exact ((c.session.receive_of_kind hkind).2 id decided hpending).imp (fun h => h)
        fun h => ⟨message, hresult id h, hmem⟩
    all_goals rw [halike]
  · rw [(c'.session.receive_of_kind hkind).1] at hreply
    cases hreply

/-- What is read of a message that was written is the message as it is read back. -/
theorem parseContent_eq {message : Json} (hwritten : message.isWellFormed = true) :
    parseContent (content message) = Json.parse (String.ofList message.writeChars) ∧
      Json.read (String.ofList message.writeChars) = Json.reread Json.depthLimit message := by
  constructor
  · rw [parseContent, content, Text.decodeUtf8?_encodeUtf8]
  · rw [Json.read, String.toList_ofList, Json.readChars_writeChars hwritten]

theorem calmly_readContent {message : Json} (hsent : m.Sent pid message) :
    Moves Calmly (readContent pid (content message)) m := by
  have hwritten : message.isWellFormed = true := by
    obtain ⟨_, _, _, hwritten, _⟩ := hsent
    exact hwritten
  obtain ⟨hparsed, hread⟩ := parseContent_eq hwritten
  unfold readContent
  rw [hparsed, Json.parse, hread]
  split
  · exact steady_calmly.refl m
  · cases hvalue : Json.reread Json.depthLimit message with
    | ok value => exact calmly_receive hsent hvalue
    | error fault =>
      cases fault with
      | malformed => exact lenient_calmly.moves_log _ _ m
      | tooManyDigits | tooDeep => exact steady_calmly.refl m

/-- Taking the contents of messages that a server has sent is calm. -/
theorem calmly_forM_readContent {messages whole : List Json}
    (hwhole : ∀ message ∈ whole, message ∈ messages) (m : Machine) :
    Moves (CalmlyGiven pid messages) ((whole.map content).forM (readContent pid)) m :=
  Moves.forM (steady_calmlyGiven pid messages) (List.forall_mem_map.2 fun message hmem _ hgiven =>
    calmly_readContent (hgiven message (hwhole message hmem))) m

/-- Reading what a server has sent is calm and leaves nothing unread as long as it goes on. -/
theorem ends_readPieces (pid : Nat) (messages : List Json) {left : List Json} {unframed : Bytes}
    (pieces : List Bytes)
    (hmeasurable : ∀ message ∈ left, isMeasurable (content message) = true)
    (hleft : ∀ message ∈ left, message ∈ messages)
    (hunframed : Unfinished (left.map content) unframed)
    (hstream : unframed ++ pieces.flatten = (left.map content).flatMap ofContent) (m : Machine) :
    Ends (readPieces pid unframed pieces) m fun result after =>
      CalmlyGiven pid messages m after ∧ ∀ rest, result = .ok (some rest) → rest = [] := by
  have hend := readPieces_ends pid (steady_calmlyGiven pid messages) pieces
    (List.forall_mem_map.2 hmeasurable)
    (fun machine => (calmly_checkAlive pid machine).mono fun _ h _ => h)
    (List.forall_mem_map.2 fun message hmem machine hgiven =>
      calmly_readContent (hgiven message (hleft message hmem)))
    hunframed (hstream ▸ List.prefix_rfl) m
  refine hend.mono fun result after ⟨hcalm, hrest⟩ => ⟨hcalm, fun rest heq => ?_⟩
  obtain ⟨taken, others, hsplit, hall, hothers⟩ := hrest rest heq
  rw [hstream, hsplit, List.flatMap_append, List.append_cancel_left_eq] at hall
  exact (hothers.eq_nil hall).2

end Machine

end ProjectCheck
