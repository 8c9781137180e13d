import ProjectCheck.Proofs.Server.Exchange
import ProjectCheck.Server.Fleet

/-!
The first request to a server. The server may answer it, refuse it, say nothing or something that
cannot be read; in each case the client goes on when all that is due is done, and an answer that can
be read decides the request.
-/
namespace ProjectCheck

open Run Frame Message

namespace ServerBehaviour

def reply (b : ServerBehaviour) (method : String) : Reply :=
  (b.replies.get? method).getD b.otherwise

def Welcomes (b : ServerBehaviour) : Prop :=
  ∃ value read, b.reply "initialize" = .result value ∧
    IsReadAs (answer (.int 1) "result" value) read

def Endures (b : ServerBehaviour) : Prop := ∀ code, b.reply "initialize" ≠ .exits code

theorem Welcomes.endures {b : ServerBehaviour} (h : b.Welcomes) : b.Endures := by
  obtain ⟨value, read, hreply, -⟩ := h
  intro code hexits
  cases hreply.symm.trans hexits

def greeting? (b : ServerBehaviour) : Option Json :=
  match b.reply "initialize" with
  | .result value => some (answer (.int 1) "result" value)
  | .error value => some (answer (.int 1) "error" value)
  | .silence | .exits _ => none

theorem Welcomes.exists_octets {b : ServerBehaviour} (h : b.Welcomes) :
    ∃ octets, b.greeting?.bind ofMessage? = some octets := by
  obtain ⟨value, read, hreply, hread⟩ := h
  refine ⟨ofContent (content (answer (.int 1) "result" value)), ?_⟩
  rw [greeting?, hreply, Option.bind_some, ofMessage?, hread.written, hread.measurable]
  rfl

theorem exists_of_greeting? {b : ServerBehaviour} {message : Json}
    (h : b.greeting? = some message) :
    ∃ name value, (name = "result" ∨ name = "error") ∧ message = answer (.int 1) name value := by
  unfold greeting? at h
  split at h
  · exact ⟨_, _, .inl rfl, (Option.some.inj h).symm⟩
  · exact ⟨_, _, .inr rfl, (Option.some.inj h).symm⟩
  · cases h
  · cases h

end ServerBehaviour

namespace Message

theorem not_isAboutDocument_request (id : Nat) (method : String) (params : Option Json) :
    ¬ IsAboutDocument (request id method params) := by
  rintro ⟨other, heq | heq⟩
  all_goals cases params <;> simp [request, notification, withParams] at heq

theorem not_isAboutDocument_initialized : ¬ IsAboutDocument initialized := by
  rintro ⟨other, heq | heq⟩
  all_goals simp [initialized, notification, withParams] at heq

/-- What servers say is nothing that the client writes. -/
theorem written_eq_nil {said : List Utterance}
    (h : ∀ utterance ∈ said, utterance.isOfClient = false) :
    written said = [] := by
  refine List.filterMap_eq_nil_iff.2 fun utterance hmem => ?_
  have hserver := h utterance hmem
  cases utterance with
  | toServer message => cases hserver
  | fromServer message => rfl
  | termination => rfl

theorem written_append (said more : List Utterance) :
    written (said ++ more) = written said ++ written more := List.filterMap_append

end Message

def LeavesDocuments (said after : List Utterance) : Prop :=
  ∃ more, after = said ++ more ∧ ∀ message ∈ written more, ¬ IsAboutDocument message

namespace LeavesDocuments

variable {said between after : List Utterance}

theorem refl (said : List Utterance) : LeavesDocuments said said :=
  ⟨[], (List.append_nil said).symm, nofun⟩

theorem trans (h : LeavesDocuments said between) (hnext : LeavesDocuments between after) :
    LeavesDocuments said after := by
  obtain ⟨first, rfl, hfirst⟩ := h
  obtain ⟨second, rfl, hsecond⟩ := hnext
  refine ⟨first ++ second, List.append_assoc .., fun message hmem => ?_⟩
  rw [written_append] at hmem
  exact (List.mem_append.1 hmem).elim (hfirst message) (hsecond message)

/-- What servers say and what the client says of no document leaves the documents. -/
theorem of_append {more : List Utterance}
    (h : ∀ message ∈ written more, ¬ IsAboutDocument message) :
    LeavesDocuments said (said ++ more) := ⟨more, rfl, h⟩

theorem of_message {message : Json} (h : ¬ IsAboutDocument message) :
    LeavesDocuments said (said ++ [.toServer message]) := by
  refine of_append fun other hmem => ?_
  rwa [List.mem_singleton.1 hmem]

end LeavesDocuments

namespace Connection

variable {c after : Connection}

structure IsNew (c : Connection) : Prop where
  running : c.exitCode = none
  unnoticed : c.session.exitNoticed = false
  hasPipes : c.session.hasPipes = true
  lastId : c.session.lastId = 0
  pending : c.session.pending = []
  pipe : c.pipe = []
  unframed : c.unframed = []
  delayed : c.delayed = []

structure IsAsking (c : Connection) : Prop where
  running : c.exitCode = none
  unnoticed : c.session.exitNoticed = false
  pending : c.session.pending = [(1, none)]
  reading : c.reader ≠ .over
  pipe : c.pipe = (c.behaviour.greeting?.bind ofMessage?).getD []
  unframed : c.unframed = []
  delayed : c.delayed = []

theorem IsAsking.of_stays (h : c.IsAsking) (hstays : c.Stays after) : after.IsAsking where
  running := hstays.exitCode.trans h.running
  unnoticed := by rw [hstays.session h.running]; exact h.unnoticed
  pending := by rw [hstays.session h.running]; exact h.pending
  reading := hstays.reading h.running h.reading
  pipe := by rw [hstays.pipe, hstays.behaviour]; exact h.pipe
  unframed := hstays.unframed.trans h.unframed
  delayed := hstays.delayed.trans h.delayed

theorem IsAsking.session_eq (h : c.IsAsking) :
    c.session = { c.session with pending := [(1, none)] } := by
  rw [← h.pending]

theorem IsAsking.isAwaiting (h : c.IsAsking) {message : Json} {octets : Bytes}
    (hgreeting : c.behaviour.greeting? = some message)
    (hoctets : ofMessage? message = some octets) :
    c.IsAwaiting 0 message where
  running := h.running
  unnoticed := h.unnoticed
  unframed := h.unframed
  pipe := by
    rw [h.pipe, hgreeting, Option.bind_some, hoctets, (ofMessage?_eq_some hoctets).2.2]
    rfl
  delayed := h.delayed
  reading := h.reading
  waiting hdelay := absurd rfl hdelay

theorem takeRequest_first (h : c.behaviour.Endures) :
    c.takeRequest (.int 1) "initialize" = match c.behaviour.greeting? with
      | some message => c.post 0 message
      | none => c := by
  change (match c.behaviour.reply "initialize" with
    | .result value => c.post 0 (ServerBehaviour.answer (.int 1) "result" value)
    | .error value => c.post 0 (ServerBehaviour.answer (.int 1) "error" value)
    | .silence => c
    | .exits code => c.exit code) = _
  unfold ServerBehaviour.greeting?
  cases hreply : c.behaviour.reply "initialize" with
  | exits code => exact absurd hreply (h code)
  | result | error | silence => rfl

/-- A server that takes the first request says at most one thing. -/
theorem IsNew.isAsking (h : c.IsNew) (hreading : c.reader ≠ .over) (hendures : c.behaviour.Endures)
    (params : Json) :
    let message := request 1 "initialize" (some params)
    let taken := ({ c with session := c.session.begin }.say (.toServer message)).take message
    taken.IsAsking ∧ taken.behaviour = c.behaviour ∧ taken.session = c.session.begin ∧
      ∃ more, taken.dialogue = c.dialogue ++ .toServer message :: more ∧
        ∀ utterance ∈ more, utterance.isOfClient = false := by
  intro message taken
  have hbegun : c.session.begin.pending = [(1, none)] := by
    rw [Session.begin, h.pending, h.lastId]
    rfl
  let said := { c with session := c.session.begin }.say (.toServer message)
  have htaken : taken = match c.behaviour.greeting? with
      | some message => said.post 0 message
      | none => said := by
    have hexited : said.hasExited = false := by
      change c.exitCode.isSome = false
      rw [h.running]
      rfl
    have htook : taken = said.takeRequest (.int 1) "initialize" := by
      change said.take message = _
      rw [take_request, hexited]
      rfl
    exact htook.trans (takeRequest_first hendures)
  cases hoctets : c.behaviour.greeting?.bind ofMessage? with
  | none =>
    have hsame : taken = said := by
      rw [htaken]
      cases hgreeting : c.behaviour.greeting? with
      | none => rfl
      | some greeting =>
        rw [hgreeting, Option.bind_some] at hoctets
        simp only [post, hoctets]
    rw [hsame]
    refine ⟨⟨h.running, h.unnoticed, hbegun, hreading, ?_, h.unframed, h.delayed⟩, rfl, rfl, [],
      rfl, fun _ hmem => absurd hmem List.not_mem_nil⟩
    change c.pipe = _
    rw [h.pipe]
    exact (congrArg (Option.getD · []) hoctets).symm
  | some octets =>
    obtain ⟨greeting, hgreeting, hgreetingOctets⟩ := Option.bind_eq_some_iff.1 hoctets
    have hsame : taken = (said.say (.fromServer greeting)).bring 0 octets := by
      rw [htaken, hgreeting]
      simp only [post, hgreetingOctets]
    rw [hsame]
    refine ⟨⟨h.running, h.unnoticed, hbegun, hreading, ?_, h.unframed, h.delayed⟩, rfl, rfl,
      [.fromServer greeting], List.append_assoc .., ?_⟩
    · change c.pipe ++ octets = _
      rw [h.pipe]
      exact (congrArg (Option.getD · []) hoctets).symm
    · intro utterance hmem
      rw [List.mem_singleton.1 hmem]
      rfl

def decided (decision : Decision) (c : Connection) : Connection :=
  { c with session := { c.session with pending := [(1, some decision)] } }

structure Decides (decision : Option Decision) (c after : Connection) : Prop where
  behaviour : after.behaviour = c.behaviour
  dialogue : after.dialogue = c.dialogue
  running : after.exitCode = none
  session : after.session = { c.session with pending := [(1, decision)] }
  reader : decision.isSome → after.reader = .waiting
  pipe : after.pipe = []
  unframed : after.unframed = []
  delayed : after.delayed = []

theorem Decides.of_stays {decision : Option Decision} {between : Connection}
    (h : c.Decides decision between) (hstays : between.Stays after) : c.Decides decision after where
  behaviour := hstays.behaviour.trans h.behaviour
  dialogue := hstays.dialogue.trans h.dialogue
  running := hstays.exitCode.trans h.running
  session := (hstays.session h.running).trans h.session
  reader hsome := hstays.waiting h.running h.pipe (h.reader hsome)
  pipe := hstays.pipe.trans h.pipe
  unframed := hstays.unframed.trans h.unframed
  delayed := hstays.delayed.trans h.delayed

theorem Decides.of_before {decision : Option Decision} {between : Connection}
    (hstays : c.Stays between) (hrunning : c.exitCode = none)
    (h : between.Decides decision after) : c.Decides decision after where
  behaviour := h.behaviour.trans hstays.behaviour
  dialogue := h.dialogue.trans hstays.dialogue
  running := h.running
  session := by rw [h.session, hstays.session hrunning]
  reader := h.reader
  pipe := h.pipe
  unframed := h.unframed
  delayed := h.delayed

structure Greets (c after : Connection) : Prop where
  behaviour : after.behaviour = c.behaviour
  running : after.exitCode = none
  unnoticed : after.session.exitNoticed = false
  hasPipes : after.session.hasPipes = true
  spec : after.session.spec = c.session.spec
  published : after.session.published = c.session.published
  versions : after.session.versions = c.session.versions
  pipe : after.pipe = []
  unframed : after.unframed = []
  delayed : after.delayed = []
  dialogue : LeavesDocuments c.dialogue after.dialogue

end Connection

namespace Machine

variable {m after : Machine} {pid : Nat} {c : Connection} {message : Json}

def handedOn (decision : Option Decision) (m : Machine) : Machine :=
  if decision.isSome then { m with awaited := none, turns := m.turns ++ [.handOn] } else m

theorem revise_handedOn (decision : Option Decision) (pid : Nat)
    (change : Connection → Connection) (m : Machine) :
    (m.handedOn decision).revise pid change = (m.revise pid change).handedOn decision := by
  unfold handedOn
  split <;> rfl

theorem handedOn_turns (decision : Option Decision) (m : Machine) :
    (m.handedOn decision).turns = m.turns ++ if decision.isSome then [.handOn] else [] := by
  unfold handedOn
  split
  · rfl
  · rw [List.append_nil]

theorem connection?_handedOn (decision : Option Decision) (m : Machine) (pid : Nat) :
    (m.handedOn decision).connection? pid = m.connection? pid := by
  unfold handedOn
  split <;> rfl

theorem spares_handedOn (decision : Option Decision) (pid : Nat) (m : Machine) :
    m.Spares pid (m.handedOn decision) := by
  unfold handedOn
  split <;> exact ⟨rfl, rfl, fun _ c _ hc => ⟨c, hc, .refl c⟩⟩

theorem isOpen_handedOn {decision : Option Decision} {c' : Connection}
    (hawaited : m.awaited = some (pid, 1)) (hc' : m.connection? pid = some c')
    (hdecides : c.Decides decision c') : (m.handedOn decision).IsOpen := by
  cases decision with
  | some decision => exact .of_none rfl
  | none =>
    intro other id hsome
    obtain ⟨rfl, rfl⟩ := Prod.mk.inj (Option.some.inj (hawaited.symm.trans hsome))
    exact ⟨c', hc', hdecides.running, by rw [hdecides.session]; rfl⟩

theorem comes_handOnDecision_some {id : Nat} {decision : Decision}
    (hawaited : m.awaited = some (pid, id)) (hc : m.connection? pid = some c)
    (hdecision : c.session.decision? id = some decision) :
    Comes handOnDecision m (.ok ()) (m.handedOn (some decision)) := by
  refine Comes.get_bind ?_
  have hsome : (m.session? pid).bind (·.decision? id) = some decision := by
    rw [session?, hc]
    exact hdecision
  simp only [hawaited, hsome, Option.isSome_some, ↓reduceIte]
  exact .of_run rfl

/-- An answer that can be read decides the first request. -/
theorem exists_readContent_answer {name : String} (hname : name = "result" ∨ name = "error")
    {value read : Json} (hread : IsReadAs (ServerBehaviour.answer (.int 1) name value) read) :
    ∃ decision, (name = "result" → ∃ said, decision = .result said) ∧
      ∀ m pid c, m.awaited = some (pid, 1) → m.connection? pid = some c →
        c.session.pending = [(1, none)] →
        Comes (readContent pid (content (ServerBehaviour.answer (.int 1) name value))) m (.ok ())
          ((m.revise pid (Connection.decided decision)).handedOn (some decision)) := by
  obtain ⟨said, rfl⟩ := hread.eq_answer hname
  obtain ⟨decision, hresult, hreceive⟩ := Session.exists_receive_answer hname said
  refine ⟨decision, hresult, fun m pid c hawaited hc hpending => ?_⟩
  obtain ⟨logs, hreceived⟩ := hreceive c.session hpending
  have hsame : m.revise pid (Connection.decided decision) = m.revise pid fun c' => { c' with
      session := { c.session with pending := [(1, some decision)] } } := revise_congr hc rfl
  rw [hread.readContent_eq, hsame]
  refine comes_receive hc hreceived fun journal => ?_
  exact Comes.congr (comes_handOnDecision_some hawaited (connection?_revise hc _) rfl) fun _ => rfl

/-- What cannot be read is passed over or ends the reading. -/
theorem comes_readContent_unread {fault : Json.ReadFault} (hwritten : message.isWellFormed = true)
    (hreread : Json.reread Json.depthLimit message = .error fault) :
    ∃ outcome, ∀ m, Comes (readContent pid (content message)) m outcome m := by
  obtain ⟨hparsed, hread⟩ := parseContent_eq hwritten
  unfold readContent
  rw [hparsed, Json.parse, hread, hreread]
  split
  · exact ⟨_, fun m => .pure () m⟩
  · cases fault with
    | malformed => exact ⟨_, fun m => comes_log ..⟩
    | tooManyDigits => exact ⟨_, fun m => .of_run rfl⟩
    | tooDeep => exact ⟨_, fun m => .of_run rfl⟩

/-- The reader reads what the server has said to the first request. -/
theorem comes_readTurn_greeting (hawaited : m.awaited = some (pid, 1))
    (hc : m.connection? pid = some c) (hasking : c.IsAsking) {octets : Bytes}
    (hgreeting : c.behaviour.greeting? = some message)
    (hoctets : ofMessage? message = some octets) :
    ∃ decision change, Comes (readTurn pid c) m (.ok ())
        ((m.revise pid change).handedOn decision) ∧
      c.Decides decision (change c) ∧
      (c.behaviour.Welcomes → ∃ said, decision = some (.result said)) := by
  obtain ⟨name, value, hname, rfl⟩ := ServerBehaviour.exists_of_greeting? hgreeting
  obtain ⟨hwritten, hmeasurable, rfl⟩ := Connection.ofMessage?_eq_some hoctets
  have hcome := hasking.isAwaiting hgreeting hoctets
  have hwelcomes : c.behaviour.Welcomes → name = "result" ∧ ∃ read,
      IsReadAs (ServerBehaviour.answer (.int 1) name value) read := by
    rintro ⟨value', read, hreply, hread⟩
    rw [ServerBehaviour.greeting?, hreply] at hgreeting
    obtain ⟨rfl, rfl⟩ : "result" = name ∧ value' = value := by
      simpa [ServerBehaviour.answer] using hgreeting
    exact ⟨rfl, read, hread⟩
  cases hreread : Json.reread Json.depthLimit (ServerBehaviour.answer (.int 1) name value) with
  | ok read =>
    have hread : IsReadAs (ServerBehaviour.answer (.int 1) name value) read :=
      ⟨hwritten, hmeasurable, hreread⟩
    obtain ⟨decision, hresult, hcomes⟩ := exists_readContent_answer hname hread
    have htaken : ∀ journal, Comes
        (readContent pid (content (ServerBehaviour.answer (.int 1) name value)))
        ((m.revise pid fun c => { c with pipe := [] }).withJournal journal) (.ok ())
        ((m.revise pid fun c => Connection.decided decision { c with pipe := [] }).handedOn
          (some decision)) := by
      intro journal
      refine Comes.congr (hcomes _ pid _ hawaited (connection?_revise hc _) hasking.pending)
        fun _ => ?_
      rw [revise_withJournal, revise_revise]
      rfl
    refine ⟨some decision,
      fun c => Connection.readOut (.ok ()) (Connection.decided decision { c with pipe := [] }),
      ?_, ?_, fun h => ?_⟩
    · refine Comes.congr (comes_readTurn hc hcome hmeasurable htaken) fun _ => ?_
      rw [revise_handedOn, revise_revise]
    · exact ⟨rfl, rfl, hasking.running, rfl, fun _ => rfl, rfl, rfl, hasking.delayed⟩
    · obtain ⟨said, hsaid⟩ := hresult (hwelcomes h).1
      exact ⟨said, congrArg some hsaid⟩
  | error fault =>
    obtain ⟨outcome, hcomes⟩ := comes_readContent_unread hwritten hreread
    refine ⟨none, fun c => Connection.readOut outcome { c with pipe := [] }, ?_, ?_, fun h => ?_⟩
    · have htaken : ∀ journal, Comes
          (readContent pid (content (ServerBehaviour.answer (.int 1) name value)))
          ((m.revise pid fun c => { c with pipe := [] }).withJournal journal) outcome
          (m.revise pid fun c => { c with pipe := [] }) := fun journal => (hcomes _).journal
      refine Comes.congr (comes_readTurn hc hcome hmeasurable htaken) fun _ => ?_
      rw [revise_revise]
      rfl
    · have hundecided (reader : TaskState) : (none : Option Decision).isSome → reader = .waiting :=
        fun h => absurd h Bool.false_ne_true
      cases outcome with
      | ok _ =>
        exact ⟨rfl, rfl, hasking.running, hasking.session_eq, hundecided _, rfl, rfl,
          hasking.delayed⟩
      | error failure =>
        exact ⟨rfl, rfl, hasking.running, hasking.session_eq, hundecided _, rfl, hasking.unframed,
          hasking.delayed⟩
    · obtain ⟨-, read, hread⟩ := hwelcomes h
      cases hreread.symm.trans hread.reread

/-- Whoever has been handed a decision goes on. -/
theorem takeTurns_handOn (hturns : m.turns = [.handOn]) :
    (takeTurns 3).run m = (.ok (), { m with turns := [] }) := by
  have hm : m = { m with turns := [.handOn] } := by rw [← hturns]
  rw [hm]
  rfl

theorem takeTurns_none (hturns : m.turns = []) :
    (takeTurns 3).run m = (.ok (), { m with turns := [] }) := by
  have hm : m = { m with turns := [] } := by rw [← hturns]
  rw [hm]
  rfl

/-- The reader has its turn and reads what the server has said to the first request. -/
theorem greeted_run {later : List Turn} {octets : Bytes} (hawaited : m.awaited = some (pid, 1))
    (hc : m.connection? pid = some c) (hasking : c.IsAsking)
    (hturns : m.turns = .read pid :: later) (hgreeting : c.behaviour.greeting? = some message)
    (hoctets : ofMessage? message = some octets) :
    ∃ decision told c', (∀ fuel, (takeTurns (fuel + 1)).run m = (takeTurns fuel).run told) ∧
      m.Spares pid told ∧ told.turns = later ++ (if decision.isSome then [.handOn] else []) ∧
      told.IsOpen ∧ told.connection? pid = some c' ∧ c.Decides decision c' ∧
      (c.behaviour.Welcomes → ∃ said, decision = some (.result said)) := by
  let taken : Machine := { m with turns := later }
  have htaken : taken.connection? pid = some c := hc
  have hawaited' : taken.awaited = some (pid, 1) := hawaited
  obtain ⟨decision, change, hturn, hdecides, hwelcomes⟩ :=
    comes_readTurn_greeting hawaited' htaken hasking hgreeting hoctets
  obtain ⟨journal, hrun⟩ := comes_takeTurn_read htaken hasking.reading hturn
  have hspares : m.Spares pid (taken.revise pid change) := ⟨rfl, List.length_modify ..,
    fun other c' hother hc' =>
      ⟨c', (connection?_revise_of_ne (Ne.symm hother) change taken).trans hc', .refl c'⟩⟩
  refine ⟨decision, ((taken.revise pid change).handedOn decision).withJournal journal, change c,
    takeTurns_succ hturns nofun hrun, hspares.trans ?_, handedOn_turns .., ?_, ?_, hdecides,
    hwelcomes⟩
  · obtain ⟨huntouched, hlength, hothers⟩ := spares_handedOn decision pid (taken.revise pid change)
    exact ⟨huntouched, hlength, hothers⟩
  · have hopen : ((taken.revise pid change).handedOn decision).IsOpen :=
      isOpen_handedOn hawaited' (connection?_revise htaken change) hdecides
    exact hopen.of_stays (.of_same rfl rfl rfl)
  · exact (connection?_handedOn ..).trans (connection?_revise htaken change)

/-- The client reads what the server has said to the first request, and goes on when all that is due
is done. -/
theorem giveWay_greeted {octets : Bytes} (hawaited : m.awaited = some (pid, 1))
    (hopen : m.IsOpen) (htasks : ∀ turn ∈ m.turns, ∃ pid, turn.server? = some pid)
    (hothers : ∀ other c, other ≠ pid → m.connection? other = some c → c.IsAtRest)
    (hc : m.connection? pid = some c) (hasking : c.IsAsking) (hmem : .read pid ∈ m.turns)
    (hgreeting : c.behaviour.greeting? = some message)
    (hoctets : ofMessage? message = some octets) :
    ∃ decision after c', giveWay.run m = (.ok (), after) ∧ m.Spares pid after ∧
      after.turns = [] ∧ after.connection? pid = some c' ∧ c.Decides decision c' ∧
      (c.behaviour.Welcomes → ∃ said, decision = some (.result said)) := by
  obtain ⟨waited, later, hwaited, hfirst, hdue, hkept⟩ := takeTurns_until_read hopen htasks hothers
    hc (hasking.isAwaiting hgreeting hoctets) hmem
  obtain ⟨c₁, hc₁, hsame⟩ := hfirst.each pid c hc
  obtain ⟨decision, told, c₂, hrun, hspares, hturns, hopen', hc₂, hdecides, hwelcomes⟩ :=
    greeted_run (hfirst.awaited.trans hawaited) hc₁ (hasking.of_stays hsame) hdue
      ((congrArg _ hsame.behaviour).trans hgreeting) hoctets
  have hbefore := (hfirst.spares pid).trans hspares
  have hunmoved : told.AreUnmoved later := by
    refine ⟨fun turn hturn => htasks turn (hkept turn hturn), fun turn _ other c' _ hc' => ?_⟩
    by_cases hother : other = pid
    · rw [hother, hc₂] at hc'
      obtain rfl := Option.some.inj hc'
      refine .inr ⟨fun _ => ?_, fun _ => ⟨hdecides.pipe, hdecides.unframed⟩⟩
      rw [hdecides.session]
      exact (hasking.of_stays hsame).unnoticed
    · obtain ⟨found, hfound, hstays⟩ := hbefore.exists_before hother hc'
      exact ((hothers other found hother hfound).of_stays hstays).isUnmoved turn
  obtain ⟨left, hlast, hleft, hdrained⟩ := takeTurns_append hopen' hturns hunmoved
  obtain ⟨c', hc', hstays⟩ := hlast.each pid _ hc₂
  have hgone : giveWay.run m = (takeTurns 3).run left := by
    rw [giveWay, run_bind_ok (run_get m), hwaited, hrun, hdrained]
  have hends : (takeTurns 3).run left = (.ok (), { left with turns := [] }) := by
    cases decision with
    | some decision => exact takeTurns_handOn hleft
    | none => exact takeTurns_none hleft
  have hall := hbefore.trans (hlast.spares pid)
  refine ⟨decision, _, c', hgone.trans hends, ⟨hall.untouched, hall.length, hall.others⟩, rfl, hc',
    (hdecides.of_before hsame hasking.running).of_stays hstays, fun h => hwelcomes ?_⟩
  rwa [hsame.behaviour]

/-- The client waits for the first answer until all that is due is done. -/
theorem giveWay_greeting (hawaited : m.awaited = some (pid, 1))
    (htasks : ∀ turn ∈ m.turns, ∃ pid, turn.server? = some pid)
    (hothers : ∀ other c, other ≠ pid → m.connection? other = some c → c.IsAtRest)
    (hc : m.connection? pid = some c) (hasking : c.IsAsking) (hmem : .read pid ∈ m.turns) :
    ∃ decision after c', giveWay.run m = (.ok (), after) ∧ m.Spares pid after ∧
      after.turns = [] ∧ after.connection? pid = some c' ∧ c.Decides decision c' ∧
      (c.behaviour.Welcomes → ∃ said, decision = some (.result said)) := by
  have hopen : m.IsOpen := by
    intro other id hsome
    obtain ⟨rfl, rfl⟩ := Prod.mk.inj (Option.some.inj (hawaited.symm.trans hsome))
    exact ⟨c, hc, hasking.running, by rw [Session.decision?, hasking.pending]; rfl⟩
  cases hoctets : c.behaviour.greeting?.bind ofMessage? with
  | none =>
    have hnothing : c.pipe = [] := by
      rw [hasking.pipe, hoctets]
      rfl
    have hunmoved : m.AreUnmoved m.turns := by
      refine ⟨htasks, fun turn _ other c' _ hc' => ?_⟩
      by_cases hother : other = pid
      · subst hother
        obtain rfl := Option.some.inj (hc.symm.trans hc')
        exact .inr ⟨fun _ => hasking.unnoticed, fun _ => ⟨hnothing, hasking.unframed⟩⟩
      · exact (hothers other c' hother hc').isUnmoved turn
    obtain ⟨after, hrun, hstays, hturns⟩ := giveWay_run hopen hunmoved
    obtain ⟨c', hc', hsame⟩ := hstays.each pid c hc
    have hdecides : c.Decides none c := ⟨rfl, rfl, hasking.running, hasking.session_eq,
      fun h => absurd h Bool.false_ne_true, hnothing, hasking.unframed, hasking.delayed⟩
    refine ⟨none, after, c', hrun, hstays.spares pid, hturns, hc', hdecides.of_stays hsame,
      fun h => ?_⟩
    obtain ⟨octets, hsome⟩ := h.exists_octets
    cases hoctets.symm.trans hsome
  | some octets =>
    obtain ⟨message, hgreeting, hmessage⟩ := Option.bind_eq_some_iff.1 hoctets
    exact giveWay_greeted hawaited hopen htasks hothers hc hasking hmem hgreeting hmessage

/-- A request that is over is forgotten. -/
theorem comes_finishRequest {decision : Option Decision} (hc : m.connection? pid = some c)
    (hpending : c.session.pending = [(1, decision)]) (method : String) :
    Comes (finishRequest pid 1 method) m (outcomeOf decision)
      (m.revise pid fun c => { c with session := c.session.finish 1 }) := by
  have hdecision : (m.session? pid).bind (·.decision? 1) = decision := by
    rw [session?, hc, Option.map_some, Option.bind_some, Session.decision?, hpending]
    rfl
  have hlogged : Comes (logTimeout method decision) m (.ok ()) m := by
    cases decision with
    | some decision => exact .pure () m
    | none => exact comes_log ..
  refine Comes.get_bind ?_
  rw [hdecision]
  refine hlogged.bind fun journal => (comes_updateConnection ..).bind fun journal => ?_
  exact (Comes.ofExcept ..).congr fun _ => rfl

/-- The first request is written to the server. -/
theorem startRequest_run (hc : m.connection? pid = some c) (hnew : c.IsNew)
    (hreading : c.reader ≠ .over) (hendures : c.behaviour.Endures) {params : Json}
    (hwritten : params.isWellFormed = true) :
    let message := Message.request 1 "initialize" (some params)
    let taken := ({ c with session := c.session.begin }.say (.toServer message)).take message
    ∃ after woken, (startRequest pid "initialize" (some params)).run m = (.ok 1, after) ∧
      (m.revise pid fun _ => taken).Stays after ∧ after.turns = m.turns ++ woken ∧
      ∀ turn ∈ woken, ∃ server, turn.server? = some server := by
  intro message taken
  let begun := m.revise pid fun c => { c with session := c.session.begin }
  have hbegun : begun.connection? pid = some { c with session := c.session.begin } :=
    connection?_revise hc _
  have hbegin : (updateSession pid Session.begin).run m = (.ok ⟨⟩, begun) := rfl
  have hid : ((begun.session? pid).map (·.lastId)).getD 0 = 1 := by
    rw [session?, hbegun]
    exact congrArg (· + 1) hnew.lastId
  obtain ⟨journal, hlogged⟩ :=
    comes_log .debug (toString "LSP Request: " ++ toString "initialize") begun
  have hlogged' : (begun.withJournal journal).connection? pid =
      some { c with session := c.session.begin } := hbegun
  obtain ⟨after, woken, hrun, hstays, hturns, htasks, -⟩ := deliver_run hlogged' message
  have hmessage : message.isWellFormed = true := by
    simp [message, Message.request, withParams, Json.isWellFormed, Json.haveWellFormed,
      Message.version, hwritten]
  have halive : taken.hasExited = false := by
    rw [Connection.hasExited, (hnew.isAsking hreading hendures params).1.running]
    rfl
  rw [halive, Bool.and_false] at hrun
  have hsent : (send pid message).run (begun.withJournal journal) = (.ok (), after) :=
    (send_run hlogged' hnew.hasPipes hmessage).trans hrun
  refine ⟨after, woken, ?_, ?_, hturns, htasks⟩
  · rw [startRequest, run_bind_ok hbegin, run_bind_ok (run_get begun)]
    simp only [hid]
    rw [run_bind_ok hlogged, run_bind_ok hsent]
    rfl
  · refine Stays.trans ?_ hstays
    rw [revise_withJournal, revise_revise]
    exact .of_same rfl rfl rfl

/-- The client sends its first request and waits for the answer. -/
theorem request_run (h : m.IsAtRest (· = pid)) (hc : m.connection? pid = some c) (hnew : c.IsNew)
    (hreading : c.reader ≠ .over) (hmem : .read pid ∈ m.turns) (hendures : c.behaviour.Endures)
    {params : Json} (hwritten : params.isWellFormed = true) :
    ∃ outcome after c', (request pid "initialize" (some params)).run m = (outcome, after) ∧
      m.Spares pid after ∧ after.IsAtRest (· = pid) ∧ after.connection? pid = some c' ∧
      c.Greets c' ∧ (∀ said, outcome = .ok said → c'.reader = .waiting) ∧
      (c.behaviour.Welcomes → ∃ said, outcome = .ok said) := by
  obtain ⟨sent, woken, hstart, hstays, hturns, htasks⟩ :=
    startRequest_run hc hnew hreading hendures hwritten
  obtain ⟨hasking, hbehaviour, hsession, more, hdialogue, hmore⟩ :=
    hnew.isAsking hreading hendures params
  generalize ({ c with session := c.session.begin }.say (.toServer
    (Message.request 1 "initialize" (some params)))).take
      (Message.request 1 "initialize" (some params)) = taken at *
  obtain ⟨c₁, hc₁, hsame⟩ := hstays.each pid taken (connection?_revise hc _)
  let asked : Machine := { sent with awaited := some (pid, 1) }
  have hspares : m.Spares pid sent := (spares_revise pid _ m).trans (hstays.spares pid)
  have hdue : ∀ turn ∈ sent.turns, ∃ server, turn.server? = some server := by
    rw [hturns]
    intro turn hturn
    exact (List.mem_append.1 hturn).elim (h.tasks turn) (htasks turn)
  have hothers : ∀ other c, other ≠ pid → asked.connection? other = some c → c.IsAtRest := by
    intro other c' hother hc'
    obtain ⟨found, hfound, hstays⟩ := hspares.exists_before hother hc'
    exact (h.connections other found hother hfound).of_stays hstays
  have hread : .read pid ∈ asked.turns := by
    change _ ∈ sent.turns
    rw [hturns]
    exact List.mem_append_left woken hmem
  have hawaited : asked.awaited = some (pid, 1) := rfl
  obtain ⟨decision, after, c₂, hway, hspared, hnone, hc₂, hdecides, hwelcomes⟩ :=
    giveWay_greeting hawaited hdue hothers hc₁ (hasking.of_stays hsame) hread
  let waited : Machine := { after with awaited := none }
  have hawait : (awaitDecision pid 1).run sent = (.ok ⟨⟩, waited) := by
    rw [awaitDecision, run_bind_ok (run_modify _ sent), run_bind_ok hway, run_modify]
  have hwaited : waited.connection? pid = some c₂ := hc₂
  obtain ⟨journal, hfinish⟩ := comes_finishRequest hwaited (by rw [hdecides.session]) "initialize"
  let final : Machine :=
    (waited.revise pid fun c => { c with session := c.session.finish 1 }).withJournal journal
  have hall : m.Spares pid final := by
    have hspared' : sent.Spares pid waited := ⟨hspared.untouched, hspared.length, hspared.others⟩
    obtain ⟨huntouched, hlength, hothers⟩ :=
      (hspares.trans hspared').trans (spares_revise pid _ waited)
    exact ⟨huntouched, hlength, hothers⟩
  refine ⟨outcomeOf decision, final, { c₂ with session := c₂.session.finish 1 }, ?_, hall,
    h.spared hall rfl ?_, connection?_revise hwaited _, ?_, ?_, ?_⟩
  · rw [request, run_bind_ok hstart, run_bind_ok hawait, hfinish]
  · change ∀ turn ∈ after.turns, _
    rw [hnone]
    exact fun _ hturn => absurd hturn List.not_mem_nil
  · have hsession' : c₂.session.finish 1 = { c.session.begin with pending := [] } := by
      rw [hdecides.session, hsame.session hasking.running, hsession]
      rfl
    refine ⟨hdecides.behaviour.trans (hsame.behaviour.trans hbehaviour), hdecides.running, ?_, ?_,
      (congrArg Session.spec hsession').trans rfl, (congrArg Session.published hsession').trans rfl,
      (congrArg Session.versions hsession').trans rfl, hdecides.pipe, hdecides.unframed,
      hdecides.delayed, _, hdecides.dialogue.trans (hsame.dialogue.trans hdialogue), ?_⟩
    · exact (congrArg Session.exitNoticed hsession').trans hnew.unnoticed
    · exact (congrArg Session.hasPipes hsession').trans hnew.hasPipes
    · intro message hmem
      obtain rfl : message = Message.request 1 "initialize" (some params) := by
        change message ∈ _ :: written more at hmem
        rwa [written_eq_nil hmore, List.mem_singleton] at hmem
      exact not_isAboutDocument_request 1 _ _
  · intro said hsaid
    refine hdecides.reader ?_
    cases decision with
    | some decision => rfl
    | none => cases hsaid
  · intro h
    obtain ⟨said, rfl⟩ := hwelcomes (by rwa [hsame.behaviour, hbehaviour])
    exact ⟨said, rfl⟩

end Machine

end ProjectCheck
