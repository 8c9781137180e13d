import ProjectCheck.Proofs.Server.Publications
import ProjectCheck.Proofs.Server.Requests
import ProjectCheck.Proofs.Server.Takeable

/-!
Contents that are no proper messages. Some of them can be passed over or taken like any other, and
the reader goes on behind them; the others end it, and all that comes after them is lost. As long as
the reader goes on, what else stands in a stream matters only to the requests that it answers and to
the documents that it publishes for.
-/
namespace ProjectCheck

open Run Machine Frame

namespace Machine

variable {pid : Nat} {m : Machine} {s : Session}

/-! One content. -/

theorem session_eq {c : Connection} (hs : m.session? pid = some s)
    (hc : m.connection? pid = some c) : c.session = s := by
  rw [session?, hc] at hs
  exact Option.some.inj hs

theorem handOnDecision_run (m : Machine) : ∃ after, handOnDecision.run m = (.ok (), after) := by
  unfold handOnDecision
  rw [run_bind_ok (run_get m)]
  split
  · split <;> exact ⟨_, rfl⟩
  · exact ⟨_, rfl⟩

/-- A request of a server that is alive is answered if the answer can be written. -/
theorem ends_send_emptyReply (hs : m.session? pid = some s) (hpipes : s.hasPipes = true)
    (halive : IsAlive pid m) (id : Json) :
    Ends (send pid (Message.emptyReply id)) m fun result _ =>
      (result = .ok () ↔ (Message.emptyReply id).isWellFormed = true) := by
  obtain ⟨c, hc, -, hrunning⟩ := halive
  obtain rfl := session_eq hs hc
  cases hwritten : (Message.emptyReply id).isWellFormed with
  | true =>
    obtain ⟨after, woken, hrun, -⟩ := deliver_run hc (Message.emptyReply id)
    have hexited : (c.say (.toServer (Message.emptyReply id))).hasExited = false := by
      change c.exitCode.isSome = false
      rw [hrunning]
      rfl
    rw [take_emptyReply, hexited, Bool.and_false] at hrun
    rw [Ends, send_run hc hpipes hwritten, hrun]
    exact iff_of_true rfl rfl
  | false =>
    have hrun : (send pid (Message.emptyReply id)).run m = (.error .unencodable, m) := by
      rw [send, run_bind_ok (run_get m)]
      simp only [hc, hpipes, hwritten, Bool.not_true, Bool.not_false, Bool.false_eq_true,
        ↓reduceIte]
      rfl
    rw [Ends, hrun]
    exact iff_of_false error_ne_ok Bool.false_ne_true

/-- A message is taken to its end exactly when it can be taken. -/
theorem ends_receive_iff (hs : m.session? pid = some s) (hpipes : s.hasPipes = true)
    (halive : IsAlive pid m) (message : Json) :
    Ends (receive pid message) m fun result _ =>
      (result = .ok () ↔ message.isTakeable = true) := by
  let reception := s.receive message
  let revised := m.revise pid fun c => { c with session := reception.session }
  obtain ⟨pending, published, halike⟩ := s.alike_receive message
  have hnoticed : reception.session.exitNoticed = s.exitNoticed := congrArg (·.exitNoticed) halike
  have hpiped : reception.session.hasPipes = true := (congrArg (·.hasPipes) halike).trans hpipes
  have hrevised : revised.session? pid = some reception.session :=
    session?_revise hs fun _ => reception.session
  have hstays : IsAlive pid revised := by
    refine isAlive_revise (fun c hc => ⟨?_, rfl⟩) halive
    obtain rfl := session_eq hs hc
    exact hnoticed
  obtain ⟨handed, hhanded⟩ := handOnDecision_run revised
  obtain ⟨journal, hlogged⟩ := comes_debug reception.logs handed
  have hkept : KeepsSession pid revised handed ∧ IsAlive pid handed := by
    have hsame := (lenient_keepsSession pid).moves_handOnDecision revised
    have hlives := (lenient_isAlive pid).moves_handOnDecision revised
    rw [Moves, Ends, hhanded] at hsame hlives
    exact ⟨hsame, hlives hstays⟩
  have hreply : Ends (reception.reply.forM (send pid)) (handed.withJournal journal)
      fun result _ => (result = .ok () ↔
        ∀ reply, reception.reply = some reply → reply.isWellFormed = true) := by
    cases hsome : reception.reply with
    | none => exact Ends.pure (iff_of_true rfl fun _ h => absurd h.symm (Option.some_ne_none _))
    | some reply =>
      obtain ⟨id, rfl⟩ := Session.reply_receive hsome
      have hsent := ends_send_emptyReply (m := handed.withJournal journal)
        (hkept.1.trans hrevised) hpiped hkept.2 id
      refine hsent.mono fun result _ h => h.trans ?_
      exact ⟨fun hwritten reply heq => Option.some.inj heq ▸ hwritten, fun h => h _ rfl⟩
  rw [← s.takes_receive_iff message]
  refine Ends.get_bind ?_
  rw [hs]
  refine Ends.bind_of_run (run_modify _ m) (Ends.bind_of_run hhanded (Ends.bind_of_run hlogged ?_))
  refine Ends.bind_of hreply (fun _ after hwritten => ?_) fun failure after hunwritten => ?_
  · cases hfailure : reception.failure with
    | none => exact iff_of_true rfl ⟨hfailure, hwritten.1 rfl⟩
    | some failure =>
      exact iff_of_false error_ne_ok fun htakes =>
        Option.some_ne_none _ (hfailure.symm.trans htakes.1)
  · exact iff_of_false error_ne_ok fun htakes => error_ne_ok (hunwritten.2 htakes.2)

def isHarmless (content : Bytes) : Bool :=
  match parseContent content with
  | .ok message => message.isTakeable
  | .error .undecodable | .error .malformedJson => true
  | .error _ => false

def meaning? (content : Bytes) : Option Json := (parseContent content).toOption

/-- A content is read to its end exactly when it is harmless. Even where it is not, the session is
the one after the message that it is taken for. -/
theorem ends_readContent (hs : m.session? pid = some s) (hpipes : s.hasPipes = true)
    (halive : IsAlive pid m) (content : Bytes) :
    Ends (readContent pid content) m fun result after =>
      (result = .ok () ↔ isHarmless content = true) ∧
      after.session? pid =
        some (((meaning? content).map fun message => (s.receive message).session).getD s) ∧
      IsAlive pid after := by
  have hempty : isHarmless [] = true ∧ meaning? [] = none := by decide
  unfold readContent
  split
  · rename_i hnil
    obtain rfl : content = [] := List.isEmpty_iff.1 hnil
    rw [hempty.2]
    exact Ends.pure ⟨iff_of_true rfl hempty.1, hs, halive⟩
  · unfold isHarmless meaning?
    cases parseContent content with
    | ok message =>
      exact ⟨ends_receive_iff hs hpipes halive message, ends_receive hs message,
        isAlive_receive pid message m halive⟩
    | error failure =>
      cases failure with
      | undecodable | malformedJson => exact ⟨iff_of_true rfl rfl, hs, halive⟩
      | _ => exact ⟨iff_of_false error_ne_ok Bool.false_ne_true, hs, halive⟩

theorem isHarmless_content {message : Json} (h : message.isLossless Json.depthLimit = true) :
    isHarmless (content message) = message.isTakeable := by
  rw [isHarmless, parseContent_content h]

/-! All contents of a stream. -/

def reached : List Bytes → List Bytes
  | [] => []
  | content :: rest => if isHarmless content then content :: reached rest else [content]

theorem reached_subset (contents : List Bytes) : reached contents ⊆ contents := by
  induction contents with
  | nil => exact fun _ h => h
  | cons content rest ih =>
    rw [reached]
    split
    · exact List.cons_subset_cons content ih
    · exact List.cons_subset.2 ⟨List.mem_cons_self .., List.nil_subset _⟩

/-- Contents that are left out do not matter to how far the reader comes, as long as they are
harmless. -/
theorem reached_filter {keeps : Bytes → Bool} {contents : List Bytes}
    (h : ∀ content ∈ contents, keeps content = false → isHarmless content = true) :
    reached (contents.filter keeps) = (reached contents).filter keeps := by
  induction contents with
  | nil => rfl
  | cons content rest ih =>
    obtain ⟨hfirst, hrest⟩ := List.forall_mem_cons.1 h
    cases hkept : keeps content with
    | true =>
      rw [List.filter_cons_of_pos hkept, reached, reached, ih hrest]
      split
      · rw [List.filter_cons_of_pos hkept]
      · rw [List.filter_cons_of_pos hkept, List.filter_nil]
    | false =>
      have hleft : ¬ keeps content = true := Bool.eq_false_iff.1 hkept
      rw [List.filter_cons_of_neg hleft, ih hrest, reached, if_pos (hfirst hkept),
        List.filter_cons_of_neg hleft]

def meanings (contents : List Bytes) : List Json := contents.filterMap meaning?

theorem meanings_cons (content : Bytes) (rest : List Bytes) :
    meanings (content :: rest) = (meaning? content).toList ++ meanings rest := by
  rw [meanings, List.filterMap_cons]
  cases meaning? content <;> rfl

theorem reverse_meanings (contents : List Bytes) :
    (meanings contents).reverse = meanings contents.reverse :=
  (List.filterMap_reverse ..).symm

theorem findSome?_meanings_cons {α : Type} (f : Json → Option α) (content : Bytes)
    (rest : List Bytes) :
    (meanings (content :: rest)).findSome? f =
      ((meaning? content).bind f).or ((meanings rest).findSome? f) := by
  rw [meanings_cons, List.findSome?_append]
  cases meaning? content with
  | none => rfl
  | some message => exact congrArg (Option.or · _) (List.findSome?_singleton ..)

theorem findSome?_meanings_filter {α : Type} {f : Json → Option α} {keeps : Bytes → Bool}
    {contents : List Bytes}
    (h : ∀ content ∈ contents, keeps content = false → (meaning? content).bind f = none) :
    (meanings (contents.filter keeps)).findSome? f = (meanings contents).findSome? f := by
  induction contents with
  | nil => rfl
  | cons content rest ih =>
    obtain ⟨hfirst, hrest⟩ := List.forall_mem_cons.1 h
    rw [findSome?_meanings_cons, ← ih hrest]
    cases hkept : keeps content with
    | true => rw [List.filter_cons_of_pos hkept, findSome?_meanings_cons]
    | false =>
      rw [List.filter_cons_of_neg (Bool.eq_false_iff.1 hkept), hfirst hkept, Option.none_or]

end Machine

namespace Session

def afterContents (s : Session) (contents : List Bytes) : Session :=
  s.after ((meanings contents).map .message)

variable {keeps : Bytes → Bool} {contents : List Bytes}

theorem lookup_afterContents (s : Session) (contents : List Bytes) (number : Nat) :
    (s.afterContents contents).pending.lookup number =
      (s.pending.lookup number).map fun known =>
        known.or ((meanings contents).findSome? (·.answer? number)) :=
  lookup_messages s (meanings contents) number

theorem get?_published_afterContents (s : Session) (contents : List Bytes) (key : String) :
    (s.afterContents contents).published.get? key =
      ((meanings contents).reverse.findSome? (·.publishedFor? key)).or (s.published.get? key) := by
  rw [afterContents, get?_published_after, messagesOf_map]

/-- Contents that answer a request with a number in no way do not matter to it. -/
theorem decision?_filter (s : Session) {number : Nat}
    (h : ∀ content ∈ contents, keeps content = false →
      (meaning? content).bind (·.answer? number) = none) :
    (s.afterContents (contents.filter keeps)).decision? number =
      (s.afterContents contents).decision? number := by
  rw [decision?, decision?, lookup_afterContents, lookup_afterContents, findSome?_meanings_filter h]

/-- Contents that publish nothing for a document do not matter to it. -/
theorem published_filter (s : Session) {key : String}
    (h : ∀ content ∈ contents, keeps content = false →
      (meaning? content).bind (·.publishedFor? key) = none) :
    (s.afterContents (contents.filter keeps)).published.get? key =
      (s.afterContents contents).published.get? key := by
  rw [get?_published_afterContents, get?_published_afterContents, reverse_meanings,
    reverse_meanings, ← List.filter_reverse,
    findSome?_meanings_filter fun content hmem => h content (List.mem_reverse.1 hmem)]

end Session

namespace Machine

variable {pid : Nat} {m : Machine} {s : Session} {contents pieces : List Bytes}

theorem ends_forM_readContent (hs : m.session? pid = some s) (hpipes : s.hasPipes = true)
    (halive : IsAlive pid m) (contents : List Bytes) :
    Ends (contents.forM (readContent pid)) m fun result after =>
      (result = .ok () ↔ ∀ content ∈ contents, isHarmless content = true) ∧
      after.session? pid = some (s.afterContents (reached contents)) ∧ IsAlive pid after := by
  induction contents generalizing m s with
  | nil => exact Ends.pure ⟨iff_of_true rfl fun _ hmem => absurd hmem List.not_mem_nil, hs, halive⟩
  | cons content rest ih =>
    let next := ((meaning? content).map fun message => (s.receive message).session).getD s
    have hafter (others : List Bytes) : s.afterContents (content :: others) =
        next.afterContents others := by
      simp only [Session.afterContents, meanings_cons, next]
      cases meaning? content <;> rfl
    have hpiped : next.hasPipes = true := by
      simp only [next]
      cases meaning? content with
      | none => exact hpipes
      | some message => exact (s.hasPipes_receive message).trans hpipes
    refine Ends.bind_of (ends_readContent hs hpipes halive content) (fun _ between h => ?_)
      fun failure after h => ?_
    · obtain ⟨hharmless, hsession, hlives⟩ := h
      rw [reached, if_pos (hharmless.1 rfl), hafter, List.forall_mem_cons,
        and_iff_right (hharmless.1 rfl)]
      exact ih hsession hpiped hlives
    · obtain ⟨hharmless, hsession, hlives⟩ := h
      have hharmful : ¬ isHarmless content = true := fun hok => error_ne_ok (hharmless.2 hok)
      rw [reached, if_neg hharmful, hafter]
      exact ⟨iff_of_false error_ne_ok fun hall => hharmful (hall content (List.mem_cons_self ..)),
        hsession, hlives⟩

structure ComeIn (contents pieces : List Bytes) : Prop where
  measurable : ∀ content ∈ contents, isMeasurable content = true
  nonempty : [] ∉ pieces
  flatten : pieces.flatten = contents.flatMap ofContent

/-- Frames can come one by one. -/
theorem comeIn_frames (h : ∀ content ∈ contents, isMeasurable content = true) :
    ComeIn contents (contents.map ofContent) where
  measurable := h
  nonempty := fun hmem => by
    obtain ⟨content, -, hempty⟩ := List.mem_map.1 hmem
    exact ofContent_ne_nil content hempty
  flatten := (List.flatMap_def ..).symm

/-- A stream is read to its end exactly when all contents are harmless. -/
theorem ComeIn.ends_readPieces (h : ComeIn contents pieces) (hs : m.session? pid = some s)
    (hpipes : s.hasPipes = true) (halive : IsAlive pid m) :
    Ends (readPieces pid [] pieces) m fun result after =>
      ((∃ failure, result = .error failure) ∨ result = .ok (some [])) ∧
      (result = .ok (some []) ↔ ∀ content ∈ contents, isHarmless content = true) ∧
      after.session? pid = some (s.afterContents (reached contents)) := by
  have hcontents := ends_forM_readContent hs hpipes halive contents
  rw [Ends, readPieces_all halive h.measurable h.flatten, run_bind]
  rw [Ends] at hcontents
  rcases hrun : (contents.forM (readContent pid)).run m with ⟨failure | _, after⟩ <;>
    rw [hrun] at hcontents
  · obtain ⟨hharmless, hsession, -⟩ := hcontents
    have hends : ¬ ∀ content ∈ contents, isHarmless content = true := fun hall =>
      error_ne_ok (hharmless.2 hall)
    exact ⟨.inl ⟨failure, rfl⟩, iff_of_false error_ne_ok hends, hsession⟩
  · obtain ⟨hharmless, hsession, -⟩ := hcontents
    exact ⟨.inr rfl, iff_of_true rfl (hharmless.1 rfl), hsession⟩

theorem ComeIn.ends_readStream (h : ComeIn contents pieces) (hs : m.session? pid = some s)
    (hpipes : s.hasPipes = true) (halive : IsAlive pid m) :
    Ends (readStream pid pieces) m fun result after =>
      (result = .ok () ↔ ∀ content ∈ contents, isHarmless content = true) ∧
      after.session? pid = some (s.afterContents (reached contents)) := by
  have hpiped : ((m.session? pid).map (·.hasPipes)).getD false = true := by
    rw [hs]
    exact hpipes
  have hpieces := h.ends_readPieces hs hpipes halive
  rw [Ends, readStream_run hpiped h.nonempty, run_bind]
  rw [Ends] at hpieces
  rcases hrun : (readPieces pid [] pieces).run m with ⟨failure | left, after⟩ <;>
    rw [hrun] at hpieces
  · obtain ⟨-, hharmless, hsession⟩ := hpieces
    have hends : ¬ ∀ content ∈ contents, isHarmless content = true := fun hall =>
      error_ne_ok (hharmless.2 hall)
    exact ⟨iff_of_false error_ne_ok hends, hsession⟩
  · obtain ⟨⟨failure, hfailed⟩ | hleft, hharmless, hsession⟩ := hpieces
    · cases hfailed
    · obtain rfl := Except.ok.inj hleft
      have hkept := (lenient_keepsSession pid).moves_log .debug
        "LSP Client: No more data from server, stopping reader" after
      exact ⟨iff_of_true rfl (hharmless.1 rfl), hkept.trans hsession⟩

/-- A stream is read to its end exactly when all its contents are harmless; otherwise the reader
ends with the first that is not, and what comes after it is lost. Of the contents that the reader
comes to, the first answer to a request decides it, and the last publication for a document counts.
Harmless contents can be left out: what is decided and what is published stays the same, but for the
requests that they answer and the documents that they publish for. -/
theorem only_harmful_contents_end_reading (m : Machine) (pid : Nat) (s : Session)
    (hs : m.session? pid = some s) (hpipes : s.hasPipes = true) (halive : IsAlive pid m)
    (contents pieces : List Bytes) (hcome : ComeIn contents pieces) :
    let reading := (readStream pid pieces).run m
    let after := s.afterContents (reached contents)
    (reading.1 = .ok () ↔ ∀ content ∈ contents, isHarmless content = true) ∧
    (reading.1 = .ok () → ((readPieces pid [] pieces).run m).1 = .ok (some [])) ∧
    reading.2.session? pid = some after ∧
    (∀ number, after.pending.lookup number = (s.pending.lookup number).map fun known =>
      known.or ((meanings (reached contents)).findSome? (·.answer? number))) ∧
    (∀ key, after.published.get? key =
      ((meanings (reached contents)).reverse.findSome? (·.publishedFor? key)).or
        (s.published.get? key)) ∧
    ∀ (keeps : Bytes → Bool) (others : List Bytes), ComeIn (contents.filter keeps) others →
      (∀ content ∈ contents, keeps content = false → isHarmless content = true) →
      ∃ less, ((readStream pid others).run m).2.session? pid = some less ∧
        (∀ number, (∀ content ∈ contents, keeps content = false →
            (meaning? content).bind (·.answer? number) = none) →
          less.decision? number = after.decision? number) ∧
        ∀ key, (∀ content ∈ contents, keeps content = false →
            (meaning? content).bind (·.publishedFor? key) = none) →
          less.published.get? key = after.published.get? key := by
  intro reading after
  have hreading := hcome.ends_readStream hs hpipes halive
  refine ⟨hreading.1, fun hok => ?_, hreading.2, s.lookup_afterContents _,
    s.get?_published_afterContents _, fun keeps others hothers hharmless => ?_⟩
  · exact (hcome.ends_readPieces hs hpipes halive).2.1.2 (hreading.1.1 hok)
  · have hless := (hothers.ends_readStream hs hpipes halive).2
    rw [reached_filter hharmless] at hless
    refine ⟨_, hless, fun number hanswer => ?_, fun key hpublished => ?_⟩
    · exact s.decision?_filter fun content hmem => hanswer content (reached_subset _ hmem)
    · exact s.published_filter fun content hmem => hpublished content (reached_subset _ hmem)

/-- A list ends the reader, and the publication after it is lost. The content before both, which is
no JSON text, can be left out. -/
theorem only_harmful_contents_end_reading_list :
    let contents := [[63], content (.array []),
      content (ServerBehaviour.publish "file:///a.py" (.array []))]
    let reading := (readStream 0 (contents.map ofContent)).run bareClient
    let others := (contents.filter (· ≠ [63])).map ofContent
    reading.1 ≠ .ok () ∧ reading.2.session? 0 = some {} ∧
      ∃ less, ((readStream 0 others).run bareClient).2.session? 0 = some less ∧
        less.published.get? "file:///a.py" = none := by
  have hmeasurable : ∀ octets ∈ [[63], content (.array []),
      content (ServerBehaviour.publish "file:///a.py" (.array []))],
      isMeasurable octets = true := by
    decide +kernel
  have htext : isHarmless [63] = true ∧ meaning? [63] = none := by decide
  have hlist : isHarmless (content (.array [])) = false := by
    rw [isHarmless_content (by decide)]
    rfl
  intro contents reading others
  have hreached : reached contents = [[63], content (.array [])] := by
    rw [reached, if_pos htext.1, reached, hlist]
    rfl
  have hafter : Session.afterContents {} (reached contents) = {} := by
    rw [hreached, Session.afterContents, meanings_cons, htext.2, meanings_cons, meaning?,
      parseContent_content (by decide)]
    rfl
  have hleft : ∀ octets ∈ contents, decide (octets ≠ [63]) = false → octets = [63] :=
    fun octets _ hleft => by simpa using hleft
  obtain ⟨hends, -, hsession, -, -, hsame⟩ := only_harmful_contents_end_reading bareClient 0 {} rfl
    rfl ⟨_, rfl, rfl, rfl⟩ contents _ (comeIn_frames hmeasurable)
  obtain ⟨less, hless, -, hpublished⟩ := hsame (· ≠ [63]) others
    (comeIn_frames fun octets hmem => hmeasurable octets (List.mem_filter.1 hmem).1)
    fun octets hmem hkept => hleft octets hmem hkept ▸ htext.1
  rw [hafter] at hsession hpublished
  refine ⟨fun hok => ?_, hsession, less, hless, ?_⟩
  · have hall := hends.1 hok (content (.array []))
      (List.mem_cons_of_mem _ (List.mem_cons_self ..))
    rw [hlist] at hall
    cases hall
  · refine hpublished "file:///a.py" fun octets hmem hkept => ?_
    rw [hleft octets hmem hkept, htext.2]
    rfl

end Machine

end ProjectCheck
