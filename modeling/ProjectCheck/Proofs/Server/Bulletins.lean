import ProjectCheck.Proofs.Machine.Calm
import ProjectCheck.Proofs.Machine.Delivery
import ProjectCheck.Proofs.Text.Loose

/-!
Messages that a client can read. A server's message may be too large to be measured or nested too
deeply to be read; one that is neither is taken as the value that it is read as.
-/
namespace ProjectCheck

open Run Frame

structure IsReadAs (message value : Json) : Prop where
  written : message.isWellFormed = true
  measurable : isMeasurable (content message) = true
  reread : Json.reread Json.depthLimit message = .ok value

namespace IsReadAs

variable {message value : Json}

/-- What can be read is sent and comes to the client as one frame. -/
theorem post_eq (h : IsReadAs message value) (delay : Nat) (c : Connection) :
    c.post delay message =
      (c.say (.fromServer message)).bring delay (ofContent (content message)) := by
  rw [Connection.post, ofMessage?, h.written, h.measurable]
  rfl

theorem readContent_eq (h : IsReadAs message value) (pid : Nat) :
    Machine.readContent pid (content message) = Machine.receive pid value := by
  have hparsed : Machine.parseContent (content message) = .ok value := by
    obtain ⟨hparsed, hread⟩ := Machine.parseContent_eq h.written
    rw [hparsed, Json.parse, hread, h.reread]
  have hsome : (content message).isEmpty = false := by
    rw [List.isEmpty_eq_false_iff]
    intro hnil
    rw [hnil] at hparsed
    cases hparsed
  unfold Machine.readContent
  simp only [hsome, Bool.false_eq_true, ↓reduceIte, hparsed]

end IsReadAs

namespace Session

def withPublished (uri : String) (items : List Json) (s : Session) : Session :=
  { s with published := s.published.set (Uri.key uri) (.array items) }

theorem hasPublished_withPublished (s : Session) (uri : String) (items : List Json) :
    (s.withPublished uri items).hasPublished uri = true := by
  rw [hasPublished, withPublished, Members.has, Members.get?_set_self]
  rfl

theorem diagnostics_withPublished (s : Session) (uri : String) (items : List Json) :
    (s.withPublished uri items).diagnostics uri = .ok items := by
  rw [diagnostics, withPublished, Members.get?_set_self]
  rfl

/-- Items that are published for a document are kept, and nothing is sent back. -/
theorem receive_items (s : Session) {uri : String} (huri : uri ≠ "") (items : List Json) :
    s.receive (ServerBehaviour.publish uri (.array items)) =
      { session := s.withPublished uri items
        logs := [s!"Received diagnostics for {uri}: {items.length} issues"] } := by
  have htruthy : (Json.string uri).isTruthy = true := by
    simp [Json.isTruthy, huri]
  change s.publish [("uri", .string uri), ("diagnostics", .array items)] = _
  simp only [publish, Members.get?, ↓reduceIte, Option.getD_some, htruthy, String.reduceEq,
    uriText, keepFor, Json.asString?, Json.itemCount, Json.items, withPublished,
    LooseText.toString_ofString]
  rfl

/-- An answer decides the first request. -/
theorem exists_receive_answer {name : String} (hname : name = "result" ∨ name = "error")
    (value : Json) :
    ∃ decision, (name = "result" → ∃ said, decision = .result said) ∧
      ∀ s : Session, s.pending = [(1, none)] →
        ∃ logs, s.receive (ServerBehaviour.answer (.int 1) name value) =
          { session := { s with pending := [(1, some decision)] }, logs } := by
  let message : Members Json := [Message.version, ("id", .int 1), (name, value)]
  refine ⟨decisionOf message, ?_, fun s hpending => ?_⟩
  · rintro rfl
    cases value <;> exact ⟨_, rfl⟩
  · have hreceived : s.receive (.object message) = s.receiveAnswer message (.int 1) := by
      rcases hname with rfl | rfl <;> rfl
    have hdecided : s.decide 1 (decisionOf message) =
        { s with pending := [(1, some (decisionOf message))] } := by
      rw [decide, hpending]
      rfl
    refine ⟨(s.receiveAnswer message (.int 1)).logs, hreceived.trans ?_⟩
    rw [← hdecided]
    simp only [receiveAnswer, hpending]
    rfl

end Session

/-- What a client makes of an answer is an answer again. -/
theorem IsReadAs.eq_answer {name : String} (hname : name = "result" ∨ name = "error")
    {value read : Json} (h : IsReadAs (ServerBehaviour.answer (.int 1) name value) read) :
    ∃ said, read = ServerBehaviour.answer (.int 1) name said := by
  obtain ⟨depth, hdepth⟩ : ∃ depth, Json.depthLimit = depth + 1 := ⟨_, rfl⟩
  have hread := h.reread
  rw [hdepth, ServerBehaviour.answer, Json.reread] at hread
  change Except.map Json.object (Json.reread depth value >>= fun said =>
    .ok (((Members.set "jsonrpc" (.string "2.0") []).set "id" (.int 1)).set name said)) = _ at hread
  cases hvalue : Json.reread depth value with
  | error fault =>
    rw [hvalue] at hread
    cases hread
  | ok said =>
    rw [hvalue] at hread
    refine ⟨said, (Except.ok.inj hread).symm.trans ?_⟩
    rcases hname with rfl | rfl <;> rfl

end ProjectCheck
