import ProjectCheck.Server.Session

/-!
What taking a message does to a session. The numbers of its requests, its server and its view of the
server's end stay as they are whatever the message is, and the only thing that is ever sent back is
the empty answer to a request of the server.
-/
namespace ProjectCheck.Session

def Alike (s after : Session) : Prop :=
  ∃ pending published, after = { s with pending, published }

theorem Alike.refl (s : Session) : Alike s s := ⟨s.pending, s.published, rfl⟩

theorem alike_keepFor (s : Session) (uri diagnostics : Json) :
    Alike s (s.keepFor uri diagnostics) := by
  unfold keepFor
  split
  · exact ⟨s.pending, _, rfl⟩
  · exact .refl s

theorem alike_publish (s : Session) (params : Members Json) :
    Alike s (s.publish params).session := by
  unfold publish
  simp only
  split
  · exact .refl s
  · exact .refl s
  · split
    · exact .refl s
    · split <;> exact alike_keepFor s _ _

theorem alike_receiveCall (s : Session) (message : Members Json) :
    Alike s (s.receiveCall message).session := by
  unfold receiveCall
  simp only
  split
  · split
    · exact alike_publish s _
    · exact .refl s
  · split
    · split <;> exact .refl s
    · split <;> exact .refl s

theorem alike_receiveAnswer (s : Session) (message : Members Json) (id : Json) :
    Alike s (s.receiveAnswer message id).session := by
  unfold receiveAnswer
  split
  · exact .refl s
  · exact .refl s
  · split
    · exact .refl s
    · exact ⟨_, s.published, rfl⟩

theorem alike_receive (s : Session) (message : Json) : Alike s (s.receive message).session := by
  unfold receive
  split
  · split
    · exact alike_receiveAnswer s _ _
    · exact alike_receiveCall s _
  · exact .refl s

theorem reply_publish (s : Session) (params : Members Json) : (s.publish params).reply = none := by
  unfold publish
  simp only
  split
  · rfl
  · rfl
  · split
    · rfl
    · split <;> rfl

theorem reply_receiveAnswer (s : Session) (message : Members Json) (id : Json) :
    (s.receiveAnswer message id).reply = none := by
  unfold receiveAnswer
  split
  · rfl
  · rfl
  · split <;> rfl

/-- A call is answered only when it is a request, that is when it has a number. -/
theorem reply_receiveCall {s : Session} {message : Members Json} {reply : Json}
    (h : (s.receiveCall message).reply = some reply) :
    ∃ id, message.get? "id" = some id ∧ reply = Message.emptyReply id := by
  unfold receiveCall at h
  simp only at h
  split at h
  · split at h
    · rw [reply_publish] at h
      cases h
    · cases h
  · split at h
    · split at h <;> cases h
    · split at h
      · rename_i id hid
        exact ⟨id, hid, (Option.some.inj h).symm⟩
      · cases h

/-- What is sent back is the empty answer to a request of the server. -/
theorem reply_receive {s : Session} {message reply : Json}
    (h : (s.receive message).reply = some reply) : ∃ id, reply = Message.emptyReply id := by
  unfold receive at h
  split at h
  · split at h
    · rw [reply_receiveAnswer] at h
      cases h
    · obtain ⟨id, -, hreply⟩ := reply_receiveCall h
      exact ⟨id, hreply⟩
  · cases h

end ProjectCheck.Session
