import ProjectCheck.Server.Session

/-!
Messages that can be taken. A message that has another shape than it should have is ignored, taken
for what it looks like, or makes the client fail, and which of them it is can be seen of the message
alone.
-/
namespace ProjectCheck

namespace Json

def isText : Json → Bool
  | string _ | illFormed _ => true
  | _ => false

def isNull : Json → Bool
  | null => true
  | _ => false

def isObject : Json → Bool
  | object _ => true
  | _ => false

def isCountable : Json → Bool
  | string _ | illFormed _ | array _ | object _ => true
  | _ => false

/-- Parameters can be taken as those of a publication. Where they name a document and give
diagnostics, the name is text and the diagnostics can be counted. -/
def isPublishable : Json → Bool
  | object params =>
    let uri := (Members.get? "uri" params).getD null
    let diagnostics := (Members.get? "diagnostics" params).getD null
    !uri.isTruthy || diagnostics.isNull || (uri.isText && diagnostics.isCountable)
  | _ => false

/-- A notification or a request can be taken: what is looked into is an object, and a request whose
answer is to be written has a number that can be written. -/
def isTakeableCall (message : Members Json) : Bool :=
  let method := (message.get? "method").getD (.string "unknown")
  let params := (message.get? "params").getD (.object [])
  if method.asString? = some "textDocument/publishDiagnostics" then params.isPublishable
  else if method.asString? = some "window/logMessage" then params.isObject
  else (message.get? "id").all isWellFormed

/-- A value can be taken as a message: an answer whose number is no list and no object, or a
notification or a request that can be taken. -/
def isTakeable : Json → Bool
  | object message =>
    match Members.get? "id" message, Members.has "method" message with
    | some id, false => !(id.asArray?.isSome || id.isObject)
    | _, _ => isTakeableCall message
  | _ => false

end Json

namespace Session

def Takes (reception : Reception) : Prop :=
  reception.failure = none ∧ ∀ reply, reception.reply = some reply → reply.isWellFormed = true

theorem takes_session (s : Session) (logs : List String) :
    Takes { session := s, logs } := ⟨rfl, fun _ h => absurd h.symm (Option.some_ne_none _)⟩

theorem not_takes_failure (s : Session) (failure : Failure) :
    ¬ Takes { session := s, failure := some failure } := fun h => Option.some_ne_none _ h.1

theorem uriText_cases (uri : Json) :
    (uri.isText = true ∧ ∃ text, uriText uri = .ok text) ∨
      (uri.isText = false ∧ ∃ failure, uriText uri = .error failure) := by
  cases uri with
  | string text => exact .inl ⟨rfl, text, rfl⟩
  | illFormed codes => exact .inl ⟨rfl, _, rfl⟩
  | array items =>
    refine .inr ⟨rfl, ?_⟩
    simp only [uriText]
    split <;> exact ⟨_, rfl⟩
  | object members =>
    refine .inr ⟨rfl, ?_⟩
    simp only [uriText]
    split <;> exact ⟨_, rfl⟩
  | _ => exact .inr ⟨rfl, _, rfl⟩

theorem itemCount_cases (diagnostics : Json) :
    (diagnostics.isCountable = true ∧ ∃ count, diagnostics.itemCount = .ok count) ∨
      (diagnostics.isCountable = false ∧ ∃ failure, diagnostics.itemCount = .error failure) := by
  cases diagnostics with
  | string _ | illFormed _ | array _ | object _ => exact .inl ⟨rfl, _, rfl⟩
  | _ => exact .inr ⟨rfl, _, rfl⟩

theorem takes_publish_iff (s : Session) (params : Members Json) :
    Takes (s.publish params) ↔ (Json.object params).isPublishable = true := by
  unfold publish
  simp only [Json.isPublishable]
  generalize (params.get? "uri").getD .null = uri
  generalize (params.get? "diagnostics").getD .null = given
  cases htruthy : uri.isTruthy with
  | false => exact iff_of_true (takes_session ..) rfl
  | true =>
    by_cases hnull : given = .null
    · subst hnull
      exact iff_of_true (takes_session ..) rfl
    · have hgiven : given.isNull = false := by
        cases given with
        | null => exact absurd rfl hnull
        | _ => rfl
      rw [hgiven, Bool.not_true, Bool.false_or, Bool.false_or]
      obtain ⟨htext, text, hread⟩ | ⟨htext, failure, hread⟩ := uriText_cases uri
      · obtain ⟨hcount, count, hitems⟩ | ⟨hcount, failure, hitems⟩ := itemCount_cases given
        · simp only [hread, htext, hcount, hitems]
          exact iff_of_true (takes_session ..) rfl
        · simp only [hread, htext, hcount, hitems]
          exact iff_of_false (not_takes_failure _ _) Bool.false_ne_true
      · simp only [hread, htext]
        exact iff_of_false (not_takes_failure _ _) Bool.false_ne_true

theorem isWellFormed_emptyReply (id : Json) :
    (Message.emptyReply id).isWellFormed = id.isWellFormed := by
  simp [Message.emptyReply, Message.version, Json.isWellFormed, Json.haveWellFormed]

theorem takes_receiveCall_iff (s : Session) (message : Members Json) :
    Takes (s.receiveCall message) ↔ Json.isTakeableCall message = true := by
  unfold receiveCall Json.isTakeableCall
  simp only
  generalize (message.get? "params").getD (.object []) = params
  split
  · cases params with
    | object members => exact takes_publish_iff s members
    | _ => exact iff_of_false (not_takes_failure _ _) Bool.false_ne_true
  · split
    · cases params with
      | object members => exact iff_of_true (takes_session ..) rfl
      | _ => exact iff_of_false (not_takes_failure _ _) Bool.false_ne_true
    · cases message.get? "id" with
      | none => exact iff_of_true (takes_session ..) rfl
      | some id =>
        change (_ ∧ ∀ reply, some (Message.emptyReply id) = some reply → _) ↔ id.isWellFormed = true
        rw [← isWellFormed_emptyReply id]
        exact ⟨fun h => h.2 _ rfl, fun h => ⟨rfl, fun reply heq => Option.some.inj heq ▸ h⟩⟩

theorem takes_receiveAnswer_iff (s : Session) (message : Members Json) (id : Json) :
    Takes (s.receiveAnswer message id) ↔ (!(id.asArray?.isSome || id.isObject)) = true := by
  unfold receiveAnswer
  split
  · exact iff_of_false (not_takes_failure _ _) Bool.false_ne_true
  · exact iff_of_false (not_takes_failure _ _) Bool.false_ne_true
  · rename_i harray hobject
    have hkey : (!(id.asArray?.isSome || id.isObject)) = true := by
      cases id with
      | array items => exact absurd rfl (harray items)
      | object members => exact absurd rfl (hobject members)
      | _ => rfl
    rw [hkey]
    split <;> exact iff_of_true (takes_session ..) rfl

/-- Whether a message is taken without a failure is seen of the message alone. -/
theorem takes_receive_iff (s : Session) (message : Json) :
    Takes (s.receive message) ↔ message.isTakeable = true := by
  unfold receive
  split
  · rename_i members
    split
    · rename_i id hid hmethod
      have hanswer : (Json.object members).isTakeable = !(id.asArray?.isSome || id.isObject) := by
        simp only [Json.isTakeable, hid, hmethod]
      rw [hanswer]
      exact takes_receiveAnswer_iff s members id
    · rename_i hcall
      have hcalled : (Json.object members).isTakeable = Json.isTakeableCall members := by
        simp only [Json.isTakeable]
      rw [hcalled]
      exact takes_receiveCall_iff s members
  · rename_i hother
    cases message with
    | object members => exact absurd rfl (hother members)
    | _ => exact iff_of_false (not_takes_failure _ _) Bool.false_ne_true

end Session

end ProjectCheck
