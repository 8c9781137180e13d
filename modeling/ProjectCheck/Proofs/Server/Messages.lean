import ProjectCheck.Proofs.Server.Faithful

/-!
What a message means, read off the message alone. It is the answer to at most one request, it
publishes diagnostics for at most one document, and all that taking it does to the requests and to
the documents of a session follows from this.
-/
namespace ProjectCheck

theorem Decimal.Binary64.eq_of_equalsInt {x : Decimal.Binary64} {i j : Int}
    (hi : x.equalsInt i = true) (hj : x.equalsInt j = true) : i = j := by
  simp only [Decimal.Binary64.equalsInt, Bool.and_eq_true, beq_iff_eq] at hi hj
  exact Option.some.inj (hi.2.symm.trans hj.2)

namespace Json

/-- A value is equal to one whole number at most. -/
theorem eq_of_equalsInt {value : Json} {i j : Int} (hi : value.equalsInt i = true)
    (hj : value.equalsInt j = true) : i = j := by
  cases value with
  | bool b => exact (beq_iff_eq.1 hi).symm.trans (beq_iff_eq.1 hj)
  | int n => exact (beq_iff_eq.1 hi).symm.trans (beq_iff_eq.1 hj)
  | float x => exact Decimal.Binary64.eq_of_equalsInt hi hj
  | null | string _ | illFormed _ | array _ | object _ | illNamed _ _ => cases hi

def answer? (number : Nat) : Json → Option Decision
  | object message =>
    match Members.get? "id" message, Members.has "method" message with
    | some id, false =>
      if id.equalsInt number then some (Session.decisionOf message) else none
    | _, _ => none
  | _ => none

/-- What the parameters of a message publish: diagnostics that are not null, under the text of a
URI that is not empty. -/
def published? (params : Json) : Option (String × Json) :=
  match (params.get? "uri").bind asString?, (params.get? "diagnostics").getD null with
  | none, _ | _, null => none
  | some uri, diagnostics => if uri = "" then none else some (uri, diagnostics)

def publication? (message : Json) : Option (String × Json) :=
  if (message.get? "method").bind asString? = some "textDocument/publishDiagnostics" then
    (message.get? "params").bind published?
  else none

def publishedFor? (key : String) (message : Json) : Option Json :=
  message.publication?.bind fun publication =>
    if Uri.key publication.1 = key then some publication.2 else none

end Json

namespace Session

/-! Requests. -/

def decideBy (decision? : Nat → Option Decision) (s : Session) : Session :=
  { s with pending := s.pending.map fun entry => (entry.1, entry.2.or (decision? entry.1)) }

theorem decideBy_none (s : Session) : s.decideBy (fun _ => none) = s := by
  have hsame : (fun entry : Nat × Option Decision => (entry.1, entry.2.or none)) = id := by
    funext entry
    rw [Option.or_none]
    rfl
  rw [decideBy, hsame, List.map_id]

/-- A decision is for the request with the number, if it has none. -/
theorem decide_eq (s : Session) (number : Nat) (decision : Decision) :
    s.decide number decision = s.decideBy fun n => if n = number then some decision else none := by
  have hsame : (fun entry : Nat × Option Decision =>
      if entry.1 = number && entry.2.isNone then (number, some decision) else entry) =
      fun entry => (entry.1, entry.2.or (if entry.1 = number then some decision else none)) := by
    funext ⟨n, known⟩
    cases known with
    | some _ => simp
    | none =>
      by_cases hn : n = number
      · simp [hn]
      · simp [hn]
  rw [decide, decideBy, hsame]

theorem noticeExit_eq (s : Session) :
    s.noticeExit =
      { s.decideBy fun _ => some (.refused exitText) with exitNoticed := true } := by
  have hsame : (fun entry : Nat × Option Decision =>
      if entry.2.isNone then (entry.1, some (.refused exitText)) else entry) =
      fun entry => (entry.1, entry.2.or (some (.refused exitText))) := by
    funext ⟨n, known⟩
    cases known <;> rfl
  rw [noticeExit, decideAll, decideBy, hsame]

theorem decideBy_congr {s : Session} {decision? other? : Nat → Option Decision}
    (h : ∀ entry ∈ s.pending, decision? entry.1 = other? entry.1) :
    s.decideBy decision? = s.decideBy other? := by
  have hsame : s.pending.map (fun entry => (entry.1, entry.2.or (decision? entry.1))) =
      s.pending.map fun entry => (entry.1, entry.2.or (other? entry.1)) :=
    List.map_congr_left fun entry hmem => by rw [h entry hmem]
  rw [decideBy, hsame, decideBy]

/-- An answer decides the request whose number it has. -/
theorem receiveAnswer_session (s : Session) (message : Members Json) (id : Json) :
    (s.receiveAnswer message id).session = s.decideBy fun number =>
      if id.equalsInt number then some (decisionOf message) else none := by
  have hnobody (h : ∀ entry ∈ s.pending, ¬ id.equalsInt entry.1 = true) :
      s = s.decideBy fun number =>
        if id.equalsInt number then some (decisionOf message) else none := by
    refine s.decideBy_none.symm.trans (decideBy_congr fun entry hmem => ?_)
    rw [if_neg (h entry hmem)]
  unfold receiveAnswer
  split
  · exact hnobody fun _ _ => nofun
  · exact hnobody fun _ _ => nofun
  · split
    · rename_i hnone
      exact hnobody (List.find?_eq_none.1 hnone)
    · rename_i number _ hfound
      have hnumber : id.equalsInt number = true :=
        List.find?_some (p := fun entry : Nat × Option Decision => id.equalsInt entry.1) hfound
      refine (decide_eq s number _).trans (decideBy_congr fun entry _ => ?_)
      by_cases hentry : entry.1 = number
      · rw [if_pos hentry, hentry, if_pos hnumber]
      · have hother : ¬ id.equalsInt entry.1 = true := fun h =>
          hentry (Int.ofNat_inj.1 (Json.eq_of_equalsInt h hnumber))
        rw [if_neg hentry, if_neg hother]

/-! Documents. -/

def publishedAs (s : Session) (publication : String × Json) : Session :=
  { s with published := s.published.set (Uri.key publication.1) publication.2 }

/-- Parameters that publish nothing leave a session as it is, even where they cannot be taken. -/
theorem publish_session (s : Session) (params : Members Json) :
    (s.publish params).session =
      ((Json.published? (.object params)).map s.publishedAs).getD s := by
  have huri : (params.get? "uri").bind Json.asString? =
      ((params.get? "uri").getD .null).asString? := by
    cases params.get? "uri" <;> rfl
  unfold publish Json.published?
  simp only [Json.get?, huri]
  generalize (params.get? "uri").getD .null = uri
  generalize (params.get? "diagnostics").getD .null = diagnostics
  cases htext : uri.asString? with
  | none =>
    have hkeep : s.keepFor uri diagnostics = s := by
      rw [keepFor, htext]
    split
    · rfl
    · rfl
    · split
      · rfl
      · split <;> exact hkeep
  | some text =>
    obtain rfl : uri = .string text := by
      cases uri <;> cases htext
      rfl
    by_cases hempty : text = ""
    · subst hempty
      cases diagnostics <;> rfl
    · have htruthy : (Json.string text).isTruthy = true := by
        simp [Json.isTruthy, hempty]
      rw [htruthy]
      cases diagnostics with
      | null => rfl
      | _ =>
        simp only [uriText, if_neg hempty]
        split <;> rfl

/-- A call can only publish. -/
theorem receiveCall_session (s : Session) (message : Members Json) :
    (s.receiveCall message).session =
      ((Json.object message).publication?.map s.publishedAs).getD s := by
  have hmethod : (message.get? "method").bind Json.asString? =
        some "textDocument/publishDiagnostics" ↔
      ((message.get? "method").getD (.string "unknown")).asString? =
        some "textDocument/publishDiagnostics" := by
    cases message.get? "method" with
    | none => exact ⟨nofun, by decide⟩
    | some method => exact Iff.rfl
  unfold receiveCall Json.publication?
  simp only [Json.get?, hmethod]
  split
  · cases message.get? "params" with
    | none => rfl
    | some params =>
      cases params with
      | object members => exact publish_session s members
      | _ => rfl
  · split
    · split <;> rfl
    · split <;> rfl

/-- All that taking a message does to a session: what it answers is decided, and what it publishes
is kept. -/
theorem receive_session (s : Session) (message : Json) :
    let decided := s.decideBy (message.answer? ·)
    (s.receive message).session = (message.publication?.map decided.publishedAs).getD decided := by
  intro decided
  unfold receive
  split
  · rename_i members
    split
    · rename_i id hid hmethod
      have hnone : Members.get? "method" members = none := by
        simpa only [Members.has, Option.isSome_eq_false_iff, Option.isNone_iff_eq_none]
          using hmethod
      have hanswer : decided = s.decideBy fun number =>
          if id.equalsInt number then some (decisionOf members) else none := by
        simp only [decided, Json.answer?, hid, hmethod]
      have hpublication : (Json.object members).publication? = none := by
        simp only [Json.publication?, Json.get?, hnone, Option.bind_none, reduceCtorEq, ↓reduceIte]
      rw [receiveAnswer_session, ← hanswer, hpublication]
      rfl
    · rename_i hcall
      have hanswer : decided = s := by
        refine (congrArg s.decideBy (funext fun number => ?_)).trans s.decideBy_none
        simp only [Json.answer?]
      rw [hanswer, receiveCall_session]
  · rename_i hother
    have hsame : decided = s ∧ message.publication? = none := by
      cases message with
      | object members => exact absurd rfl (hother members)
      | _ => exact ⟨s.decideBy_none, rfl⟩
    rw [hsame.1, hsame.2]
    rfl

theorem pending_receive (s : Session) (message : Json) :
    (s.receive message).session.pending = (s.decideBy (message.answer? ·)).pending := by
  rw [receive_session]
  cases message.publication? <;> rfl

/-- What was published last for a document is what a message publishes for it, if it does. -/
theorem get?_published_receive (s : Session) (message : Json) (key : String) :
    (s.receive message).session.published.get? key =
      (message.publishedFor? key).or (s.published.get? key) := by
  rw [receive_session, Json.publishedFor?]
  cases message.publication? with
  | none => rfl
  | some publication =>
    change (publishedAs _ publication).published.get? key = (if _ then _ else none).or _
    rw [publishedAs]
    by_cases hkey : Uri.key publication.1 = key
    · rw [if_pos hkey, ← hkey]
      exact Members.get?_set_self ..
    · rw [if_neg hkey]
      exact Members.get?_set_of_ne (Ne.symm hkey) ..

theorem hasPipes_receive (s : Session) (message : Json) :
    (s.receive message).session.hasPipes = s.hasPipes := by
  obtain ⟨pending, published, h⟩ := s.alike_receive message
  rw [h]

end Session

end ProjectCheck
