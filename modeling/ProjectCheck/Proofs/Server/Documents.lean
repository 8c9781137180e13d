import ProjectCheck.Proofs.Files.Linkless
import ProjectCheck.Proofs.Files.Uri
import ProjectCheck.Proofs.Json.Members
import ProjectCheck.Proofs.Server.Incidents

/-!
Documents of a client. Versions are kept by the decoded form of a document's URI, while messages
name the document by the URI itself. The decoded form of the URI of a path of characters is the path
again, so that each such path has its own versions, in whatever way its file is reached. Octets that
are part of no character are all decoded alike: of paths that differ in nothing else only the one
that comes first is opened, and all of them are changed under the versions after that.
-/
namespace ProjectCheck

open Run

def Json.document? (message : Json) : Option String :=
  match message.get? "id", (message.get? "method").bind asString? with
  | none, some method =>
    if method = "textDocument/didOpen" ∨ method = "textDocument/didChange" then
      (((message.get? "params").bind (·.get? "textDocument")).bind (·.get? "uri")).bind asString?
    else none
  | _, _ => none

def Event.told? (pid : Nat) (among : String → Prop) [DecidablePred among] : Event → Option Json
  | sent process message =>
    if process = pid ∧ message.document?.any (decide <| among ·) then some message else none
  | _ => none

/-- What is read when a document is opened: the path that its file has, the text, and the language
that it is sent in. -/
structure Opening where
  real : Path
  text : String
  languageId : LooseText

def Opening.uri (opening : Opening) : String := Uri.ofPath opening.real

/-- The notifications that tell of what was read time after time. The first is for the document that
is opened under version 1, unless its language cannot be written; the others are for documents that
are changed under the versions after it. -/
def Message.telling : List Opening → List Json
  | [] => []
  | first :: more =>
    (if first.languageId.IsPlain then [notification "textDocument/didOpen"
      (some (didOpenParams first.uri first.languageId first.text))] else []) ++
      (more.zipIdx 2).map fun (opening, version) => notification "textDocument/didChange"
        (some (didChangeParams opening.uri version opening.text))

def Message.tellingFrom (version : Nat) (openings : List Opening) : List Json :=
  ((openings.zipIdx version).map fun (opening, version) =>
    DocumentRef.message ⟨opening.uri, version⟩ opening.text opening.languageId).filter
      (·.isWellFormed)

theorem Message.tellingFrom_nil (version : Nat) : tellingFrom version [] = [] := rfl

theorem Message.tellingFrom_append (version : Nat) (openings more : List Opening) :
    tellingFrom version (openings ++ more) =
      tellingFrom version openings ++ tellingFrom (version + openings.length) more := by
  rw [tellingFrom, List.zipIdx_append, List.map_append, List.filter_append]
  rfl

/-- From version 2 on everything is written. -/
theorem Message.tellingFrom_two (openings : List Opening) :
    tellingFrom 2 openings = (openings.zipIdx 2).map fun (opening, version) =>
      notification "textDocument/didChange"
        (some (didChangeParams opening.uri version opening.text)) := by
  have hlater : ∀ entry ∈ openings.zipIdx 2, ¬ ((entry.2 : Int) = 1) := by
    intro entry hmem
    have hversion : 2 ≤ entry.2 := List.le_snd_of_mem_zipIdx hmem
    omega
  rw [tellingFrom, List.filter_eq_self.2]
  · exact List.map_congr_left fun entry hmem => if_neg (hlater entry hmem)
  · rw [List.forall_mem_map]
    exact fun entry hmem => (Machine.isWellFormed_message ..).2 fun h =>
      absurd h (hlater entry hmem)

theorem Message.telling_eq (openings : List Opening) :
    telling openings = tellingFrom 1 openings := by
  cases openings with
  | nil => rfl
  | cons first more =>
    have hwritten : (DocumentRef.message ⟨first.uri, 1⟩ first.text first.languageId).isWellFormed =
        true ↔ first.languageId.IsPlain := by
      rw [Machine.isWellFormed_message]
      exact forall_prop_of_true rfl
    have hfirst : tellingFrom 1 [first] = if first.languageId.IsPlain then
        [DocumentRef.message ⟨first.uri, 1⟩ first.text first.languageId] else [] := by
      rw [tellingFrom, List.zipIdx_singleton, List.map_singleton, List.filter_cons, List.filter_nil]
      exact ite_cond_congr (propext hwritten)
    rw [telling, ← tellingFrom_two]
    exact (congrArg (· ++ tellingFrom 2 more) hfirst.symm).trans (tellingFrom_append ..).symm

theorem DocumentRef.document?_message (document : DocumentRef) (text : String)
    (languageId : LooseText) :
    (document.message text languageId).document? = some document.uri := by
  unfold message
  split <;> rfl

/-- Each of the messages for what was read names the document that it was read of. -/
theorem Message.document?_of_mem_tellingFrom {version : Nat} {openings : List Opening}
    {message : Json} (h : message ∈ tellingFrom version openings) :
    ∃ opening ∈ openings, message.document? = some opening.uri := by
  obtain ⟨⟨opening, number⟩, hmem, rfl⟩ := List.mem_map.1 (List.mem_filter.1 h).1
  exact ⟨opening, List.fst_mem_of_mem_zipIdx hmem, DocumentRef.document?_message ..⟩

theorem Message.document?_request (number : Nat) (method : String) (params : Option Json) :
    (Message.request number method params).document? = none := by
  cases params <;> rfl

theorem Session.nextVersion_congr (s : Session) {uri other : String}
    (h : Uri.key other = Uri.key uri) : s.nextVersion other = s.nextVersion uri := by
  rw [nextVersion, nextVersion, h]

/-- Sending a document takes its next version and no version of a document with another key. -/
theorem Session.nextVersion_sent (s : Session) (uri other : String) :
    (s.sent uri).nextVersion other =
      if Uri.key other = Uri.key uri then s.nextVersion uri + 1 else s.nextVersion other := by
  unfold nextVersion
  by_cases hkey : Uri.key other = Uri.key uri
  · rw [if_pos hkey, hkey]
    have hset : (s.sent uri).versions.get? (Uri.key uri) = some (s.nextVersion uri) :=
      Members.get?_set_self ..
    rw [hset]
    rfl
  · rw [if_neg hkey]
    have hset : (s.sent uri).versions.get? (Uri.key other) = s.versions.get? (Uri.key other) :=
      Members.get?_set_of_ne hkey ..
    rw [hset]

namespace Machine

variable {m : Machine} {pid : Nat} {s : Session} {c : Connection} {uri : String}

section Told

variable {among : String → Prop} [DecidablePred among]

def told (m : Machine) (pid : Nat) (among : String → Prop) [DecidablePred among] : List Json :=
  m.journal.events.filterMap (·.told? pid among)

theorem told_noted (event : Event) :
    (m.noted event).told pid among = m.told pid among ++ (event.told? pid among).toList := by
  rw [told, noted, List.filterMap_append]
  rfl

theorem told?_sent {message : Json} (hdocument : message.document? = some uri) :
    (Event.sent pid message).told? pid among = if among uri then some message else none := by
  simp only [Event.told?, hdocument, Option.any_some, decide_eq_true_eq, true_and]

/-- What is told of a document is part of what is told of documents with its key. -/
theorem told_eq_filter (m : Machine) (pid : Nat) {among part : String → Prop}
    [DecidablePred among] [DecidablePred part] (h : ∀ uri, part uri → among uri) :
    m.told pid part = (m.told pid among).filter (·.document?.any (decide <| part ·)) := by
  rw [told, told, List.filter_filterMap]
  refine congrArg (fun f => m.journal.events.filterMap f) (funext fun event => ?_)
  cases event with
  | sent process message =>
    have hpart : message.document?.any (decide <| part ·) = true →
        message.document?.any (decide <| among ·) = true := by
      cases message.document? with
      | none => exact id
      | some uri => exact fun hpart => decide_eq_true (h uri (of_decide_eq_true hpart))
    simp only [Event.told?]
    by_cases hprocess : process = pid ∧ message.document?.any (decide <| among ·) = true
    · rw [if_pos hprocess, Option.filter_some]
      simp only [hprocess.1, true_and]
    · rw [if_neg hprocess, if_neg fun hboth => hprocess ⟨hboth.1, hpart hboth.2⟩]
      rfl
  | _ => rfl

def KeepsTold (pid : Nat) (among : String → Prop) [DecidablePred among]
    (m after : Machine) : Prop :=
  after.told pid among = m.told pid among

theorem lenient_keepsTold (pid : Nat) (among : String → Prop) [DecidablePred among] :
    Lenient (KeepsTold pid among) where
  steady := ⟨fun _ => rfl, fun first second => second.trans first⟩
  quiet := fun _ hevents => by rw [KeepsTold, told, hevents]; rfl
  tasks := fun _ _ _ _ _ => rfl

/-- A message that names no document or another one tells nothing of a document. -/
theorem keepsTold_send {message : Json} (h : ∀ uri, message.document? = some uri → ¬ among uri)
    (process : Nat) (m : Machine) : Moves (KeepsTold pid among) (send process message) m := by
  refine (lenient_keepsTold pid among).moves_send fun c _ => ?_
  have hnone : (Event.sent process message).told? pid among = none := if_neg fun hboth => by
    obtain ⟨uri, hdocument, hamong⟩ := (Option.any_eq_true ..).1 hboth.2
    exact h uri hdocument (of_decide_eq_true hamong)
  refine (told_noted (.sent process message)).trans ?_
  rw [hnone]
  exact List.append_nil _

/-- A message tells what it says if it can be written, whether the server is there or not. -/
theorem told_send {message : Json} (hc : m.connection? pid = some c)
    (hdocument : message.document? = some uri) (hamong : among uri) :
    ((send pid message).run m).2.told pid among = m.told pid among ++
      if c.session.hasPipes then [message].filter (·.isWellFormed) else [] := by
  have hR := lenient_keepsTold pid among
  cases hpipes : c.session.hasPipes with
  | false => rw [send_pipeless hc hpipes, if_neg Bool.false_ne_true, List.append_nil]
  | true =>
    rw [if_pos rfl, List.filter_cons, List.filter_nil]
    by_cases hwritten : message.isWellFormed = true
    · have hnoted : (note (.sent pid message)).run m = (.ok ⟨⟩, m.noted (.sent pid message)) := rfl
      have hdelivered : Ends (deliver pid message c) m fun _ after =>
          after.told pid among = (m.noted (.sent pid message)).told pid among := by
        refine Ends.bind_of_run hnoted (Ends.bind_of_run (run_modify _ _) ?_)
        refine Moves.bind hR.steady (hR.moves_stir pid _) fun _ after => ?_
        split <;> exact hR.steady.refl after
      rw [send_run hc hpipes hwritten, if_pos hwritten]
      refine hdelivered.trans ((told_noted _).trans ?_)
      rw [told?_sent hdocument, if_pos hamong]
      rfl
    · rw [send_unwritten hc hpipes hwritten, if_neg hwritten, List.append_nil]

/-- A file that is opened is told of under the next version of its document. -/
theorem told_openDocument (among : String → Prop) [DecidablePred among]
    (hs : m.session? pid = some s) {path : Path} {text : String}
    (hdocument : m.document? path = .ok (uri, text)) (hamong : among uri)
    (language : Option LooseText) :
    ((openDocument pid path language).run m).2.told pid among = m.told pid among ++
      if s.hasPipes then
        [(s.nextDocument uri).message text (s.languageOf path language)].filter (·.isWellFormed)
      else [] := by
  obtain ⟨between, hbetween, hevents, hrun⟩ := openDocument_send hs hdocument language
  obtain ⟨c, hc, hsession⟩ := Option.map_eq_some_iff.1 hbetween
  have htold : between.told pid among = m.told pid among := by rw [told, hevents, told]
  have hpipes : c.session.hasPipes = s.hasPipes := by rw [hsession]; rfl
  have habout : ((s.nextDocument uri).message text (s.languageOf path language)).document? =
      some uri := DocumentRef.document?_message ..
  rw [hrun, told_send hc habout hamong, htold, hpipes]

/-- Requests, messages and the end of a server tell nothing of documents. -/
theorem keepsTold_occurrence (pid : Nat) (among : String → Prop) [DecidablePred among]
    (occurrence : Occurrence) (m : Machine) :
    Moves (KeepsTold pid among) (occurrence.step pid) m := by
  have hR := lenient_keepsTold pid among
  have hupdate (change : Session → Session) (m : Machine) :
      Moves (KeepsTold pid among) (updateSession pid change) m := rfl
  have hends (code : Int) (m : Machine) : Moves (KeepsTold pid among) (endServer pid code) m :=
    Moves.bind hR.steady rfl fun _ after => hR.moves_stir pid after
  cases occurrence with
  | call method params =>
    refine Moves.bind hR.steady ?_ fun _ after => hR.steady.refl after
    refine Moves.bind hR.steady (hupdate _ m) fun _ begun => Moves.get_bind ?_
    refine Moves.bind hR.steady (hR.moves_log _ _ begun) fun _ logged => ?_
    refine Moves.bind hR.steady (keepsTold_send ?_ pid logged) fun _ after => hR.steady.refl after
    rw [Message.document?_request]
    nofun
  | message value =>
    refine hR.moves_receive (fun _ _ => rfl) fun _ reply _ hreply after =>
      keepsTold_send ?_ pid after
    obtain ⟨id, rfl⟩ := Session.reply_receive hreply
    nofun
  | ends code => exact hends code m
  | noticed code =>
    refine Moves.bind hR.steady (hends code m) fun _ ended => Moves.get_bind ?_
    split
    · exact Moves.bind hR.steady (hR.moves_log _ _ ended) fun _ logged =>
        Moves.bind hR.steady (hupdate _ logged) fun _ after => hR.moves_handOnDecision after
    · exact hR.steady.refl ended
  | resume number method =>
    refine Moves.bind hR.steady (Moves.get_bind ?_) fun _ after => hR.steady.refl after
    refine Moves.bind hR.steady ?_ fun _ logged =>
      Moves.bind hR.steady (hupdate _ logged) fun _ _ => Moves.ofExcept hR.steady _ _
    cases (m.session? pid).bind (·.decision? number) with
    | some _ => exact hR.steady.refl m
    | none => exact hR.moves_log .debug _ m

/-- Nothing is told of documents of some kind but when a file is opened that is one of them. -/
theorem keepsTold_step (hs : m.session? pid = some s) (incident : Incident)
    (hother : ∀ path language uri text, incident = .opens path language →
      m.document? path = .ok (uri, text) → ¬ among uri) :
    Moves (KeepsTold pid among) (incident.step pid) m := by
  have hR := lenient_keepsTold pid among
  have hnotify (method : String) (params : Option Json)
      (h : (Message.notification method params).document? = none) :
      Moves (KeepsTold pid among) (notify pid method params) m := by
    refine Moves.bind hR.steady (hR.moves_log _ _ m) fun _ after => keepsTold_send ?_ pid after
    rw [h]
    nofun
  cases incident with
  | occurs occurrence => exact keepsTold_occurrence pid among occurrence m
  | cancelled number => exact hR.steady.refl m
  | greets => exact hnotify _ _ rfl
  | leaves => exact hnotify _ _ rfl
  | opens path language =>
    rw [Incident.step]
    cases hdocument : m.document? path with
    | error failure =>
      rw [Moves, Ends, openDocument_eq hs, hdocument]
      exact hR.steady.refl m
    | ok document =>
      obtain ⟨found, text⟩ := document
      obtain ⟨between, hbetween, hevents, hrun⟩ := openDocument_send hs hdocument language
      rw [Moves, Ends, hrun]
      refine hR.steady.trans ?_ (keepsTold_send (fun uri huri => ?_) pid between)
      · rw [KeepsTold, told, hevents, told]
      · obtain rfl := Option.some.inj ((DocumentRef.document?_message ..).symm.trans huri)
        exact hother path language _ text rfl hdocument
  | files root => exact rfl

end Told

def opening? (m : Machine) (s : Session) : Incident → Option Opening
  | .opens path language =>
    match m.resolve path, m.readText path with
    | .ok real, .ok text => some ⟨real, text, s.languageOf path language⟩
    | _, _ => none
  | _ => none

def openings (pid : Nat) (s : Session) : List Incident → Machine → List Opening
  | [], _ => []
  | incident :: rest, m =>
    (m.opening? s incident).toList ++ openings pid s rest ((incident.step pid).run m).2

/-- What is read is sent under the URI of the path that its file has. -/
theorem opening?_eq_some {incident : Incident} {opening : Opening}
    (h : m.opening? s incident = some opening) :
    ∃ path language, incident = .opens path language ∧
      m.document? path = .ok (opening.uri, opening.text) ∧
      opening.languageId = s.languageOf path language := by
  unfold opening? at h
  split at h
  · split at h
    · rename_i path language _ _ real text hreal htext
      cases h
      refine ⟨path, language, rfl, ?_, rfl⟩
      rw [document?, uriOf, hreal, htext]
      rfl
    · cases h
  · cases h

/-- Nothing is sent but what is read. -/
theorem exists_opening {path : Path} {text : String} (h : m.document? path = .ok (uri, text))
    (s : Session) (language : Option LooseText) :
    ∃ opening, m.opening? s (.opens path language) = some opening ∧ opening.uri = uri ∧
      m.resolve path = .ok opening.real ∧ m.readText path = .ok text := by
  rw [document?, uriOf] at h
  cases hreal : m.resolve path with
  | error failure => rw [hreal] at h; cases h
  | ok real =>
    rw [hreal] at h
    cases htext : m.readText path with
    | error failure => rw [htext] at h; cases h
    | ok read =>
      rw [htext] at h
      cases h
      refine ⟨⟨real, text, s.languageOf path language⟩, ?_, rfl, rfl, rfl⟩
      simp only [opening?, hreal, htext]

/-- Which server it is and whether anything can be written to it stay as they are. -/
theorem effect_keeps (m : Machine) (s : Session) (incident : Incident) :
    (incident.effect m s).spec = s.spec ∧ (incident.effect m s).hasPipes = s.hasPipes := by
  cases incident with
  | occurs occurrence =>
    cases occurrence with
    | message value =>
      obtain ⟨pending, published, h⟩ := s.alike_receive value
      change (s.receive value).session.spec = _ ∧ (s.receive value).session.hasPipes = _
      rw [h]
      exact ⟨rfl, rfl⟩
    | call | ends | noticed | resume => exact ⟨rfl, rfl⟩
  | opens path language =>
    simp only [Incident.effect]
    split <;> exact ⟨rfl, rfl⟩
  | cancelled | greets | leaves | files => exact ⟨rfl, rfl⟩

/-- A document has one version more when one with its key was opened, and the same as before
otherwise. -/
theorem nextVersion_effect (m : Machine) (s : Session) (uri : String) (incident : Incident) :
    (incident.effect m s).nextVersion uri = s.nextVersion uri +
      ((m.opening? s incident).toList.filter (Uri.key ·.uri = Uri.key uri)).length := by
  cases incident with
  | occurs occurrence =>
    cases occurrence with
    | message value =>
      obtain ⟨pending, published, h⟩ := s.alike_receive value
      change (s.receive value).session.nextVersion _ = _
      rw [h]
      rfl
    | call | ends | noticed | resume => rfl
  | opens path language =>
    cases hdocument : m.document? path with
    | ok document =>
      obtain ⟨found, text⟩ := document
      obtain ⟨opening, hopening, rfl, -⟩ := exists_opening hdocument s language
      simp only [Incident.effect, hdocument, hopening, Session.nextVersion_sent]
      rw [Option.toList_some, List.filter_cons, List.filter_nil]
      by_cases hkey : Uri.key opening.uri = Uri.key uri
      · rw [if_pos hkey.symm, s.nextVersion_congr hkey, if_pos (decide_eq_true_iff.2 hkey)]
        rfl
      · rw [if_neg (Ne.symm hkey), if_neg fun h => hkey (of_decide_eq_true h)]
        rfl
    | error failure =>
      cases hopening : m.opening? s (.opens path language) with
      | none => simp only [Incident.effect, hdocument]; rfl
      | some opening =>
        obtain ⟨_, _, ⟨⟩, hok, -⟩ := opening?_eq_some hopening
        cases hdocument.symm.trans hok
  | cancelled | greets | leaves | files => rfl

/-- What an incident tells of the documents with one key. -/
theorem told_step (hs : m.session? pid = some s) (uri : String) (incident : Incident) :
    ((incident.step pid).run m).2.told pid (Uri.key · = Uri.key uri) =
      m.told pid (Uri.key · = Uri.key uri) ++
        if s.hasPipes then Message.tellingFrom (s.nextVersion uri)
          ((m.opening? s incident).toList.filter (Uri.key ·.uri = Uri.key uri))
        else [] := by
  have hkeeps (hother : ∀ opening, m.opening? s incident = some opening →
      ¬ Uri.key opening.uri = Uri.key uri) :
      KeepsTold pid (Uri.key · = Uri.key uri) m ((incident.step pid).run m).2 := by
    refine keepsTold_step hs incident fun path language found text heq hdocument => ?_
    obtain ⟨opening, hopening, rfl, -⟩ := exists_opening hdocument s language
    exact hother opening (heq ▸ hopening)
  have hnothing : (if s.hasPipes then Message.tellingFrom (s.nextVersion uri) [] else []) = [] := by
    rw [Message.tellingFrom_nil, ite_self]
  cases hopening : m.opening? s incident with
  | none =>
    rw [hkeeps (hopening ▸ nofun), Option.toList_none, List.filter_nil, hnothing, List.append_nil]
  | some opening =>
    rw [Option.toList_some, List.filter_cons, List.filter_nil]
    by_cases hkey : Uri.key opening.uri = Uri.key uri
    · obtain ⟨path, language, rfl, hdocument, hlanguage⟩ := opening?_eq_some hopening
      have htold := told_openDocument (Uri.key · = Uri.key uri) hs hdocument hkey language
      rw [Session.nextDocument, ← hlanguage, s.nextVersion_congr hkey] at htold
      rw [if_pos (decide_eq_true hkey)]
      exact htold
    · have hother : ∀ other, m.opening? s incident = some other →
          ¬ Uri.key other.uri = Uri.key uri := by
        intro other hsome
        rwa [Option.some.inj (hsome.symm.trans hopening)]
      rw [hkeeps hother, if_neg fun h => hkey (of_decide_eq_true h), hnothing, List.append_nil]

/-- Of a session only the server matters to what is read. -/
theorem opening?_congr {known : Session} (hspec : known.spec = s.spec) (incident : Incident) :
    m.opening? known incident = m.opening? s incident := by
  simp only [opening?, Session.languageOf, hspec]

/-- What some incidents tell of the documents with one key: what was read each time one of them was
opened, under one version after the other. -/
theorem told_afterAll {known : Session} (hs : m.session? pid = some known)
    (hspec : known.spec = s.spec) (hpipes : known.hasPipes = s.hasPipes) (uri : String)
    (incidents : List Incident) :
    (m.afterAll pid incidents).told pid (Uri.key · = Uri.key uri) =
      m.told pid (Uri.key · = Uri.key uri) ++
        if s.hasPipes then Message.tellingFrom (known.nextVersion uri)
          ((openings pid s incidents m).filter (Uri.key ·.uri = Uri.key uri))
        else [] := by
  -- The session goes along: its versions say where the numbers of the remaining incidents start.
  induction incidents generalizing m known with
  | nil =>
    rw [openings, List.filter_nil]
    change _ = _ ++ if s.hasPipes then [] else []
    rw [ite_self, List.append_nil]
    rfl
  | cons incident rest ih =>
    obtain ⟨hspec', hpipes'⟩ := effect_keeps m known incident
    have hstep := told_step hs uri incident
    have hrest := ih (ends_incident hs incident) (hspec'.trans hspec) (hpipes'.trans hpipes)
    change (afterAll _ pid rest).told pid _ = _
    rw [hrest, hstep, nextVersion_effect, hpipes, opening?_congr hspec, openings,
      List.filter_append, Message.tellingFrom_append, List.append_assoc]
    split
    · rfl
    · rfl

/-- A client that has sent no document yet tells its server of all documents with one key by one
opening under version 1 and then by changes under the versions 2, 3, 4 and so on, each with the URI
of its own path and the text that is read then, by whatever path the file is reached and whatever
happens in between; nothing is told where nothing can be written. So a document is told of in this
way by itself when no other document with its key is opened, and it is not told of when it is not
opened. Different paths of characters have different keys. A file whose path cannot be resolved or
which cannot be read changes nothing. -/
theorem documents_are_told_in_order (m : Machine) (pid : Nat) (s : Session)
    (hs : m.session? pid = some s) (hversions : s.versions = []) (incidents : List Incident) :
    let after := m.afterAll pid incidents
    let opened := openings pid s incidents m
    (∀ uri, after.told pid (Uri.key · = Uri.key uri) = m.told pid (Uri.key · = Uri.key uri) ++
      if s.hasPipes then Message.telling (opened.filter (Uri.key ·.uri = Uri.key uri)) else []) ∧
    (∀ uri, (∀ opening ∈ opened, Uri.key opening.uri = Uri.key uri → opening.uri = uri) →
      after.told pid (· = uri) = m.told pid (· = uri) ++
        if s.hasPipes then Message.telling (opened.filter (·.uri = uri)) else []) ∧
    (∀ uri, (∀ opening ∈ opened, opening.uri ≠ uri) →
      after.told pid (· = uri) = m.told pid (· = uri)) ∧
    (∀ real other : Path, Uri.ofPath real = Uri.ofPath other ↔
      real.text.octets = other.text.octets) ∧
    (∀ (real other : Path) (text more : String), real.text = text → other.text = more →
      (Uri.key (Uri.ofPath real) = Uri.key (Uri.ofPath other) ↔ text = more)) ∧
    ∀ path language failure,
      (after.resolve path = .error failure ∨ after.readText path = .error failure) →
      ∃ reason, (openDocument pid path language).run after = (.error reason, after) := by
  intro after opened
  have hkey (uri : String) : after.told pid (Uri.key · = Uri.key uri) =
      m.told pid (Uri.key · = Uri.key uri) ++ if s.hasPipes then
        Message.telling (opened.filter (Uri.key ·.uri = Uri.key uri)) else [] := by
    have hfirst : s.nextVersion uri = 1 := by
      rw [Session.nextVersion, hversions]
      rfl
    rw [Message.telling_eq, ← hfirst]
    exact told_afterAll hs rfl rfl uri incidents
  have hpart (uri : String) : after.told pid (· = uri) = m.told pid (· = uri) ++
      if s.hasPipes then (Message.telling (opened.filter (Uri.key ·.uri = Uri.key uri))).filter
        (·.document?.any (decide <| · = uri)) else [] := by
    have hsame : ∀ other, other = uri → Uri.key other = Uri.key uri := fun _ => congrArg Uri.key
    rw [after.told_eq_filter pid hsame, hkey uri, List.filter_append,
      ← m.told_eq_filter pid hsame]
    split <;> rfl
  refine ⟨hkey, fun uri halone => ?_, fun uri hnone => ?_, Uri.ofPath_eq_iff,
    fun real other text more htext hmore => ?_, fun path language failure hfails => ?_⟩
  · have hopened : opened.filter (Uri.key ·.uri = Uri.key uri) = opened.filter (·.uri = uri) := by
      refine List.filter_congr fun opening hmem => decide_eq_decide.2 ?_
      exact ⟨halone opening hmem, congrArg Uri.key⟩
    rw [hpart uri, hopened, List.filter_eq_self.2 fun message hmem => ?_]
    rw [Message.telling_eq] at hmem
    obtain ⟨opening, hopening, hdocument⟩ := Message.document?_of_mem_tellingFrom hmem
    rw [hdocument]
    exact (List.mem_filter.1 hopening).2
  · rw [hpart uri, List.filter_eq_nil_iff.2 fun message hmem => ?_, ite_self, List.append_nil]
    rw [Message.telling_eq] at hmem
    obtain ⟨opening, hopening, hdocument⟩ := Message.document?_of_mem_tellingFrom hmem
    rw [hdocument, Option.any_some, decide_eq_true_eq]
    exact hnone opening (List.mem_filter.1 hopening).1
  · rw [Uri.key_ofPath_of_text htext, Uri.key_ofPath_of_text hmore, String.append_right_inj]
  · obtain ⟨known, hknown⟩ := session?_afterAll hs incidents
    rw [openDocument_eq hknown]
    cases hdocument : after.document? path with
    | error reason => exact ⟨reason, rfl⟩
    | ok document =>
      obtain ⟨opening, -, -, hreal, htext⟩ := exists_opening hdocument s language
      rcases hfails with hfails | hfails
      · cases hreal.symm.trans hfails
      · cases htext.symm.trans hfails

def oneFile (text : Bytes) : Node := .directory [("a.py", .file text)]

def oneFileClient : Machine where
  files := oneFile [120]
  workingDirectory := []
  connections := [{ behaviour := { otherwise := .silence }, session := {} }]

theorem opening?_oneFile {m : Machine} (text : Bytes) (read : String)
    (hfiles : m.files = oneFile text) (hread : m.readText (.ofLocation ["a.py"]) = .ok read)
    (language : Option LooseText) :
    m.opening? {} (.opens (.ofLocation ["a.py"]) language) =
      some ⟨.ofLocation ["a.py"], read, language.getD "plaintext"⟩ := by
  have hname : IsName "a.py" := ⟨by decide, by decide, by decide, by decide⟩
  have hlinkless : m.files.IsLinkless := by
    rw [hfiles]
    refine .directory ?_ (List.pairwise_singleton ..) ?_
    · exact List.forall_mem_singleton.2 hname
    · exact List.forall_mem_singleton.2 (.file text)
  have hfound : m.find (Path.ofLocation ["a.py"]).text = .ok (["a.py"], .file text) := by
    rw [find, hfiles]
    rfl
  have hresolve := resolve_of_find (hlinkless.realPath_ofLocation _ hname.areSteps) hfound
  simp only [opening?, hresolve, hread]
  rfl

/-- A file is opened, is written anew, and is opened once more. -/
theorem documents_are_told_in_order_two :
    let incidents : List Incident := [.opens (.ofLocation ["a.py"]) none, .files (oneFile [121]),
      .opens (.ofLocation ["a.py"]) (some (.ofString "python"))]
    (oneFileClient.afterAll 0 incidents).told 0 (· = "file:///a.py") = [
      Message.notification "textDocument/didOpen"
        (some (Message.didOpenParams "file:///a.py" "plaintext" "x")),
      Message.notification "textDocument/didChange"
        (some (Message.didChangeParams "file:///a.py" 2 "y"))] := by
  intro incidents
  let first : Opening := ⟨.ofLocation ["a.py"], "x", "plaintext"⟩
  let second : Opening := ⟨.ofLocation ["a.py"], "y", "python"⟩
  have hopenings : openings 0 {} incidents oneFileClient = [first, second] := by
    simp only [incidents, openings]
    rw [opening?_oneFile [120] "x" rfl rfl, opening?_oneFile [121] "y" rfl rfl]
    rfl
  obtain ⟨-, htold, -⟩ := documents_are_told_in_order oneFileClient 0 {} rfl rfl incidents
  have hfirst : first.uri = "file:///a.py" := by decide
  have hsecond : second.uri = "file:///a.py" := by decide
  have hall : ∀ opening ∈ [first, second], opening.uri = "file:///a.py" :=
    List.forall_mem_cons.2 ⟨hfirst, List.forall_mem_singleton.2 hsecond⟩
  have hpath := htold "file:///a.py" fun opening hmem _ => hall opening (hopenings ▸ hmem)
  rw [hopenings, List.filter_eq_self.2 fun opening hmem => decide_eq_true (hall opening hmem)]
    at hpath
  refine hpath.trans ?_
  have hpipes : ({} : Session).hasPipes = true := rfl
  rw [if_pos hpipes, Message.telling, if_pos (LooseText.isPlain_ofString "plaintext"),
    List.zipIdx_singleton, List.map_singleton]
  simp only [hfirst, hsecond]
  rfl

end Machine

end ProjectCheck
