import ProjectCheck.Proofs.Json.Lossless
import ProjectCheck.Proofs.Machine.Reading
import ProjectCheck.Proofs.Server.Reception
import ProjectCheck.Proofs.Text.Utf8

/-!
Messages come to the client as they were sent. A stream of frames may come in any pieces and may
end anywhere; the client takes the messages whose frames have come as a whole, in order, and nothing
else.
-/
namespace ProjectCheck.Machine

open Run Frame Text

variable {pid : Nat} {message : Json} {messages : List Json} {frames pieces : List Bytes}

/-! One message. -/

theorem parseContent_content (h : message.isLossless Json.depthLimit = true) :
    parseContent (content message) = .ok message := by
  simp only [parseContent, content, decodeUtf8?_encodeUtf8, Json.parse, Json.read,
    String.toList_ofList, Json.readChars_of_isLossless h]

theorem readContent_content (h : message.isLossless Json.depthLimit = true) :
    readContent pid (content message) = receive pid message := by
  have hparsed := parseContent_content h
  have hsome : (content message).isEmpty = false := by
    rw [List.isEmpty_eq_false_iff]
    intro hnil
    rw [hnil] at hparsed
    cases hparsed
  unfold readContent
  simp only [hsome, Bool.false_eq_true, ↓reduceIte, hparsed]

theorem forM_readContent (h : ∀ message ∈ messages, message.isLossless Json.depthLimit = true) :
    (messages.map content).forM (readContent pid) = messages.forM (receive pid) := by
  induction messages with
  | nil => rfl
  | cons message rest ih =>
    have hrest := ih fun other hmem => h other (List.mem_cons_of_mem message hmem)
    change readContent pid (content message) >>= (fun _ => (rest.map content).forM _) = _
    rw [readContent_content (h message (List.mem_cons_self ..)), hrest]
    rfl

/-! The client goes on as long as the server is alive, and no message ends it. -/

theorem isAlive_revise {m : Machine} {other : Nat} {change : Connection → Connection}
    (hchange : ∀ c, m.connection? other = some c →
      (change c).session.exitNoticed = c.session.exitNoticed ∧ (change c).exitCode = c.exitCode)
    (h : IsAlive pid m) : IsAlive pid (m.revise other change) := by
  obtain ⟨c, hc, hnoticed, hcode⟩ := h
  by_cases hpid : other = pid
  · subst hpid
    obtain ⟨hsame, hend⟩ := hchange c hc
    refine ⟨change c, ?_, hsame.trans hnoticed, hend.trans hcode⟩
    rw [connection?_revise_self, hc, Option.map_some]
  · exact ⟨c, (connection?_revise_of_ne hpid change m).trans hc, hnoticed, hcode⟩

theorem lenient_isAlive (pid : Nat) : Lenient fun m after => IsAlive pid m → IsAlive pid after where
  steady := Steady.keeps _
  quiet := fun hsame _ ⟨c, hc, hend⟩ => ⟨c, by rw [connection?, hsame]; exact hc, hend⟩
  tasks := fun _ _ _ _ _ => isAlive_revise fun _ _ => ⟨rfl, rfl⟩

theorem take_emptyReply (c : Connection) (id : Json) : c.take (Message.emptyReply id) = c := by
  unfold Connection.take
  split <;> rfl

theorem isAlive_receive (pid : Nat) (message : Json) (m : Machine) :
    Moves (fun m after => IsAlive pid m → IsAlive pid after) (receive pid message) m := by
  refine (lenient_isAlive pid).moves_receive (fun c hc => ?_) fun c reply _ hreply after => ?_
  · refine isAlive_revise fun c' hc' => ?_
    obtain rfl : c = c' := Option.some.inj (hc.symm.trans hc')
    obtain ⟨pending, published, hsession⟩ := c.session.alike_receive message
    rw [hsession]
    exact ⟨rfl, rfl⟩
  · obtain ⟨id, rfl⟩ := Session.reply_receive hreply
    refine (lenient_isAlive pid).moves_send fun c hc => ?_
    rw [take_emptyReply]
    refine fun h => isAlive_revise (fun c' hc' => ?_) h
    obtain rfl : c = c' := Option.some.inj (hc.symm.trans hc')
    exact ⟨rfl, rfl⟩

/-- Nor does any other content. -/
theorem isAlive_readContent (pid : Nat) (content : Bytes) (m : Machine) :
    Moves (fun m after => IsAlive pid m → IsAlive pid after) (readContent pid content) m := by
  unfold readContent
  split
  · exact fun h => h
  · split
    · exact isAlive_receive pid _ m
    · exact (lenient_isAlive pid).moves_log _ _ m
    · exact (lenient_isAlive pid).moves_log _ _ m
    · exact fun h => h

/-- A whole stream of frames is read as its contents. -/
theorem readPieces_all {m : Machine} {contents : List Bytes} (hm : IsAlive pid m)
    (hcontents : ∀ content ∈ contents, isMeasurable content = true)
    (hpieces : pieces.flatten = contents.flatMap ofContent) :
    (readPieces pid [] pieces).run m =
      (contents.forM (readContent pid) >>= fun _ => pure (some [])).run m := by
  obtain ⟨whole, left, rest, rfl, hstream, hrest, hrun⟩ := readPieces_run pid pieces hcontents
    (fun content _ => isAlive_readContent pid content) (.nil _)
    ⟨[], by rw [List.append_nil, List.nil_append, hpieces]⟩
  rw [List.nil_append, hpieces, List.flatMap_append, List.append_cancel_left_eq] at hstream
  obtain ⟨rfl, rfl⟩ := hrest.eq_nil hstream
  rw [hrun m hm, List.append_nil, handOver]
  simp only [map_bind, map_pure]

/-! All messages. -/

def wholeMessages (size : Nat) : List Json → List Json
  | [] => []
  | message :: rest =>
    let length := (ofContent (content message)).length
    if length ≤ size then message :: wholeMessages (size - length) rest else []

theorem wholeMessages_append {rest : Bytes} (whole left : List Json)
    (hrest : Unfinished (left.map content) rest) :
    wholeMessages (((whole.map content).flatMap ofContent ++ rest).length) (whole ++ left) =
      whole := by
  induction whole with
  | nil =>
    cases left with
    | nil => rfl
    | cons message left =>
      obtain ⟨size, hsize, rfl⟩ := hrest
      have hshort : ¬ (ofContent (content message)).length ≤
          ((ofContent (content message)).take size).length := by
        rw [List.length_take]
        omega
      simp only [List.map_nil, List.flatMap_nil, List.nil_append, wholeMessages, if_neg hshort]
  | cons message whole ih =>
    simp only [List.map_cons, List.flatMap_cons, List.append_assoc, List.cons_append,
      wholeMessages]
    rw [List.length_append, if_pos (Nat.le_add_right ..), Nat.add_sub_cancel_left, ih]

/-- The frames of messages that can all be written. -/
theorem frames_eq (h : messages.mapM ofMessage? = some frames) :
    frames = messages.map (fun message => ofContent (content message)) ∧
      ∀ message ∈ messages, isMeasurable (content message) = true := by
  induction messages generalizing frames with
  | nil => exact ⟨(Option.some.inj h).symm, fun _ hmem => absurd hmem List.not_mem_nil⟩
  | cons message rest ih =>
    rw [List.mapM_cons] at h
    obtain ⟨frame, hframe, h⟩ := Option.bind_eq_some_iff.1 h
    obtain ⟨others, hothers, h⟩ := Option.bind_eq_some_iff.1 h
    obtain ⟨rfl, hmeasurable⟩ := ih hothers
    obtain rfl := Option.some.inj h
    rw [ofMessage?] at hframe
    split at hframe
    · rename_i hwritten
      rw [Bool.and_eq_true] at hwritten
      obtain rfl := Option.some.inj hframe
      refine ⟨rfl, fun other hmem => ?_⟩
      rcases List.mem_cons.1 hmem with rfl | hmem
      · exact hwritten.2
      · exact hmeasurable other hmem
    · cases hframe

/-- What the client has of a stream of frames hands over the whole ones as messages. -/
theorem handOver_messages (h : ∀ message ∈ messages, message.isLossless Json.depthLimit = true)
    (rest : Bytes) :
    handOver pid (messages.map content) rest = do
      messages.forM (receive pid)
      return rest := by
  rw [handOver, forM_readContent h]

theorem readPieces_messages (pid : Nat) (pieces : List Bytes)
    (hlossless : ∀ message ∈ messages, message.isLossless Json.depthLimit = true)
    (hmeasurable : ∀ message ∈ messages, isMeasurable (content message) = true)
    (hcut : pieces.flatten <+: (messages.map content).flatMap ofContent) :
    ∃ whole left rest, messages = whole ++ left ∧
      pieces.flatten = (whole.map content).flatMap ofContent ++ rest ∧
      Unfinished (left.map content) rest ∧
      ∀ m, IsAlive pid m → (readPieces pid [] pieces).run m =
        ExceptT.run (do
          whole.forM (receive pid)
          return some rest) m := by
  obtain ⟨contents, others, rest, hsplit, hstream, hrest, hrun⟩ :=
    readPieces_run pid pieces
      (List.forall_mem_map.2 hmeasurable)
      (fun content _ => isAlive_readContent pid content)
      (.nil _) hcut
  obtain ⟨whole, left, rfl, rfl, rfl⟩ := List.map_eq_append_iff.1 hsplit
  refine ⟨whole, left, rest, rfl, hstream, hrest, fun m hm => ?_⟩
  rw [hrun m hm, handOver_messages fun message hmem =>
    hlossless message (List.mem_append_left left hmem)]
  simp only [map_bind, map_pure]

/-- A stream of pieces that are not empty is read to its end. -/
theorem readStream_run {m : Machine}
    (hpipes : ((m.session? pid).map (·.hasPipes)).getD false = true) (hpieces : [] ∉ pieces) :
    (readStream pid pieces).run m = ExceptT.run (do
      if (← readPieces pid [] pieces).isSome then
        log .debug "LSP Client: No more data from server, stopping reader") m := by
  have htake : pieces.takeWhile (· ≠ []) = pieces := by
    refine takeWhile_eq_self fun piece hmem => ?_
    exact decide_eq_true fun hnil => hpieces (hnil ▸ hmem)
  unfold readStream
  rw [run_bind_ok (run_get m), htake]
  simp only [hpipes, ↓reduceIte]

/-- Of a stream of messages that is cut anywhere and comes in any pieces, the client takes exactly
the messages that have come as a whole, and all of them when the stream has come to its end. -/
theorem messages_delivered (pid : Nat) (m : Machine) (messages : List Json)
    (frames pieces : List Bytes) (halive : IsAlive pid m)
    (hpipes : ((m.session? pid).map (·.hasPipes)).getD false = true)
    (hlossless : ∀ message ∈ messages, message.isLossless Json.depthLimit = true)
    (hframes : messages.mapM ofMessage? = some frames)
    (hpieces : [] ∉ pieces) (hcut : pieces.flatten <+: frames.flatten) :
    ∃ rest,
      pieces.flatten =
        ((wholeMessages pieces.flatten.length messages).map content).flatMap ofContent ++ rest ∧
      (readPieces pid [] pieces).run m = ExceptT.run (do
        (wholeMessages pieces.flatten.length messages).forM (receive pid)
        return some rest) m ∧
      (readStream pid pieces).run m = ExceptT.run (do
        (wholeMessages pieces.flatten.length messages).forM (receive pid)
        log .debug "LSP Client: No more data from server, stopping reader") m ∧
      (pieces.flatten = frames.flatten →
        wholeMessages pieces.flatten.length messages = messages ∧ rest = []) := by
  obtain ⟨rfl, hmeasurable⟩ := frames_eq hframes
  have hstreams : (messages.map fun message => ofContent (content message)).flatten =
      (messages.map content).flatMap ofContent := by
    rw [List.flatMap_map, List.flatMap_def]
  rw [hstreams] at hcut ⊢
  obtain ⟨whole, left, rest, rfl, hstream, hrest, hrun⟩ :=
    readPieces_messages pid pieces hlossless hmeasurable hcut
  have hwhole : wholeMessages pieces.flatten.length (whole ++ left) = whole := by
    rw [hstream, wholeMessages_append whole left hrest]
  rw [hwhole]
  refine ⟨rest, hstream, hrun m halive, ?_, fun hall => ?_⟩
  · rw [readStream_run hpipes hpieces, run_bind, hrun m halive, ← run_bind]
    simp only [bind_assoc, pure_bind, Option.isSome_some, ↓reduceIte]
  · rw [hstream, List.map_append, List.flatMap_append, List.append_cancel_left_eq] at hall
    obtain ⟨hleft, hnil⟩ := hrest.eq_nil hall.symm
    rw [List.map_eq_nil_iff.1 hleft]
    exact ⟨(List.append_nil whole).symm, hnil⟩

/-- Two messages whose stream is cut inside the second separator and inside a character. -/
theorem messages_delivered_two :
    let messages := [Json.object [("id", .int 1), ("result", .null)],
      .object [("method", .string "é")]]
    let frames := messages.map fun message => ofContent (content message)
    let pieces := [frames.flatten.take 67, (frames.flatten.drop 67).take 15, frames.flatten.drop 82]
    let m : Machine :=
      { files := .directory [], workingDirectory := [], connections := [⟨{}, {}, [], none, [], [],
        [], .over, .over, .over⟩] }
    pieces.all (· ≠ []) = true ∧
    (readPieces 0 [] pieces).run m = ExceptT.run (do
      messages.forM (receive 0)
      return some []) m := by
  intro messages frames pieces m
  have hflat : pieces.flatten = frames.flatten := by rfl
  obtain ⟨rest, -, hrun, -, hall⟩ := messages_delivered 0 m messages frames pieces
    ⟨_, rfl, rfl, rfl⟩ rfl (by decide) rfl (by decide) ⟨[], by rw [hflat, List.append_nil]⟩
  obtain ⟨hwhole, rfl⟩ := hall hflat
  rw [hwhole] at hrun
  exact ⟨by decide, hrun⟩

end ProjectCheck.Machine
