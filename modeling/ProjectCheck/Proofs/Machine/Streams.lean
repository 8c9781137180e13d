import ProjectCheck.Proofs.Machine.Delivery
import ProjectCheck.Proofs.Server.Streams

/-!
Reading streams of any octets. Whatever a server writes and however it comes in pieces, the client
takes the same contents in the same order and is left with the same octets, or stops at the same
length that has too many digits.
-/
namespace ProjectCheck.Machine

open Run Frame Text

variable {pid : Nat} {unframed : Bytes} {m : Machine}

def handOverTaken (pid : Nat) (taken : Taken) : Run Machine Bytes := do
  taken.contents.forM (readContent pid)
  match taken.fault with
  | some fault => .fail (.number fault)
  | none => return taken.rest

theorem readPiece_eq_handOverTaken (pid : Nat) (unframed piece : Bytes) :
    readPiece pid unframed piece = handOverTaken pid (takeAll (unframed ++ piece)) := by
  unfold readPiece handOverTaken
  simp only
  cases (takeAll (unframed ++ piece)).fault <;> rfl

/-- What was taken from the start of a stream is handed over before what is taken when the rest of
the stream has come. -/
theorem handOverTaken_followedBy (pid : Nat) (taken : Taken) (more : Bytes) :
    handOverTaken pid (taken.followedBy more) =
      handOverTaken pid taken >>= fun left => handOverTaken pid (takeAll (left ++ more)) := by
  unfold Taken.followedBy handOverTaken
  cases hfault : taken.fault with
  | some fault =>
    simp only [bind_assoc]
    rfl
  | none => simp only [List.forM_eq_forM, List.forM_append, bind_assoc, pure_bind]

theorem isAlive_handOverTaken (pid : Nat) (taken : Taken) (m : Machine) :
    Moves (fun m after => IsAlive pid m → IsAlive pid after) (handOverTaken pid taken) m := by
  refine Moves.bind (Steady.keeps _)
    (Moves.forM (Steady.keeps _) (fun content _ => isAlive_readContent pid content) m)
    fun _ after => ?_
  split <;> exact (Steady.keeps _).refl after

theorem takeFrame_of_handOverTaken {stream left : Bytes} {after : Machine}
    (h : (handOverTaken pid (takeAll stream)).run m = (.ok left, after)) :
    takeFrame left = .ok none := by
  obtain ⟨_, between, -, hending⟩ := run_bind_eq_ok.1 h
  have hrest := takeFrame_rest stream
  cases hfault : (takeAll stream).fault with
  | some fault =>
    rw [hfault] at hending
    cases hending
  | none =>
    rw [hfault] at hending hrest
    cases hending
    exact hrest

/-- Pieces are read as the stream that they make up. -/
theorem readPieces_taken (hm : IsAlive pid m) (hunframed : takeFrame unframed = .ok none)
    (pieces : List Bytes) :
    (readPieces pid unframed pieces).run m =
      (some <$> handOverTaken pid (takeAll (unframed ++ pieces.flatten))).run m := by
  induction pieces generalizing unframed m with
  | nil =>
    have hall : takeAll unframed = ⟨[], unframed, none⟩ := by rw [takeAll_eq, hunframed]
    rw [List.flatten_nil, List.append_nil, hall, readPieces,
      run_bind_ok (checkAlive_of_isAlive hm)]
    rfl
  | cons piece pieces ih =>
    have halive := isAlive_handOverTaken pid (takeAll (unframed ++ piece)) m
    rw [readPieces_cons hm, readPiece_eq_handOverTaken, List.flatten_cons, ← List.append_assoc,
      takeAll_followedBy (unframed ++ piece) pieces.flatten,
      handOverTaken_followedBy pid (takeAll (unframed ++ piece)), map_bind, run_bind, run_bind]
    rcases hpiece : (handOverTaken pid (takeAll (unframed ++ piece))).run m with ⟨_ | left, after⟩
    · rfl
    · rw [Moves, Ends, hpiece] at halive
      exact ih (halive hm) (takeFrame_of_handOverTaken hpiece)

/-- A stream of any octets is taken apart into blocks and a rest from which nothing can be taken, or
which starts with a header whose length has too many digits. What is handed over depends on the
octets only and not on the pieces they come in, and frames behind octets that declare no length are
all handed over. -/
theorem cuts_do_not_matter (stream : Bytes) :
    (∀ pid m pieces, IsAlive pid m → pieces.flatten = stream →
      (readPieces pid [] pieces).run m = (some <$> handOverTaken pid (takeAll stream)).run m ∧
      ([] ∉ pieces → ((m.session? pid).map (·.hasPipes)).getD false = true →
        (readStream pid pieces).run m = ExceptT.run (do
          let _ ← handOverTaken pid (takeAll stream)
          log .debug "LSP Client: No more data from server, stopping reader") m)) ∧
    (∀ part content rest, takeFrame part = .ok (some (content, rest)) →
      rest.length + 4 ≤ part.length) ∧
    (∃ blocks : List (Bytes × Bytes), (takeAll stream).contents = blocks.map Prod.snd ∧
      stream = (blocks.flatMap fun b => block b.1 b.2) ++ (takeAll stream).rest ∧
      ∀ b ∈ blocks, IsBlock b.1 b.2) ∧
    ((takeAll stream).fault = none → takeFrame (takeAll stream).rest = .ok none) ∧
    ((takeAll stream).fault.isSome ↔ ∃ header body digits,
      (takeAll stream).rest = header ++ (separator ++ body) ∧ IsHeader header ∧
        FirstDeclaration header digits ∧ digitLimit < digits.length) ∧
    ∀ garbage frames more,
      stream = garbage ++ (separator ++ ((frames.flatMap fun f => block f.1 f.2) ++ more)) →
      HasNoDeclaration garbage → (∀ f ∈ frames, IsFrame f.1 f.2) → frames ≠ [] →
      ∃ count, takeAll stream = { takeAll more with
        contents := List.replicate count [] ++
          (frames.map Prod.snd ++ (takeAll more).contents) } := by
  have hrest := takeFrame_rest stream
  refine ⟨fun pid m pieces hm hpieces => ?_, fun part content rest htake => ?_,
    exists_blocks stream, fun hnone => ?_, ?_, fun garbage frames more hstream hgarbage hframes
      hsome => ?_⟩
  · have hnothing : takeFrame [] = .ok none := rfl
    have hall := readPieces_taken hm hnothing pieces
    rw [List.nil_append, hpieces] at hall
    refine ⟨hall, fun hsome hpipes => ?_⟩
    rw [readStream_run hpipes hsome, run_bind, hall, ← run_bind]
    simp only [map_eq_pure_bind, bind_assoc, pure_bind, Option.isSome_some, ↓reduceIte]
  · have := length_of_takeFrame htake
    omega
  · rw [hnone] at hrest
    exact hrest
  · rw [← exists_takeFrame_error_iff]
    cases hfault : (takeAll stream).fault with
    | none =>
      rw [hfault] at hrest
      refine iff_of_false nofun ?_
      rintro ⟨fault, herror⟩
      cases hrest.symm.trans herror
    | some fault =>
      rw [hfault] at hrest
      exact iff_of_true rfl ⟨fault, hrest⟩
  · obtain ⟨count, hall⟩ := takeAll_garbage_frames hgarbage hframes hsome
    exact ⟨count, hstream ▸ hall more⟩

/-- A stream that starts with a line that is no header and ends inside a header, cut inside the
blank line behind the first line. -/
theorem cuts_do_not_matter_line :
    let garbage := utf8 "ready\r\n"
    let frames := [(utf8 "Content-Type: text\r\nCONTENT-length:\t2", utf8 "{}"),
      (utf8 "Content-Length: 1", utf8 "x")]
    let stream := garbage ++ (separator ++ ((frames.flatMap fun f => block f.1 f.2) ++ utf8 "Con"))
    let pieces := [stream.take 8, stream.drop 8]
    let m : Machine :=
      { files := .directory [], workingDirectory := [], connections := [⟨{}, {}, [], none, [], [],
        [], .over, .over, .over⟩] }
    (∃ count, takeAll stream =
      ⟨List.replicate count [] ++ [utf8 "{}", utf8 "x"], utf8 "Con", none⟩) ∧
    (readPieces 0 [] pieces).run m = (some <$> handOverTaken 0 (takeAll stream)).run m ∧
    (readStream 0 pieces).run m = ExceptT.run (do
      let _ ← handOverTaken 0 (takeAll stream)
      log .debug "LSP Client: No more data from server, stopping reader") m := by
  intro garbage frames stream pieces m
  have hframe (header content : Bytes)
      (hsplit : splitHeader (header ++ separator) = some (header, []))
      (hlength : declaredLength header = .ok content.length)
      (hstarts : ∃ b rest, header = b :: rest ∧ b ≠ 0x0D) : IsFrame header content :=
    ⟨⟨(splitHeader_eq_some_iff.1 hsplit).2, declaredLength_eq_ok_iff.1 hlength⟩, hstarts⟩
  have hframes : ∀ f ∈ frames, IsFrame f.1 f.2 := List.forall_mem_cons.2
    ⟨hframe _ _ rfl rfl ⟨_, _, rfl, by decide⟩, List.forall_mem_cons.2
      ⟨hframe _ _ rfl rfl ⟨_, _, rfl, by decide⟩, nofun⟩⟩
  have hnone : HasNoDeclaration garbage := declaration?_eq_none_iff.1 rfl
  have hflat : pieces.flatten = stream := by rfl
  obtain ⟨hread, -, -, -, -, hgarbage⟩ := cuts_do_not_matter stream
  obtain ⟨hpieces, hstream⟩ := hread 0 m pieces ⟨_, rfl, rfl, rfl⟩ hflat
  obtain ⟨count, hall⟩ := hgarbage garbage frames (utf8 "Con") rfl hnone hframes nofun
  exact ⟨⟨count, hall⟩, hpieces, hstream (by decide) rfl⟩

end ProjectCheck.Machine
