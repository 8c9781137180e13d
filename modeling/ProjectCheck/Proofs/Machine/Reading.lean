import ProjectCheck.Proofs.Machine.Lenient
import ProjectCheck.Proofs.Server.Frames

/-!
Reading a stream of frames by pieces. However the stream is cut into pieces, the contents that are
taken are those of the frames that have come as a whole, in order, as long as taking them does not
show that the server has ended.
-/
namespace ProjectCheck.Machine

open Run Frame

variable {pid : Nat} {unframed piece rest : Bytes} {contents whole left : List Bytes}

def IsAlive (pid : Nat) (m : Machine) : Prop :=
  ∃ c, m.connection? pid = some c ∧ c.session.exitNoticed = false ∧ c.exitCode = none

theorem checkAlive_of_isAlive {m : Machine} (h : IsAlive pid m) :
    (checkAlive pid).run m = (.ok true, m) := by
  obtain ⟨c, hc, hnoticed, hcode⟩ := h
  unfold checkAlive
  rw [run_bind_ok (run_get m)]
  simp only [hc, hnoticed, hcode, Bool.false_eq_true, ↓reduceIte, run_pure]

def handOver (pid : Nat) (whole : List Bytes) (rest : Bytes) : Run Machine Bytes := do
  whole.forM (readContent pid)
  return rest

theorem handOver_append (pid : Nat) (whole others : List Bytes) (rest : Bytes) :
    handOver pid (whole ++ others) rest =
      whole.forM (readContent pid) >>= fun _ => handOver pid others rest := by
  simp only [handOver, List.forM_eq_forM, List.forM_append, bind_assoc]

theorem handOver_bind {α : Type} (pid : Nat) (whole : List Bytes) (rest : Bytes)
    (next : Bytes → Run Machine α) :
    handOver pid whole rest >>= next = whole.forM (readContent pid) >>= fun _ => next rest := by
  simp only [handOver, bind_assoc, pure_bind]

/-- One more piece hands over the frames that it completes. -/
theorem readPiece_eq (hcontents : ∀ content ∈ whole ++ left, isMeasurable content = true)
    (hrest : Unfinished left rest)
    (hstream : unframed ++ piece = whole.flatMap ofContent ++ rest) :
    readPiece pid unframed piece = handOver pid whole rest := by
  unfold readPiece
  rw [hstream, takeAll_append hcontents hrest]
  rfl

/-- What stays alive while a piece is taken can go on with what is left of it. -/
theorem readPieces_cons {m : Machine} (hm : IsAlive pid m) (pieces : List Bytes) :
    (readPieces pid unframed (piece :: pieces)).run m =
      (readPiece pid unframed piece >>= fun left => readPieces pid left pieces).run m := by
  rw [readPieces, run_bind_ok (checkAlive_of_isAlive hm)]
  rfl

/-- Pieces that make up the start of a stream of frames hand over the frames that they complete. -/
theorem readPieces_run (pid : Nat) (pieces : List Bytes)
    (hcontents : ∀ content ∈ contents, isMeasurable content = true)
    (htaken : ∀ content ∈ contents, ∀ m,
      Moves (fun m after => IsAlive pid m → IsAlive pid after) (readContent pid content) m)
    (hunframed : Unfinished contents unframed)
    (hstream : unframed ++ pieces.flatten <+: contents.flatMap ofContent) :
    ∃ whole left rest, contents = whole ++ left ∧
      unframed ++ pieces.flatten = whole.flatMap ofContent ++ rest ∧ Unfinished left rest ∧
      ∀ m, IsAlive pid m →
        (readPieces pid unframed pieces).run m = (some <$> handOver pid whole rest).run m := by
  induction pieces generalizing unframed contents with
  | nil =>
    refine ⟨[], contents, unframed, rfl, by simp, hunframed, fun m hm => ?_⟩
    rw [readPieces, run_bind_ok (checkAlive_of_isAlive hm)]
    rfl
  | cons piece pieces ih =>
    rw [List.flatten_cons, ← List.append_assoc] at hstream ⊢
    obtain ⟨whole, left, rest, rfl, hpiece, hrest⟩ :=
      exists_cut ((List.prefix_append ..).trans hstream)
    rw [hpiece, List.flatMap_append, List.append_assoc, List.prefix_append_right_inj] at hstream
    obtain ⟨others, last, after, rfl, hothers, hafter, hrun⟩ := ih
      (fun content h => hcontents content (List.mem_append_right whole h))
      (fun content h => htaken content (List.mem_append_right whole h)) hrest hstream
    refine ⟨whole ++ others, last, after, (List.append_assoc ..).symm, ?_, hafter, fun m hm => ?_⟩
    · rw [hpiece, List.append_assoc, hothers, List.flatMap_append, List.append_assoc]
    · rw [readPieces_cons hm, readPiece_eq hcontents hrest hpiece, handOver_append,
        map_bind (m := Run Machine), handOver_bind]
      have halive : Moves (fun m after => IsAlive pid m → IsAlive pid after)
          (whole.forM (readContent pid)) m :=
        Moves.forM (Steady.keeps _) (fun content h =>
          htaken content (List.mem_append_left (others ++ last) h)) m
      rw [run_bind, run_bind]
      rcases hend : (whole.forM (readContent pid)).run m with ⟨_ | _, machine⟩
      · rfl
      · rw [Moves, Ends, hend] at halive
        exact hrun machine (halive hm)

/-- Reading pieces leads out of a relation only by the contents that are taken. What is left when
the reading goes on is what is left of the stream. -/
theorem readPieces_ends (pid : Nat) {related : Machine → Machine → Prop} (hR : Steady related)
    (pieces : List Bytes) (hcontents : ∀ content ∈ contents, isMeasurable content = true)
    (halive : ∀ m, Moves related (checkAlive pid) m)
    (htaken : ∀ content ∈ contents, ∀ m, Moves related (readContent pid content) m)
    (hunframed : Unfinished contents unframed)
    (hstream : unframed ++ pieces.flatten <+: contents.flatMap ofContent) (m : Machine) :
    Ends (readPieces pid unframed pieces) m fun result after => related m after ∧
      ∀ left, result = .ok (some left) → ∃ whole others, contents = whole ++ others ∧
        unframed ++ pieces.flatten = whole.flatMap ofContent ++ left ∧ Unfinished others left := by
  induction pieces generalizing unframed contents m with
  | nil =>
    refine Ends.bind_of (halive m) (fun alive after h => Ends.pure ⟨h, fun left heq => ?_⟩)
      fun failure after h => ⟨h, nofun⟩
    cases alive with
    | false => cases heq
    | true =>
      obtain rfl : unframed = left := Option.some.inj (Except.ok.inj heq)
      exact ⟨[], contents, rfl, by simp, hunframed⟩
  | cons piece pieces ih =>
    rw [List.flatten_cons, ← List.append_assoc] at hstream ⊢
    obtain ⟨whole, left, rest, rfl, hpiece, hrest⟩ :=
      exists_cut ((List.prefix_append ..).trans hstream)
    rw [hpiece, List.flatMap_append, List.append_assoc, List.prefix_append_right_inj] at hstream
    rw [readPieces, readPiece_eq hcontents hrest hpiece]
    refine Ends.bind_of (halive m) (fun alive between h => ?_) fun failure after h => ⟨h, nofun⟩
    split
    · rw [handOver_bind]
      have hwhole : Moves related (whole.forM (readContent pid)) between :=
        Moves.forM hR (fun content hmem => htaken content (List.mem_append_left left hmem)) between
      refine Ends.bind_of hwhole (fun _ last hlast => ?_) fun failure after hfail =>
        ⟨hR.trans h hfail, nofun⟩
      have hrec := ih (fun content h => hcontents content (List.mem_append_right whole h))
        (fun content h => htaken content (List.mem_append_right whole h)) hrest hstream last
      refine hrec.mono fun result after ⟨hafter, hleft⟩ =>
        ⟨hR.trans (hR.trans h hlast) hafter, fun final heq => ?_⟩
      obtain ⟨more, others, rfl, hmore, hothers⟩ := hleft final heq
      refine ⟨whole ++ more, others, (List.append_assoc ..).symm, ?_, hothers⟩
      rw [hpiece, List.append_assoc, hmore, List.flatMap_append, List.append_assoc]
    · exact Ends.pure ⟨h, nofun⟩

end ProjectCheck.Machine
