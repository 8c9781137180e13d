/-!
Runs at the start of a list. A run is as long as its test holds, so it ends where what follows it
starts with something that fails the test.
-/
namespace ProjectCheck.Text

variable {α : Type} {p : α → Bool} {run rest : List α}

def Stops (p : α → Bool) (rest : List α) : Prop := ∀ a, rest.head? = some a → p a = false

theorem Stops.nil : Stops p [] := fun _ h => nomatch h

theorem Stops.cons {a : α} (h : p a = false) : Stops p (a :: rest) := by
  intro b hb
  rw [← Option.some.inj hb, h]

theorem takeWhile_stops (hrest : Stops p rest) : rest.takeWhile p = [] := by
  cases rest with
  | nil => rfl
  | cons a rest => rw [List.takeWhile_cons_of_neg (by rw [hrest a rfl]; decide)]

theorem dropWhile_stops (hrest : Stops p rest) : rest.dropWhile p = rest := by
  cases rest with
  | nil => rfl
  | cons a rest => rw [List.dropWhile_cons_of_neg (by rw [hrest a rfl]; decide)]

theorem takeWhile_run (hrun : ∀ a ∈ run, p a = true) (hrest : Stops p rest) :
    (run ++ rest).takeWhile p = run := by
  rw [List.takeWhile_append_of_pos hrun, takeWhile_stops hrest, List.append_nil]

theorem takeWhile_eq_self (hrun : ∀ a ∈ run, p a = true) : run.takeWhile p = run := by
  simpa only [List.append_nil] using takeWhile_run hrun Stops.nil

theorem dropWhile_run (hrun : ∀ a ∈ run, p a = true) (hrest : Stops p rest) :
    (run ++ rest).dropWhile p = rest := by
  rw [List.dropWhile_append_of_pos hrun, dropWhile_stops hrest]

theorem mem_takeWhile {a : α} {s : List α} (h : a ∈ s.takeWhile p) : p a = true :=
  List.all_eq_true.1 List.all_takeWhile a h

/-- What is left of a list without the run at its start starts with nothing of the kind. -/
theorem stops_dropWhile (p : α → Bool) (s : List α) : Stops p (s.dropWhile p) := by
  intro a ha
  have := List.head?_dropWhile_not p s
  rwa [ha] at this

end ProjectCheck.Text
