import ProjectCheck.Proofs.Json.Members
import ProjectCheck.Proofs.Json.Reread

/-!
Values that a JSON text carries without loss: no number with a fraction, no lone surrogate, no whole
number of too many digits, no name twice in one object, and no nesting beyond a depth. Such a value
is read back as itself.
-/
namespace ProjectCheck

namespace Json

open Text

mutual

def isLossless : Nat → Json → Bool
  | _, null => true
  | _, bool _ => true
  | _, int i => (Nat.toDigits 10 i.natAbs).length ≤ digitLimit
  | _, string _ => true
  | depth + 1, array items => areLossless depth items
  | depth + 1, object members => decide (Members.names members).Nodup && haveLossless depth members
  | _, _ => false

def areLossless : Nat → List Json → Bool
  | _, [] => true
  | depth, item :: rest => item.isLossless depth && areLossless depth rest

def haveLossless : Nat → List (String × Json) → Bool
  | _, [] => true
  | depth, (_, value) :: rest => value.isLossless depth && haveLossless depth rest

end

mutual

theorem reread_of_isLossless : ∀ (depth : Nat) (v : Json), v.isLossless depth = true →
    reread depth v = .ok v
  | _, null, _ => rfl
  | _, bool _, _ => rfl
  | _, int i, h => by
    have hdigits : ¬ (Nat.toDigits 10 i.natAbs).length > digitLimit := by
      simp only [isLossless, decide_eq_true_eq] at h
      omega
    rw [reread, rereadInt, if_neg hdigits]
  | _, string _, _ => rfl
  | depth + 1, array items, h => by
    rw [reread, rereadItems_of_areLossless depth items h]
    rfl
  | depth + 1, object members, h => by
    simp only [isLossless, Bool.and_eq_true, decide_eq_true_eq] at h
    rw [reread, rereadMembers_of_haveLossless depth [] members h.1 h.2]
    rfl
  | 0, array _, h => absurd h Bool.false_ne_true
  | 0, object _, h => absurd h Bool.false_ne_true
  | 0, float _, h | _ + 1, float _, h => absurd h Bool.false_ne_true
  | 0, illFormed _, h | _ + 1, illFormed _, h => absurd h Bool.false_ne_true
  | 0, illNamed _ _, h | _ + 1, illNamed _ _, h => absurd h Bool.false_ne_true

theorem rereadItems_of_areLossless : ∀ (depth : Nat) (items : List Json),
    areLossless depth items = true → rereadItems depth items = .ok items
  | _, [], _ => rfl
  | depth, item :: rest, h => by
    simp only [areLossless, Bool.and_eq_true] at h
    rw [rereadItems, reread_of_isLossless depth item h.1,
      rereadItems_of_areLossless depth rest h.2]
    rfl

/-- Members with new names are put behind those that were found. -/
theorem rereadMembers_of_haveLossless : ∀ (depth : Nat) (found members : Members Json),
    (Members.names (found ++ members)).Nodup → haveLossless depth members = true →
      rereadMembers depth found members = .ok (found ++ members)
  | _, found, [], _, _ => by rw [rereadMembers, List.append_nil]
  | depth, found, (name, value) :: rest, hnames, h => by
    simp only [haveLossless, Bool.and_eq_true] at h
    have hnew : name ∉ Members.names found := by
      simp only [Members.names, List.map_append, List.map_cons] at hnames ⊢
      intro hmem
      exact (List.nodup_append.1 hnames).2.2 name hmem name (List.mem_cons_self ..) rfl
    have hset := Members.set_of_not_mem hnew value
    have hassoc : found ++ [(name, value)] ++ rest = found ++ (name, value) :: rest := by
      rw [List.append_assoc]
      rfl
    rw [rereadMembers, reread_of_isLossless depth value h.1]
    change rereadMembers depth (Members.set name value found) rest = _
    rw [hset, rereadMembers_of_haveLossless depth _ rest (by rwa [hassoc]) h.2, hassoc]

end

mutual

theorem isWellFormed_of_isLossless : ∀ (depth : Nat) (v : Json), v.isLossless depth = true →
    v.isWellFormed = true
  | _, null, _ => rfl
  | _, bool _, _ => rfl
  | _, int _, _ => rfl
  | _, string _, _ => rfl
  | depth + 1, array items, h => areWellFormed_of_areLossless depth items h
  | depth + 1, object members, h => by
    simp only [isLossless, Bool.and_eq_true, decide_eq_true_eq] at h
    exact haveWellFormed_of_haveLossless depth members h.2
  | 0, array _, h => absurd h Bool.false_ne_true
  | 0, object _, h => absurd h Bool.false_ne_true
  | 0, float _, h | _ + 1, float _, h => absurd h Bool.false_ne_true
  | 0, illFormed _, h | _ + 1, illFormed _, h => absurd h Bool.false_ne_true
  | 0, illNamed _ _, h | _ + 1, illNamed _ _, h => absurd h Bool.false_ne_true

theorem areWellFormed_of_areLossless : ∀ (depth : Nat) (items : List Json),
    areLossless depth items = true → areWellFormed items = true
  | _, [], _ => rfl
  | depth, item :: rest, h => by
    simp only [areLossless, Bool.and_eq_true] at h
    rw [areWellFormed, isWellFormed_of_isLossless depth item h.1,
      areWellFormed_of_areLossless depth rest h.2]
    rfl

theorem haveWellFormed_of_haveLossless : ∀ (depth : Nat) (members : List (String × Json)),
    haveLossless depth members = true → haveWellFormed members = true
  | _, [], _ => rfl
  | depth, (_, value) :: rest, h => by
    simp only [haveLossless, Bool.and_eq_true] at h
    rw [haveWellFormed, isWellFormed_of_isLossless depth value h.1,
      haveWellFormed_of_haveLossless depth rest h.2]
    rfl

end

/-- A value without loss is read back from its text. -/
theorem readChars_of_isLossless {v : Json} (h : v.isLossless depthLimit = true) :
    readChars (writeChars v) = .ok v := by
  rw [readChars_writeChars (isWellFormed_of_isLossless depthLimit v h),
    reread_of_isLossless depthLimit v h]

end Json

end ProjectCheck
