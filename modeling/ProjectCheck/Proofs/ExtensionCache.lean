import ProjectCheck.ExtensionCache
import ProjectCheck.Proofs.FirstOccurrences

/-!
A cache of extensions in use. Lists are things that whoever holds them can change, so the cache
keeps a list that nobody else holds and gives away copies. What it gives is then read off the
history alone: it is what the source said when it was first asked with success since the cache was
last invalidated, whatever was done to the source and to the lists that were given away.
-/
namespace ProjectCheck

/-- A cache in use. Lists have numbers, and whoever has the number of a list sees what others make
of it. The cache has the number of the list that it keeps, and callers have the numbers of the lists
that they were given. -/
structure CacheUse where
  source : Except Failure (List LooseText)
  lists : List (List LooseText) := []
  kept : Option Nat := none
  given : List Nat := []
  asked : Nat := 0

namespace CacheUse

/-- What happens to a cache and around it. A list that was given away is changed by its place among
those that were given. -/
inductive Action where
  | get
  | mutate (place : Nat) (change : List LooseText → List LooseText)
  | invalidate
  | source (said : Except Failure (List LooseText))

def cache (u : CacheUse) : ExtensionCache := ⟨u.kept.bind fun number => u.lists[number]?⟩

def keep (extensions : List LooseText) (u : CacheUse) : CacheUse :=
  { u with lists := u.lists ++ [extensions], kept := some u.lists.length }

def give (extensions : List LooseText) (u : CacheUse) : CacheUse :=
  { u with lists := u.lists ++ [extensions], given := u.given ++ [u.lists.length] }

def get (u : CacheUse) : Except Failure (List LooseText) × CacheUse :=
  let reading := u.cache.read u.source
  let u := if reading.asked then { u with asked := u.asked + 1 } else u
  match reading.result with
  | .error failure => (.error failure, u)
  | .ok extensions =>
    (.ok extensions, (if reading.asked then u.keep extensions else u).give extensions)

def mutate (place : Nat) (change : List LooseText → List LooseText) (u : CacheUse) : CacheUse :=
  match u.given[place]? with
  | some number => { u with lists := u.lists.modify number change }
  | none => u

def Action.step : Action → CacheUse → CacheUse
  | .get, u => u.get.2
  | .mutate place change, u => u.mutate place change
  | .invalidate, u => { u with kept := none }
  | .source said, u => { u with source := said }

def fresh (source : Except Failure (List LooseText)) : CacheUse := { source }

def after (u : CacheUse) (actions : List Action) : CacheUse :=
  actions.foldl (fun u action => action.step u) u

def Action.heard : Action → Except Failure (List LooseText) → Except Failure (List LooseText)
  | .source said, _ => said
  | _, said => said

def sourceAfter (opening : Except Failure (List LooseText)) (actions : List Action) :
    Except Failure (List LooseText) :=
  actions.foldl (fun said action => action.heard said) opening

structure IsCut (old recent : List Action) : Prop where
  opened : old = [] ∨ ∃ before, old = before ++ [.invalidate]
  kept : ∀ action ∈ recent, action ≠ .invalidate

/-- The source said this when it was first asked with success since the cache was last invalidated:
after that, or from the start, the cache was read some times while the source failed, then it was
read with success, and it was not invalidated since. -/
structure IsFirstSaid (opening : Except Failure (List LooseText)) (said : List LooseText)
    (old refused since : List Action) : Prop where
  cut : IsCut old (refused ++ .get :: since)
  failed : ∀ earlier later, refused = earlier ++ .get :: later →
    ∃ failure, sourceAfter opening (old ++ earlier) = .error failure
  succeeded : sourceAfter opening (old ++ refused) = .ok said

def FirstSaid (opening : Except Failure (List LooseText)) (actions : List Action)
    (said : List LooseText) : Prop :=
  ∃ old refused since, actions = old ++ (refused ++ .get :: since) ∧
    IsFirstSaid opening said old refused since

variable {opening : Except Failure (List LooseText)} {actions : List Action} {action : Action}
  {said : List LooseText}

theorem sourceAfter_concat (opening : Except Failure (List LooseText)) (actions : List Action)
    (action : Action) :
    sourceAfter opening (actions ++ [action]) = action.heard (sourceAfter opening actions) :=
  List.foldl_append ..

theorem IsCut.concat {old recent : List Action} (h : IsCut old recent)
    (hkept : action ≠ .invalidate) : IsCut old (recent ++ [action]) :=
  ⟨h.opened, List.forall_mem_append.2 ⟨h.kept, List.forall_mem_singleton.2 hkept⟩⟩

theorem exists_isCut (actions : List Action) :
    ∃ old recent, actions = old ++ recent ∧ IsCut old recent := by
  induction actions using List.reverseRecOn with
  | nil => exact ⟨[], [], rfl, .inl rfl, nofun⟩
  | append_singleton actions action ih =>
    by_cases hlast : action = .invalidate
    · subst hlast
      exact ⟨actions ++ [.invalidate], [], (List.append_nil _).symm, .inr ⟨actions, rfl⟩, nofun⟩
    · obtain ⟨old, recent, rfl, hcut⟩ := ih
      exact ⟨old, recent ++ [action], List.append_assoc .., hcut.concat hlast⟩

/-- A cut cannot be moved to the right: the actions that it would pass end with one that
invalidates. -/
theorem IsCut.eq_nil {old more recent more' : List Action} (h : IsCut old (more ++ recent))
    (hopened : old ++ more = [] ∨ ∃ before, old ++ more = before ++ [.invalidate])
    (hmore : more' = more) : more' = [] := by
  subst hmore
  rcases List.eq_nil_or_concat more' with rfl | ⟨init, last, rfl⟩
  · rfl
  · rcases hopened with hnil | ⟨before, hbefore⟩
    · simp at hnil
    · rw [List.concat_eq_append, ← List.append_assoc] at hbefore
      have hlast : last = .invalidate :=
        List.singleton_inj.1 (List.append_inj' hbefore rfl).2
      exact absurd hlast (h.kept last (by simp))

theorem IsCut.unique {old recent old' recent' : List Action} (h : IsCut old recent)
    (h' : IsCut old' recent') (heq : old ++ recent = old' ++ recent') :
    old = old' ∧ recent = recent' := by
  rcases List.append_eq_append_iff.1 heq with ⟨more, rfl, rfl⟩ | ⟨more, rfl, rfl⟩
  · obtain rfl := h.eq_nil h'.opened rfl
    exact ⟨(List.append_nil old).symm, rfl⟩
  · obtain rfl := h'.eq_nil h.opened rfl
    exact ⟨List.append_nil old', rfl⟩

/-- Where the cache was read with success there was a first time: a reading before this one that
succeeded too has fewer actions before it. -/
theorem firstSaid_of_ok {old earlier later : List Action} {said : List LooseText}
    (hcut : IsCut old (earlier ++ .get :: later))
    (hok : sourceAfter opening (old ++ earlier) = .ok said) :
    ∃ first, FirstSaid opening (old ++ (earlier ++ .get :: later)) first := by
  by_cases hfirst : ∀ before between, earlier = before ++ .get :: between →
      ∃ failure, sourceAfter opening (old ++ before) = .error failure
  · exact ⟨said, old, earlier, later, rfl, hcut, hfirst, hok⟩
  · push Not at hfirst
    obtain ⟨before, between, hparts, hnot⟩ := hfirst
    obtain ⟨nearer, hnearer⟩ : ∃ nearer, sourceAfter opening (old ++ before) = .ok nearer := by
      cases hsource : sourceAfter opening (old ++ before) with
      | error failure => exact absurd hsource (hnot failure)
      | ok nearer => exact ⟨nearer, rfl⟩
    have hagain : earlier ++ .get :: later = before ++ .get :: (between ++ .get :: later) := by
      rw [hparts, List.append_assoc, List.cons_append]
    have hshorter : before.length < earlier.length := by
      rw [hparts, List.length_append, List.length_cons]
      omega
    rw [hagain] at hcut ⊢
    exact firstSaid_of_ok hcut hnearer
termination_by earlier.length

theorem not_firstSaid_nil : ¬FirstSaid opening [] said := by
  rintro ⟨old, refused, since, hparts, -⟩
  simp at hparts

theorem FirstSaid.concat (h : FirstSaid opening actions said) (hkept : action ≠ .invalidate) :
    FirstSaid opening (actions ++ [action]) said := by
  obtain ⟨old, refused, since, rfl, hcut, hfailed, hok⟩ := h
  refine ⟨old, refused, since ++ [action], by simp, ?_, hfailed, hok⟩
  simpa using hcut.concat hkept

theorem FirstSaid.of_concat (h : FirstSaid opening (actions ++ [action]) said) :
    action ≠ .invalidate ∧ (FirstSaid opening actions said ∨ action = .get ∧
      sourceAfter opening actions = .ok said ∧ ∀ first, ¬FirstSaid opening actions first) := by
  obtain ⟨old, refused, since, hparts, hcut, hfailed, hok⟩ := h
  rcases List.eq_nil_or_concat since with rfl | ⟨init, last, rfl⟩
  · -- The last action is the reading itself, and none before it succeeded.
    rw [← List.append_assoc] at hparts
    obtain ⟨rfl, hget⟩ := List.append_inj' hparts rfl
    obtain rfl := List.singleton_inj.1 hget
    refine ⟨nofun, .inr ⟨rfl, hok, ?_⟩⟩
    rintro first ⟨old', refused', since', hparts', hcut', -, hok'⟩
    have hrefused : IsCut old refused :=
      ⟨hcut.opened, fun action hmem => hcut.kept action (List.mem_append_left _ hmem)⟩
    obtain ⟨rfl, rfl⟩ := hrefused.unique hcut' hparts'
    obtain ⟨failure, hfailure⟩ := hfailed refused' since' rfl
    rw [hok'] at hfailure
    cases hfailure
  · rw [List.concat_eq_append] at hparts hcut
    have hparts' : actions ++ [action] = old ++ (refused ++ .get :: init) ++ [last] := by
      simp [hparts]
    obtain ⟨rfl, hlast⟩ := List.append_inj' hparts' rfl
    obtain rfl := List.singleton_inj.1 hlast
    have hinit : IsCut old (refused ++ .get :: init) := by
      refine ⟨hcut.opened, fun action hmem => hcut.kept action ?_⟩
      rw [← List.cons_append, ← List.append_assoc]
      exact List.mem_append_left _ hmem
    exact ⟨hcut.kept action (by simp), .inl ⟨old, refused, init, rfl, hinit, hfailed, hok⟩⟩

theorem not_firstSaid_invalidate : ¬FirstSaid opening (actions ++ [.invalidate]) said :=
  fun h => h.of_concat.1 rfl

theorem firstSaid_concat (hget : action ≠ .get) (hkept : action ≠ .invalidate) :
    FirstSaid opening (actions ++ [action]) said ↔ FirstSaid opening actions said :=
  ⟨fun h => h.of_concat.2.resolve_right fun hlast => hget hlast.1, fun h => h.concat hkept⟩

theorem firstSaid_get : FirstSaid opening (actions ++ [.get]) said ↔
    FirstSaid opening actions said ∨
      sourceAfter opening actions = .ok said ∧ ∀ first, ¬FirstSaid opening actions first := by
  constructor
  · intro h
    exact h.of_concat.2.imp_right fun hlast => hlast.2
  · rintro (h | ⟨hok, hnone⟩)
    · exact h.concat nofun
    · obtain ⟨old, recent, rfl, hcut⟩ := exists_isCut actions
      refine ⟨old, recent, [], by simp, hcut.concat nofun, ?_, hok⟩
      rintro earlier later rfl
      cases hsource : sourceAfter opening (old ++ earlier) with
      | error failure => exact ⟨failure, rfl⟩
      | ok said' =>
        obtain ⟨first, hfirst⟩ := firstSaid_of_ok hcut hsource
        exact absurd hfirst (hnone first)

/-! What the cache keeps and gives. -/

/-- A cache tells of its history: it keeps what the source said first, in a list that was not given
away, and it keeps nothing where the source said nothing. -/
structure Tells (opening : Except Failure (List LooseText)) (actions : List Action)
    (u : CacheUse) : Prop where
  source : u.source = sourceAfter opening actions
  inBounds : ∀ number ∈ u.given, number < u.lists.length
  kept : ∀ number, u.kept = some number → number ∉ u.given ∧ ∃ said,
    u.lists[number]? = some said.eraseDups ∧
    ∀ first, FirstSaid opening actions first ↔ first = said
  unpopulated : u.kept = none → ∀ first, ¬FirstSaid opening actions first

variable {u : CacheUse}

theorem cache_of_kept {number : Nat} {said : List LooseText} (hkept : u.kept = some number)
    (hlist : u.lists[number]? = some said.eraseDups) : u.cache = ⟨some said.eraseDups⟩ := by
  rw [cache, hkept, Option.bind_some, hlist]

theorem cache_of_unpopulated (hkept : u.kept = none) : u.cache = ⟨none⟩ := by
  rw [cache, hkept, Option.bind_none]

/-- A reading of a populated cache gives a copy and asks nothing. -/
theorem get_of_kept {number : Nat} {said : List LooseText} (hkept : u.kept = some number)
    (hlist : u.lists[number]? = some said.eraseDups) :
    u.get = (.ok said.eraseDups, u.give said.eraseDups) := by
  rw [get, cache_of_kept hkept hlist]
  rfl

theorem get_of_ok (hkept : u.kept = none) (hsource : u.source = .ok said) :
    u.get = (.ok said.eraseDups,
      (({ u with asked := u.asked + 1 } : CacheUse).keep said.eraseDups).give said.eraseDups) := by
  rw [get, cache_of_unpopulated hkept, hsource]
  rfl

theorem get_of_error {failure : Failure} (hkept : u.kept = none)
    (hsource : u.source = .error failure) :
    u.get = (.error failure, { u with asked := u.asked + 1 }) := by
  rw [get, cache_of_unpopulated hkept, hsource]
  rfl

theorem Tells.fresh : Tells opening [] (fresh opening) :=
  ⟨rfl, nofun, nofun, fun _ _ => not_firstSaid_nil⟩

/-- A history that says the same serves as well. -/
theorem Tells.of_iff {actions' : List Action} (h : Tells opening actions u)
    (hsource : sourceAfter opening actions' = sourceAfter opening actions)
    (hfirst : ∀ said, FirstSaid opening actions' said ↔ FirstSaid opening actions said) :
    Tells opening actions' u := by
  refine ⟨h.source.trans hsource.symm, h.inBounds, fun number hkept => ?_, fun hkept said => ?_⟩
  · obtain ⟨hown, said, hlist, hsaid⟩ := h.kept number hkept
    exact ⟨hown, said, hlist, fun first => (hfirst first).trans (hsaid first)⟩
  · rw [hfirst]
    exact h.unpopulated hkept said

theorem Tells.give (h : Tells opening actions u) (extensions : List LooseText) :
    Tells opening actions (u.give extensions) := by
  refine ⟨h.source, ?_, ?_, h.unpopulated⟩
  · intro number hmem
    have hlength : (u.give extensions).lists.length = u.lists.length + 1 := List.length_append ..
    rw [hlength]
    rcases List.mem_append.1 hmem with hold | hnew
    · exact Nat.lt_succ_of_lt (h.inBounds number hold)
    · rw [List.mem_singleton.1 hnew]
      exact Nat.lt_succ_self _
  · intro number hkept
    obtain ⟨hown, said, hlist, hfirst⟩ := h.kept number hkept
    have hlt : number < u.lists.length := (List.getElem?_eq_some_iff.1 hlist).1
    refine ⟨?_, said, (List.getElem?_append_left hlt).trans hlist, hfirst⟩
    rintro hmem
    rcases List.mem_append.1 hmem with hold | hnew
    · exact hown hold
    · exact Nat.ne_of_lt hlt (List.mem_singleton.1 hnew)

theorem Tells.asking (h : Tells opening actions u) :
    Tells opening actions { u with asked := u.asked + 1 } :=
  ⟨h.source, h.inBounds, h.kept, h.unpopulated⟩

theorem Tells.keep (h : Tells opening actions u) (hkept : u.kept = none)
    (hsource : u.source = .ok said) :
    Tells opening (actions ++ [.get]) (u.keep said.eraseDups) := by
  have hnone := h.unpopulated hkept
  refine ⟨h.source.trans (sourceAfter_concat opening actions .get).symm, ?_, ?_, nofun⟩
  · intro number hmem
    exact Nat.lt_of_lt_of_le (h.inBounds number hmem) (by simp [CacheUse.keep])
  · rintro number ⟨⟩
    refine ⟨fun hmem => Nat.lt_irrefl _ (h.inBounds _ hmem), said, by simp [CacheUse.keep], ?_⟩
    intro first
    rw [firstSaid_get, ← h.source, hsource]
    constructor
    · rintro (hsaid | ⟨hok, -⟩)
      · exact absurd hsaid (hnone first)
      · exact (Except.ok.inj hok).symm
    · rintro rfl
      exact .inr ⟨rfl, hnone⟩

theorem Tells.get (h : Tells opening actions u) : Tells opening (actions ++ [.get]) u.get.2 := by
  cases hkept : u.kept with
  | some number =>
    obtain ⟨-, said, hlist, hfirst⟩ := h.kept number hkept
    rw [get_of_kept hkept hlist]
    refine (h.give _).of_iff (sourceAfter_concat opening actions _) fun first => ?_
    rw [firstSaid_get, or_iff_left]
    exact fun hnone => hnone.2 said ((hfirst said).2 rfl)
  | none =>
    cases hsource : u.source with
    | ok said =>
      rw [get_of_ok hkept hsource]
      exact (h.asking.keep hkept hsource).give _
    | error failure =>
      rw [get_of_error hkept hsource]
      refine h.asking.of_iff (sourceAfter_concat opening actions _) fun first => ?_
      rw [firstSaid_get, or_iff_left]
      rintro ⟨hok, -⟩
      rw [← h.source, hsource] at hok
      cases hok

theorem Tells.mutate (h : Tells opening actions u) (place : Nat)
    (change : List LooseText → List LooseText) : Tells opening actions (u.mutate place change) := by
  rw [CacheUse.mutate]
  cases hplace : u.given[place]? with
  | none => exact h
  | some mine =>
    refine ⟨h.source, ?_, ?_, h.unpopulated⟩
    · intro number hmem
      exact Nat.lt_of_lt_of_eq (h.inBounds number hmem) (List.length_modify ..).symm
    · intro number hkept
      obtain ⟨hown, said, hlist, hfirst⟩ := h.kept number hkept
      have hne : mine ≠ number := by
        rintro rfl
        exact hown (List.mem_of_getElem? hplace)
      exact ⟨hown, said, (List.getElem?_modify_ne change _ hne).trans hlist, hfirst⟩

theorem Tells.step (h : Tells opening actions u) (action : Action) :
    Tells opening (actions ++ [action]) (action.step u) := by
  cases action with
  | get => exact h.get
  | mutate place change =>
    exact (h.mutate place change).of_iff (sourceAfter_concat opening actions _)
      fun _ => firstSaid_concat nofun nofun
  | invalidate =>
    exact ⟨h.source.trans (sourceAfter_concat opening actions .invalidate).symm, h.inBounds,
      nofun, fun _ _ => not_firstSaid_invalidate⟩
  | source said =>
    have hsame : ∀ first, FirstSaid opening (actions ++ [.source said]) first ↔
        FirstSaid opening actions first := fun _ => firstSaid_concat nofun nofun
    refine ⟨(sourceAfter_concat opening actions (.source said)).symm, h.inBounds,
      fun number hkept => ?_, fun hkept first => ?_⟩
    · obtain ⟨hown, said', hlist, hfirst⟩ := h.kept number hkept
      exact ⟨hown, said', hlist, fun first => (hsame first).trans (hfirst first)⟩
    · rw [hsame]
      exact h.unpopulated hkept first

theorem Tells.kept_eq_none_iff (h : Tells opening actions u) :
    u.kept = none ↔ ∀ said, ¬FirstSaid opening actions said := by
  refine ⟨h.unpopulated, fun hnone => Option.eq_none_iff_forall_ne_some.2 fun number hkept => ?_⟩
  obtain ⟨-, said, -, hfirst⟩ := h.kept number hkept
  exact hnone said ((hfirst said).2 rfl)

theorem Tells.get_error {failure : Failure} (h : Tells opening actions u)
    (hnone : ∀ said, ¬FirstSaid opening actions said)
    (hfailure : sourceAfter opening actions = .error failure) :
    u.get = (.error failure, { u with asked := u.asked + 1 }) :=
  get_of_error (h.kept_eq_none_iff.2 hnone) (h.source.trans hfailure)

end CacheUse

end ProjectCheck
