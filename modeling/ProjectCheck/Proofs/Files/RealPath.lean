import ProjectCheck.Proofs.Discovery
import ProjectCheck.Proofs.Files.Names
import ProjectCheck.Proofs.Files.Uri

/-!
Where texts lead. A text leads from one place to at most one other, and both the lookup of a path
and its real path come to that place: the lookup when it finds something there, the real path when
no link leads back to itself. Below a directory in which there are no links nothing changes any
more, so different names have different real paths.
-/
namespace ProjectCheck

namespace Node

/-- The names of a text lead from one place to another. A link leads on to where its target leads,
and what is not there is kept. -/
inductive Leads (root : Node) : List LooseText → List LooseText → List LooseText → Prop
  | here (place : List LooseText) : Leads root place [] place
  | stay {place rest last : List LooseText} {name : LooseText} (hname : name = [] ∨ name = ".")
      (hrest : Leads root place rest last) : Leads root place (name :: rest) last
  | up {place rest last : List LooseText} (hrest : Leads root place.dropLast rest last) :
      Leads root place (".." :: rest) last
  | enter {place rest last : List LooseText} {name : LooseText}
      (hblank : ¬ (name = [] ∨ name = ".")) (hdots : name ≠ "..")
      (hlink : ∀ target, root.at? (place ++ [name]) ≠ some (.link target))
      (hrest : Leads root (place ++ [name]) rest last) : Leads root place (name :: rest) last
  | follow {place between rest last : List LooseText} {name target : LooseText}
      (hblank : ¬ (name = [] ∨ name = ".")) (hdots : name ≠ "..")
      (hlink : root.at? (place ++ [name]) = some (.link target))
      (htarget : Leads root (if isAbsoluteText target then [] else place) (Path.pieces target)
        between)
      (hrest : Leads root between rest last) : Leads root place (name :: rest) last

namespace Leads

variable {root : Node} {place between last : List LooseText}

theorem unique {names other : List LooseText} (h : root.Leads place names last)
    (hother : root.Leads place names other) : last = other := by
  induction h generalizing other with
  | here place =>
    cases hother
    rfl
  | stay hname _ ih =>
    cases hother with
    | stay _ hrest => exact ih hrest
    | up hrest => exact absurd hname (by decide)
    | enter hblank => exact absurd hname hblank
    | follow hblank => exact absurd hname hblank
  | up _ ih =>
    cases hother with
    | stay hname => exact absurd hname (by decide)
    | up hrest => exact ih hrest
    | enter _ hdots => exact absurd rfl hdots
    | follow _ hdots => exact absurd rfl hdots
  | enter hblank hdots hlink _ ih =>
    cases hother with
    | stay hname => exact absurd hname hblank
    | up hrest => exact absurd rfl hdots
    | enter _ _ _ hrest => exact ih hrest
    | follow _ _ hfound => exact absurd hfound (hlink _)
  | follow hblank hdots hlink _ _ ihtarget ihrest =>
    cases hother with
    | stay hname => exact absurd hname hblank
    | up hrest => exact absurd rfl hdots
    | enter _ _ hnone => exact absurd hlink (hnone _)
    | follow _ _ hfound htarget hrest =>
      obtain rfl := Node.link.inj (Option.some.inj (hlink.symm.trans hfound))
      obtain rfl := ihtarget htarget
      exact ihrest hrest

/-- Names lead where the rest leads from where the first ones lead. -/
theorem append_iff {names more : List LooseText} :
    root.Leads place (names ++ more) last ↔
      ∃ between, root.Leads place names between ∧ root.Leads between more last := by
  induction names generalizing place with
  | nil =>
    constructor
    · exact fun h => ⟨place, .here place, h⟩
    · rintro ⟨_, ⟨⟩, h⟩
      exact h
  | cons name rest ih =>
    constructor
    · intro h
      rw [List.cons_append] at h
      cases h with
      | stay hname hrest =>
        obtain ⟨between, hfirst, hlast⟩ := ih.1 hrest
        exact ⟨between, .stay hname hfirst, hlast⟩
      | up hrest =>
        obtain ⟨between, hfirst, hlast⟩ := ih.1 hrest
        exact ⟨between, .up hfirst, hlast⟩
      | enter hblank hdots hlink hrest =>
        obtain ⟨between, hfirst, hlast⟩ := ih.1 hrest
        exact ⟨between, .enter hblank hdots hlink hfirst, hlast⟩
      | follow hblank hdots hlink htarget hrest =>
        obtain ⟨between, hfirst, hlast⟩ := ih.1 hrest
        exact ⟨between, .follow hblank hdots hlink htarget hfirst, hlast⟩
    · rintro ⟨between, hfirst, hlast⟩
      cases hfirst with
      | stay hname hrest => exact .stay hname (ih.2 ⟨between, hrest, hlast⟩)
      | up hrest => exact .up (ih.2 ⟨between, hrest, hlast⟩)
      | enter hblank hdots hlink hrest =>
        exact .enter hblank hdots hlink (ih.2 ⟨between, hrest, hlast⟩)
      | follow hblank hdots hlink htarget hrest =>
        exact .follow hblank hdots hlink htarget (ih.2 ⟨between, hrest, hlast⟩)

theorem cons_iff {name : LooseText} {rest : List LooseText} :
    root.Leads place (name :: rest) last ↔
      ∃ between, root.Leads place [name] between ∧ root.Leads between rest last := by
  rw [← List.singleton_append, append_iff]

theorem blank_iff {names : List LooseText} (h : ∀ name ∈ names, name = [] ∨ name = ".") :
    root.Leads place names last ↔ place = last := by
  induction names with
  | nil =>
    constructor
    · rintro ⟨⟩
      rfl
    · rintro rfl
      exact .here place
  | cons name rest ih =>
    obtain ⟨hname, hrest⟩ := List.forall_mem_cons.1 h
    rw [← ih hrest]
    constructor
    · intro hleads
      cases hleads with
      | stay _ hleads => exact hleads
      | up hleads => exact absurd hname (by decide)
      | enter hblank => exact absurd hname hblank
      | follow hblank => exact absurd hname hblank
    · exact .stay hname

theorem stay_iff {name : LooseText} (hname : name = [] ∨ name = ".") {rest : List LooseText} :
    root.Leads place (name :: rest) last ↔ root.Leads place rest last := by
  rw [cons_iff]
  constructor
  · rintro ⟨between, hfirst, hlast⟩
    obtain rfl := (blank_iff (List.forall_mem_singleton.2 hname)).1 hfirst
    exact hlast
  · exact fun h => ⟨place, (blank_iff (List.forall_mem_singleton.2 hname)).2 rfl, h⟩

/-- The steps of a text lead where its pieces lead. -/
theorem walkSteps_iff {text : LooseText} :
    root.Leads place (walkSteps text) last ↔ root.Leads place (Path.pieces text) last := by
  have hfilter : ∀ pieces : List LooseText,
      root.Leads place (pieces.filter (· ≠ [])) last ↔ root.Leads place pieces last := by
    intro pieces
    induction pieces generalizing place with
    | nil => exact Iff.rfl
    | cons name rest ih =>
      by_cases hname : name = []
      · rw [List.filter_cons_of_neg (by simp [hname]), stay_iff (.inl hname), ih]
      · rw [List.filter_cons_of_pos (by simp [hname]), cons_iff, cons_iff]
        exact exists_congr fun between => and_congr_right fun _ => ih
  rw [← hfilter (Path.pieces text), walkSteps, Path.pieces]
  split
  · rename_i hempty
    rw [List.isEmpty_iff.1 hempty]
  · split
    · rw [append_iff]
      constructor
      · rintro ⟨between, hfirst, hlast⟩
        obtain rfl := (blank_iff (List.forall_mem_singleton.2 (.inr rfl))).1 hlast
        exact hfirst
      · exact fun h => ⟨last, h, (blank_iff (List.forall_mem_singleton.2 (.inr rfl))).2 rfl⟩
    · exact Iff.rfl

end Leads

/-! Lookups. -/

theorem at?_append (node : Node) (names more : List LooseText) :
    node.at? (names ++ more) = (node.at? names).bind fun found => found.at? more := by
  induction names generalizing node with
  | nil => rfl
  | cons name rest ih =>
    rw [List.cons_append, at?, at?]
    cases node.entry? name with
    | none => rfl
    | some next => exact ih next

theorem at?_child {root : Node} {place : List LooseText} {entries : List (LooseText × Node)}
    (h : root.at? place = some (.directory entries)) (name : LooseText) :
    root.at? (place ++ [name]) = Members.get? name entries := by
  rw [at?_append, h]
  change ((Members.get? name entries).bind fun next => next.at? []) = _
  cases Members.get? name entries <;> rfl

end Node

def Progress.LeadsOn (root : Node) (place names : List LooseText) : Progress → Prop
  | arrived last => root.Leads place names last
  | failed _ => True
  | atLink target base rest => [] ∉ rest ∧ ∀ between last,
      root.Leads (if isAbsoluteText target then [] else base) (Path.pieces target) between →
        root.Leads between rest last → root.Leads place names last

theorem Progress.LeadsOn.mono {root : Node} {place names next rest : List LooseText}
    {progress : Progress} (h : progress.LeadsOn root next rest)
    (hleads : ∀ last, root.Leads next rest last → root.Leads place names last) :
    progress.LeadsOn root place names := by
  cases progress with
  | arrived last => exact hleads last h
  | failed fault => trivial
  | atLink target base left =>
    exact ⟨h.1, fun between last htarget hrest => hleads last (h.2 between last htarget hrest)⟩

namespace Node

variable {root : Node}

theorem leadsOn_advance {place names : List LooseText} (hblank : [] ∉ names) :
    (root.advance true place names).LeadsOn root place names := by
  fun_induction root.advance true place names with
  | case1 place => exact .here place
  | case2 place rest entries hplace ih =>
    exact (ih fun h => hblank (.tail _ h)).mono fun _ => .stay (.inr rfl)
  | case3 place rest entries hplace hdot ih =>
    exact (ih fun h => hblank (.tail _ h)).mono fun _ => .up
  | case4 => trivial
  | case5 => trivial
  | case6 place name rest entries hplace hdot hdots hlong target hentry hlast =>
    exact absurd hlast (by simp)
  | case7 place name rest entries hplace hdot hdots hlong target hentry hlast =>
    have hname : ¬ (name = [] ∨ name = ".") :=
      fun h => h.elim (fun h => hblank (h ▸ List.mem_cons_self)) hdot
    exact ⟨fun h => hblank (.tail _ h), fun between last htarget hrest =>
      .follow hname hdots ((at?_child hplace name).trans hentry) htarget hrest⟩
  | case8 place name rest entries hplace hdot hdots hlong node hnode hentry ih =>
    have hname : ¬ (name = [] ∨ name = ".") :=
      fun h => h.elim (fun h => hblank (h ▸ List.mem_cons_self)) hdot
    refine (ih fun h => hblank (.tail _ h)).mono fun _ => .enter hname hdots fun target hlink => ?_
    exact hnode target (Option.some.inj (hentry.symm.trans
      ((at?_child hplace name).symm.trans hlink)))
  | case9 => trivial
  | case10 => trivial

theorem empty_notMem_walkSteps (text : LooseText) : [] ∉ walkSteps text := by
  rw [walkSteps]
  split
  · nofun
  · split <;> simp

/-- A lookup that ends somewhere says where the names lead. -/
theorem leads_of_follow {budget : Nat} {place names last : List LooseText} (hblank : [] ∉ names)
    (h : root.follow true budget place names = .ok last) : root.Leads place names last := by
  fun_induction root.follow true budget place names with
  | case1 budget place names last' hadvance =>
    obtain rfl := Except.ok.inj h
    have hon : (root.advance true place names).LeadsOn root place names := leadsOn_advance hblank
    rwa [hadvance] at hon
  | case2 => cases h
  | case3 => cases h
  | case4 => cases h
  | case5 place names target base rest hadvance hempty budget ih =>
    have hon : (root.advance true place names).LeadsOn root place names := leadsOn_advance hblank
    rw [hadvance] at hon
    obtain ⟨hrest, hleads⟩ := hon
    have hall : [] ∉ walkSteps target ++ rest := fun hmem =>
      (List.mem_append.1 hmem).elim (empty_notMem_walkSteps target) hrest
    obtain ⟨between, htarget, hlast⟩ := Leads.append_iff.1 (ih hall h)
    exact hleads between last (Leads.walkSteps_iff.1 htarget) hlast

/-- What a lookup finds is where the text leads. -/
theorem leads_of_lookup {start place : List LooseText} {text : LooseText} {node : Node}
    (h : root.lookup start text = .ok (place, node)) :
    text ≠ [] ∧ root.Leads (if isAbsoluteText text then [] else start) (Path.pieces text) place ∧
      root.at? place = some node := by
  unfold lookup at h
  cases hlocate : root.locate start text true with
  | error fault =>
    rw [hlocate] at h
    cases h
  | ok found =>
    rw [hlocate] at h
    simp only [bind, Except.bind] at h
    split at h
    · rename_i there hthere
      obtain ⟨rfl, rfl⟩ := Prod.mk.inj (Except.ok.inj h)
      unfold locate at hlocate
      split at hlocate
      · cases hlocate
      · rename_i hne
        split at hlocate
        · cases hlocate
        split at hlocate
        · cases hlocate
        · split at hlocate
          · cases hlocate
          · have hleads := leads_of_follow (empty_notMem_walkSteps text) hlocate
            exact ⟨hne, Leads.walkSteps_iff.1 hleads, hthere⟩
    · cases h

end Node

/-! Real paths. -/

structure Path.IsTidy (path : Path) : Prop where
  slashes : path.slashes ≤ 1
  parts : ∃ ups names, path.parts = List.replicate ups (".." : LooseText) ++ names ∧
    (∀ name ∈ names, name ≠ "." ∧ name ≠ "..") ∧ (path.isAbsolute = true → ups = 0)

namespace Path

variable {path : Path}

theorem isTidy_ofLocation_nil : (ofLocation []).IsTidy :=
  ⟨Nat.le_refl 1, 0, [], rfl, nofun, fun _ => rfl⟩

theorem isTidy_relative_nil : (⟨0, []⟩ : Path).IsTidy := ⟨Nat.zero_le 1, 0, [], rfl, nofun, nofun⟩

theorem IsTidy.child (h : path.IsTidy) {name : LooseText} (hname : name ≠ "." ∧ name ≠ "..") :
    (path.child name).IsTidy := by
  obtain ⟨hslashes, ups, names, hparts, hnames, habsolute⟩ := h
  refine ⟨hslashes, ups, names ++ [name], ?_, ?_, habsolute⟩
  · rw [Path.child, hparts, List.append_assoc]
  · exact List.forall_mem_append.2 ⟨hnames, List.forall_mem_singleton.2 hname⟩

theorem locationFrom_child (start : List LooseText) (path : Path) {name : LooseText}
    (hname : name ≠ "." ∧ name ≠ "..") :
    (path.child name).locationFrom start = path.locationFrom start ++ [name] :=
  locationFrom_below start path (List.forall_mem_singleton.2 hname)

/-- What stands above a path stands at the place above. -/
theorem IsTidy.above (h : path.IsTidy) (start : List LooseText) :
    path.above.IsTidy ∧ path.above.locationFrom start = (path.locationFrom start).dropLast := by
  obtain ⟨hslashes, ups, names, hparts, hnames, habsolute⟩ := h
  rcases List.eq_nil_or_concat names with rfl | ⟨before, last, rfl⟩
  · rw [List.append_nil] at hparts
    by_cases habs : path.isAbsolute = true
    · -- a root stands above itself
      have hnone : path.parts = [] := by rw [hparts, habsolute habs, List.replicate_zero]
      have habove : path.above = path := by
        rw [Path.above, habs, Bool.true_or, if_pos rfl, parent, hnone]
        exact congrArg (Path.mk path.slashes) hnone.symm
      rw [habove]
      refine ⟨⟨hslashes, 0, [], hnone, nofun, fun _ => rfl⟩, ?_⟩
      rw [locationFrom, if_pos habs, hnone]
      rfl
    · have habove : path.above = path.child ".." := by
        have hdots : path.parts.any (· ≠ "..") = false := by
          rw [hparts, List.any_eq_false]
          intro part hpart
          simp [List.eq_of_mem_replicate hpart]
        rw [Path.above, Bool.eq_false_iff.2 habs, hdots]
        rfl
      rw [habove]
      have hrelative : (path.child "..").isAbsolute = path.isAbsolute := rfl
      refine ⟨⟨hslashes, ups + 1, [], ?_, nofun, fun h => absurd h habs⟩, ?_⟩
      · rw [Path.child, hparts, List.append_nil, List.replicate_succ']
      · rw [locationFrom, hrelative, if_neg habs, locationFrom, if_neg habs, Path.child,
          ← List.append_assoc, collapse_append_dots]
  · rw [List.concat_eq_append] at hparts hnames
    obtain ⟨hbefore, hlast⟩ := List.forall_mem_append.1 hnames
    have hlast := List.forall_mem_singleton.1 hlast
    have hchild : path = path.parent.child last := by
      rw [parent, Path.child, hparts, ← List.append_assoc, List.dropLast_concat,
        List.append_assoc, ← hparts]
    have habove : path.above = path.parent := by
      have hany : path.parts.any (· ≠ "..") = true := by
        rw [hparts]
        simp [hlast.2]
      rw [Path.above, hany, Bool.or_true, if_pos rfl]
    rw [habove]
    refine ⟨⟨hslashes, ups, before, ?_, hbefore, habsolute⟩, ?_⟩
    · rw [parent, hparts, ← List.append_assoc, List.dropLast_concat]
    · have hplace : path.locationFrom start = path.parent.locationFrom start ++ [last] :=
        (congrArg (fun found => found.locationFrom start) hchild).trans
          (locationFrom_child start path.parent hlast)
      rw [hplace, List.dropLast_concat]

end Path

namespace Node

variable {root : Node} {start : List LooseText}

def MetRightly (root : Node) (start : List LooseText) (met : LinksMet) : Prop :=
  ∀ next real, met.lookup next = some (some real) → real.IsTidy ∧
    ∀ target, root.at? (next.locationFrom start) = some (.link target) →
      root.Leads (if isAbsoluteText target then [] else (next.locationFrom start).dropLast)
        (Path.pieces target) (real.locationFrom start)

theorem metRightly_nil : root.MetRightly start [] := nofun

theorem MetRightly.meets {met : LinksMet} (h : root.MetRightly start met) (next : Path) :
    root.MetRightly start ((next, none) :: met) := by
  intro other real hlookup
  rw [List.lookup_cons] at hlookup
  split at hlookup
  · cases hlookup
  · exact h other real hlookup

theorem MetRightly.resolves {met : LinksMet} (h : root.MetRightly start met) {next real : Path}
    {target : LooseText} (hreal : real.IsTidy)
    (hlink : root.at? (next.locationFrom start) = some (.link target))
    (hleads : root.Leads (if isAbsoluteText target then [] else (next.locationFrom start).dropLast)
      (Path.pieces target) (real.locationFrom start)) :
    root.MetRightly start ((next, some real) :: met) := by
  intro other found hlookup
  rw [List.lookup_cons] at hlookup
  split at hlookup
  · rename_i hsame
    obtain rfl := beq_iff_eq.1 hsame
    obtain rfl := Option.some.inj (Option.some.inj hlookup)
    refine ⟨hreal, fun other hother => ?_⟩
    obtain rfl := Node.link.inj (Option.some.inj (hlink.symm.trans hother))
    exact hleads
  · exact h other found hlookup

end Node

structure RealWalk.IsRight (root : Node) (start place pieces : List LooseText) (walk : RealWalk) :
    Prop where
  leads : root.Leads place pieces (walk.path.locationFrom start)
  tidy : walk.path.IsTidy
  met : root.MetRightly start walk.met

namespace Node

variable {root : Node} {start : List LooseText}

/-- A walk that is complete comes where the pieces lead. -/
theorem isRight_realWalk {fuel : Nat} {met : LinksMet} {path : Path} {pieces : List LooseText}
    (hmet : root.MetRightly start met) (hpath : path.IsTidy)
    (hcomplete : (root.realWalk start fuel met path pieces).complete = true) :
    (root.realWalk start fuel met path pieces).IsRight root start (path.locationFrom start)
      pieces := by
  have hplain : ∀ {name : LooseText}, ¬ (decide (name = []) || decide (name = ".")) = true →
      name ≠ ".." → ¬ (name = [] ∨ name = ".") ∧ name ≠ "." ∧ name ≠ ".." := by
    intro name hblank hdots
    rw [Bool.or_eq_true, decide_eq_true_iff, decide_eq_true_iff] at hblank
    exact ⟨hblank, fun h => hblank (.inr h), hdots⟩
  fun_induction root.realWalk start fuel met path pieces with
  | case1 fuel met path => exact ⟨.here _, hpath, hmet⟩
  | case2 fuel met path name rest hblank ih =>
    obtain ⟨hleads, htidy, hafter⟩ := ih hmet hpath hcomplete
    rw [Bool.or_eq_true, decide_eq_true_iff, decide_eq_true_iff] at hblank
    exact ⟨.stay hblank hleads, htidy, hafter⟩
  | case3 fuel met path rest hblank ih =>
    obtain ⟨habove, hplace⟩ := hpath.above start
    obtain ⟨hleads, htidy, hafter⟩ := ih hmet habove hcomplete
    rw [hplace] at hleads
    exact ⟨.up hleads, htidy, hafter⟩
  | case4 fuel met path name rest hblank hdots next target hlink real hreal ih =>
    obtain ⟨hnames, hname⟩ := hplain hblank hdots
    have hplace := Path.locationFrom_child start path hname
    obtain ⟨htidy, hfollows⟩ := hmet next real hreal
    have htarget := hfollows target hlink
    rw [hplace, List.dropLast_concat] at htarget
    obtain ⟨hleads, hlast, hafter⟩ := ih hmet htidy hcomplete
    exact ⟨.follow hnames hdots (hplace ▸ hlink) htarget hleads, hlast, hafter⟩
  | case5 => cases hcomplete
  | case6 => cases hcomplete
  | case7 met path name rest hblank hdots next target hlink hnew fuel inner hinner ihinner ihsame
      ihrest =>
    obtain ⟨hnames, hname⟩ := hplain hblank hdots
    have hplace := Path.locationFrom_child start path hname
    have horigin : (if h : isAbsoluteText target = true then Path.ofLocation [] else path).IsTidy ∧
        (if h : isAbsoluteText target = true then Path.ofLocation [] else path).locationFrom start =
          if isAbsoluteText target then [] else path.locationFrom start := by
      split
      · exact ⟨Path.isTidy_ofLocation_nil, rfl⟩
      · exact ⟨hpath, rfl⟩
    obtain ⟨htarget, htidy, hafter⟩ := ihinner (hmet.meets next) horigin.1 hinner
    rw [horigin.2] at htarget
    have hresolved : root.MetRightly start ((next, some inner.path) :: inner.met) := by
      refine hafter.resolves htidy hlink ?_
      rw [hplace, List.dropLast_concat]
      exact htarget
    obtain ⟨hleads, hlast, hmore⟩ := ihrest hresolved htidy hcomplete
    exact ⟨.follow hnames hdots (hplace ▸ hlink) htarget hleads, hlast, hmore⟩
  | case8 => cases hcomplete
  | case9 fuel met path name rest hblank hdots next hlink ih =>
    obtain ⟨hnames, hname⟩ := hplain hblank hdots
    have hplace := Path.locationFrom_child start path hname
    obtain ⟨hleads, htidy, hafter⟩ := ih hmet (hpath.child hname) hcomplete
    rw [hplace] at hleads hlink
    exact ⟨.enter hnames hdots hlink hleads, htidy, hafter⟩

/-- Whatever comes after it, a walk goes on after a name, or ends there and keeps what is left. -/
theorem realWalk_cons (root : Node) (start : List LooseText) (fuel : Nat) (met : LinksMet)
    (path : Path) (name : LooseText) :
    (∃ after next, ∀ rest, root.realWalk start fuel met path (name :: rest) =
      root.realWalk start fuel after next rest) ∨
    ∃ (base : Path) (after : LinksMet), ∀ rest,
      root.realWalk start fuel met path (name :: rest) = ⟨base.joinPieces rest, after, false⟩ := by
  by_cases hblank : (decide (name = []) || decide (name = ".")) = true
  · exact .inl ⟨met, path, fun rest => by rw [realWalk, if_pos hblank]⟩
  · by_cases hdots : name = ".."
    · exact .inl ⟨met, path.above, fun rest => by rw [realWalk, if_neg hblank, if_pos hdots]⟩
    · simp only [realWalk, if_neg hblank, if_neg hdots]
      cases hnode : root.at? ((path.child name).locationFrom start) with
      | none => exact .inl ⟨met, _, fun rest => rfl⟩
      | some node =>
        cases node with
        | file content => exact .inl ⟨met, _, fun rest => rfl⟩
        | directory entries => exact .inl ⟨met, _, fun rest => rfl⟩
        | link target =>
          cases hmet : met.lookup (path.child name) with
          | some resolved =>
            cases resolved with
            | some real => exact .inl ⟨met, real, fun rest => rfl⟩
            | none => exact .inr ⟨_, met, fun rest => rfl⟩
          | none =>
            cases fuel with
            | zero => exact .inr ⟨_, met, fun rest => rfl⟩
            | succ fuel =>
              by_cases hinner : (root.realWalk start fuel ((path.child name, none) :: met)
                (if isAbsoluteText target then .ofLocation [] else path)
                (Path.pieces target)).complete = true
              · exact .inl ⟨_, _, fun rest => if_pos hinner⟩
              · exact .inr ⟨_, _, fun rest => if_neg hinner⟩

/-- After a walk that is complete the next pieces are walked from where it comes; after one that is
not they are kept as they are. -/
theorem realWalk_append (root : Node) (start : List LooseText) (fuel : Nat) (met : LinksMet)
    (path : Path) (pieces : List LooseText) :
    ((root.realWalk start fuel met path pieces).complete = true ∧
      ∀ more, root.realWalk start fuel met path (pieces ++ more) =
        root.realWalk start fuel (root.realWalk start fuel met path pieces).met
          (root.realWalk start fuel met path pieces).path more) ∨
    ∃ (base : Path) (left : List LooseText), ∀ more,
      (root.realWalk start fuel met path (pieces ++ more)).path =
        base.joinPieces (left ++ more) := by
  induction pieces generalizing met path with
  | nil => exact .inl ⟨by rw [realWalk], fun more => by rw [realWalk, List.nil_append]⟩
  | cons name rest ih =>
    obtain ⟨after, next, hstep⟩ | ⟨base, after, hstop⟩ :=
      root.realWalk_cons start fuel met path name
    · simp only [List.cons_append, hstep]
      exact ih after next
    · exact .inr ⟨base, rest, fun more => by rw [List.cons_append, hstop]⟩

/-- Where none of them leads to a link names are walked one by one. -/
theorem realWalk_path_of_unlinked {fuel : Nat} {met : LinksMet} {path : Path}
    {names : List LooseText} (hnames : ∀ name ∈ names, IsName name)
    (hlinks : ∀ way, way <+: names → ∀ target,
      root.at? (path.locationFrom start ++ way) ≠ some (.link target)) :
    (root.realWalk start fuel met path names).path = path.below names := by
  induction names generalizing path with
  | nil => rw [realWalk, Path.below, List.append_nil]
  | cons name rest ih =>
    obtain ⟨hname, hrest⟩ := List.forall_mem_cons.1 hnames
    have hblank : ¬ (decide (name = []) || decide (name = ".")) = true := by
      simp [hname.ne_empty, hname.ne_dot]
    have hplace := Path.locationFrom_child start path ⟨hname.ne_dot, hname.ne_dots⟩
    have hnext : ∀ way, way <+: rest → ∀ target,
        root.at? ((path.child name).locationFrom start ++ way) ≠ some (.link target) := by
      intro way hway target
      rw [hplace, List.append_assoc]
      exact hlinks _ (List.prefix_append_right_inj [name] |>.2 hway) target
    have hhere := hnext [] List.nil_prefix
    rw [List.append_nil] at hhere
    have hwalk : (root.realWalk start fuel met (path.child name) rest).path =
        path.below (name :: rest) := by
      rw [ih hrest hnext, Path.child_eq_below, Path.below_below]
      rfl
    rw [realWalk, if_neg hblank, if_neg hname.ne_dots]
    cases hnode : root.at? ((path.child name).locationFrom start) with
    | none => simpa only [hnode] using hwalk
    | some node =>
      cases node with
      | file content => simpa only [hnode] using hwalk
      | directory entries => simpa only [hnode] using hwalk
      | link target => exact absurd hnode (hhere target)

theorem realWalk_blanks (root : Node) (start : List LooseText) (fuel : Nat) (met : LinksMet)
    (path : Path) (count : Nat) (names : List LooseText) :
    root.realWalk start fuel met path (List.replicate count [] ++ names) =
      root.realWalk start fuel met path names := by
  induction count with
  | zero => rfl
  | succ count ih =>
    rw [List.replicate_succ, List.cons_append, realWalk, if_pos (by decide), ih]

theorem pieces_text_of_isAbsolute {path : Path} (habsolute : path.slashes ≠ 0) :
    Path.pieces path.text =
      List.replicate path.slashes [] ++ Path.pieces (Path.joined path.parts) := by
  rw [Path.text, if_neg fun hboth => habsolute hboth.1, Path.pieces_slashes]

theorem isAbsoluteText_text {path : Path} (habsolute : path.slashes ≠ 0) :
    isAbsoluteText path.text = true := by
  obtain ⟨count, hcount⟩ := Nat.exists_eq_succ_of_ne_zero habsolute
  rw [Path.text, if_neg fun hboth => habsolute hboth.1, hcount]
  simp [isAbsoluteText, List.replicate_succ]

/-- An absolute path that passes no link is its own real path. -/
theorem realPath_of_unlinked {path : Path} (habsolute : path.slashes ≠ 0)
    (hnames : ∀ name ∈ path.parts, IsName name)
    (hlinks : ∀ way, way <+: path.parts → ∀ target, root.at? way ≠ some (.link target)) :
    root.realPath start path.text = .ofLocation path.parts := by
  have hwalk : ∀ fuel, (root.realWalk start fuel [] (.ofLocation []) (Path.pieces path.text)).path =
      .ofLocation path.parts := by
    intro fuel
    rw [pieces_text_of_isAbsolute habsolute, realWalk_blanks]
    by_cases hempty : path.parts = []
    · have hnil : Path.pieces (Path.joined []) = [[]] := by decide
      rw [hempty, hnil, realWalk, if_pos (by decide), realWalk]
    · rw [Path.pieces_joined ⟨hempty, hnames⟩]
      exact realWalk_path_of_unlinked hnames hlinks
  have hplain : ∀ name ∈ path.parts, name ≠ "." ∧ name ≠ ".." :=
    fun name hname => ⟨(hnames name hname).ne_dot, (hnames name hname).ne_dots⟩
  rw [realPath, isAbsoluteText_text habsolute]
  simp only [if_true, hwalk]
  exact congrArg (Path.mk 1) (collapse_eq_self hplain)

/-- Behind what leads to a directory without links a walk goes on by the names that follow. -/
theorem exists_realWalk_below {origin : Path} {before place : List LooseText} (fuel : Nat)
    (horigin : origin.IsTidy)
    (hplace : ∀ other, root.Leads (origin.locationFrom start) before other → other = place)
    (hlinks : ∀ names target, root.at? (place ++ names) ≠ some (.link target)) :
    ∃ reached : Path, ∀ names, AreSteps names →
      (root.realWalk start fuel [] origin (before ++ names)).path = reached.below names := by
  obtain ⟨hcomplete, hgoes⟩ | ⟨base, left, hstops⟩ :=
    root.realWalk_append start fuel [] origin before
  · have hright := isRight_realWalk metRightly_nil horigin hcomplete
    generalize root.realWalk start fuel [] origin before = walk at hgoes hright
    refine ⟨walk.path, fun names h => ?_⟩
    rw [hgoes]
    refine realWalk_path_of_unlinked h.names fun more _ target => ?_
    rw [hplace _ hright.leads]
    exact hlinks more target
  · obtain ⟨joined, hjoined⟩ := Path.exists_joinPieces base left
    exact ⟨joined, fun names h => (hstops names).trans (hjoined names h)⟩

/-- Below a directory in which there are no links, the real path of an entry ends in its names. -/
theorem exists_realPath_below {directory : Path} {place : List LooseText} {node : Node}
    (hstart : ∀ name ∈ start, name ≠ "." ∧ name ≠ "..")
    (hfound : root.lookup start directory.text = .ok (place, node))
    (hlinks : ∀ names target, node.at? names ≠ some (.link target)) :
    ∃ real : Path, ∀ names, AreSteps names →
      root.realPath start (directory.below names).text = real.below names := by
  obtain ⟨hne, hleads, hnode⟩ := leads_of_lookup hfound
  obtain ⟨before, hbefore, hpieces⟩ := Path.pieces_text_below directory
  let origin : Path := if isAbsoluteText directory.text then .ofLocation [] else ⟨0, []⟩
  have horigin : origin.IsTidy ∧ origin.locationFrom start =
      if isAbsoluteText directory.text then [] else start := by
    unfold origin
    split
    · exact ⟨Path.isTidy_ofLocation_nil, rfl⟩
    · refine ⟨Path.isTidy_relative_nil, ?_⟩
      rw [Path.locationFrom, if_neg (by decide), List.append_nil, collapse_eq_self hstart]
  have hplace : ∀ other, root.Leads (origin.locationFrom start) before other → other = place := by
    intro other hother
    rw [horigin.2] at hother
    -- Pieces of blanks and dots lead nowhere, whether they are those of the text or not.
    obtain rfl | ⟨hblank, hpath⟩ := hbefore
    · exact hother.unique hleads
    · rw [Leads.blank_iff fun name hname => .inl (hblank name hname)] at hother
      rw [Leads.blank_iff hpath] at hleads
      exact hother.symm.trans hleads
  have hunlinked : ∀ names target, root.at? (place ++ names) ≠ some (.link target) := by
    intro names target
    rw [at?_append, hnode]
    exact hlinks names target
  let fuel := root.linkCount * (start.length + 2)
  obtain ⟨reached, hwalk⟩ := exists_realWalk_below fuel horigin.1 hplace hunlinked
  refine ⟨⟨max 1 reached.slashes, reached.locationFrom start⟩, fun names h => ?_⟩
  have hplain : ∀ name ∈ names, name ≠ "." ∧ name ≠ ".." :=
    fun name hname => ⟨(h.names name hname).ne_dot, (h.names name hname).ne_dots⟩
  rw [realPath, Path.isAbsoluteText_below hne h, hpieces names h]
  change Path.mk (max 1 (root.realWalk start fuel [] origin (before ++ names)).path.slashes)
    ((root.realWalk start fuel [] origin (before ++ names)).path.locationFrom start) = _
  rw [hwalk names h, Path.locationFrom_below start reached hplain]
  rfl

end Node

namespace Path

open Text

/-- A path above is read apart from the names below it. -/
theorem reading_below (path : Path) {names : List LooseText} (h : names ≠ []) :
    (path.below names).reading =
      decodeUtf8Lossy path.lead.octets ++ decodeUtf8Lossy (joined names).octets := by
  have hslash : ∀ before after : LooseText,
      decodeUtf8Lossy (LooseText.octets (before ++ [.char '/']) ++ after.octets) =
        decodeUtf8Lossy (LooseText.octets (before ++ [.char '/'])) ++
          decodeUtf8Lossy after.octets := by
    intro before after
    have hoctet : LooseText.octets [.char '/'] = [0x2F] := by decide
    have hascii := decodeUtf8Lossy_ascii (b := 0x2F) (by decide) before.octets
    rw [LooseText.octets_append, hoctet, List.append_assoc, List.singleton_append, hascii, hascii,
      List.append_assoc]
    rfl
  rw [reading, text_below path h, LooseText.octets_append]
  obtain hlead | ⟨before, hlead⟩ := path.lead_eq
  · rw [hlead]
    rfl
  · rw [hlead, hslash]

end Path

theorem Machine.eq_realPath_of_uriOf {m : Machine} {path : Path} {uri : String}
    (h : m.uriOf path = .ok uri) :
    uri = Uri.ofPath (m.files.realPath m.workingDirectory path.text) := by
  rw [uriOf, resolve] at h
  split at h
  · cases h
  · split at h
    · cases h
    · simp only at h
      split at h
      · cases h
      · exact (Except.ok.inj h).symm

/-- Below a directory in which there are no links, entries whose URIs have one key are read as the
same path. -/
theorem Machine.reading_eq_of_key {m : Machine} {directory : Path}
    {place : List LooseText} {node : Node}
    (hstart : ∀ name ∈ m.workingDirectory, name ≠ "." ∧ name ≠ "..")
    (hfound : m.find directory.text = .ok (place, node))
    (hlinks : ∀ names target, node.at? names ≠ some (.link target)) {names other : List LooseText}
    (h : AreSteps names) (hother : AreSteps other) {uri otherUri : String}
    (huri : m.uriOf (directory.below names) = .ok uri)
    (hotherUri : m.uriOf (directory.below other) = .ok otherUri)
    (hkey : Uri.key uri = Uri.key otherUri) :
    (directory.below names).reading = (directory.below other).reading := by
  obtain ⟨real, hreal⟩ := Node.exists_realPath_below hstart hfound hlinks
  have hresolved : ∀ {names : List LooseText} {uri : String}, AreSteps names →
      m.uriOf (directory.below names) = .ok uri → uri = Uri.ofPath (real.below names) := by
    intro names uri h huri
    rw [← hreal names h]
    exact eq_realPath_of_uriOf huri
  rw [hresolved h huri, hresolved hother hotherUri, Uri.key_ofPath_eq_iff,
    Path.reading_below real h.ne_nil, Path.reading_below real hother.ne_nil,
    List.append_right_inj] at hkey
  rw [Path.reading_below directory h.ne_nil, Path.reading_below directory hother.ne_nil, hkey]

end ProjectCheck
