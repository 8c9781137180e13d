import ProjectCheck.Machine.Connection

/-!
The order in which a client and a server speak. A dialogue goes through phases: the client asks the
server to initialize, says that it is initialized once it was answered, tells it of documents, asks
it to shut down, and lets it go once it was answered. A dialogue may be cut off in any phase, and
the client says nothing after that.
-/
namespace ProjectCheck

namespace Message

def initializing (params : Json) : Json := request 1 "initialize" (some params)

def initialized : Json := notification "initialized" (some (.object []))

def shutdown : Json := request 2 "shutdown" none

def exit : Json := notification "exit" none

def IsAboutDocument (message : Json) : Prop :=
  ∃ params, message = notification "textDocument/didOpen" (some params) ∨
    message = notification "textDocument/didChange" (some params)

def IsResult (id : Nat) (message : Json) : Prop :=
  ∃ value, message = ServerBehaviour.answer (.int id) "result" value

def IsAside (message : Json) : Prop :=
  (∃ uri diagnostics, message = ServerBehaviour.publish uri diagnostics) ∨
    ∃ (id : Nat) (value : Json), message = ServerBehaviour.answer (.int id) "error" value

theorem IsResult.id_eq {message : Json} {first second : Nat} (h : IsResult first message)
    (hother : IsResult second message) : first = second := by
  obtain ⟨value, rfl⟩ := h
  obtain ⟨other, heq⟩ := hother
  simp only [ServerBehaviour.answer, Json.object.injEq, List.cons.injEq, Prod.mk.injEq,
    Json.int.injEq, true_and, and_true] at heq
  omega

theorem IsResult.not_isAside {message : Json} {id : Nat} (h : IsResult id message) :
    ¬ IsAside message := by
  obtain ⟨value, rfl⟩ := h
  rintro (⟨uri, diagnostics, heq⟩ | ⟨other, error, heq⟩)
  · simp [ServerBehaviour.answer, ServerBehaviour.publish] at heq
  · simp [ServerBehaviour.answer] at heq

end Message

open Message

inductive Phase where
  | fresh
  | greeting
  | greeted
  | ready
  | leaving
  | released
  | gone
  | ended
  deriving Repr, DecidableEq

inductive Phase.Step : Phase → Utterance → Phase → Prop
  | initializing (params : Json) : Step fresh (.toServer (initializing params)) greeting
  | greeted {message : Json} : IsResult 1 message → Step greeting (.fromServer message) greeted
  | initialized : Step greeted (.toServer initialized) ready
  | document {message : Json} : IsAboutDocument message → Step ready (.toServer message) ready
  | shutdown : Step ready (.toServer shutdown) leaving
  | released {message : Json} : IsResult 2 message → Step leaving (.fromServer message) released
  | exit : Step released (.toServer exit) gone
  | aside {phase : Phase} {message : Json} :
      IsAside message → Step phase (.fromServer message) phase
  | termination {phase : Phase} : Step phase .termination ended

inductive Dialogue : List Utterance → Phase → Prop
  | nil : Dialogue [] .fresh
  | snoc {said : List Utterance} {utterance : Utterance} {phase next : Phase} :
      Dialogue said phase → Phase.Step phase utterance next → Dialogue (said ++ [utterance]) next

def written (said : List Utterance) : List Json :=
  said.filterMap fun
    | .toServer message => some message
    | _ => none

theorem mem_written_iff {said : List Utterance} {message : Json} :
    message ∈ written said ↔ .toServer message ∈ said := by
  unfold written
  rw [List.mem_filterMap]
  constructor
  · rintro ⟨utterance, hmem, hsome⟩
    cases utterance with
    | toServer other =>
      obtain rfl := Option.some.inj hsome
      exact hmem
    | fromServer | termination => cases hsome
  · intro hmem
    exact ⟨.toServer message, hmem, rfl⟩

def InOrder (messages : List Json) : Prop :=
  ∃ params documents, (∀ message ∈ documents, IsAboutDocument message) ∧
    messages <+: initializing params :: initialized :: documents ++ [shutdown, exit]

/-- A dialogue in which the client keeps to the order of a session, waits for the answers to its
requests before it goes on, and says nothing after it has ended the server. -/
structure Orderly (said : List Utterance) : Prop where
  inOrder : InOrder (written said)
  greeted : ∀ before after, said = before ++ .toServer initialized :: after →
    ∃ params message, IsResult 1 message ∧
      [.toServer (initializing params), .fromServer message].Sublist before
  released : ∀ before after, said = before ++ .toServer exit :: after →
    ∃ message, IsResult 2 message ∧ [.toServer shutdown, .fromServer message].Sublist before
  silent : ∀ before after, said = before ++ .termination :: after → written after = []

def Utterance.isTermination : Utterance → Bool
  | .termination => true
  | _ => false

def terminations (said : List Utterance) : Nat := said.countP Utterance.isTermination

theorem terminations_append_singleton (said : List Utterance) (utterance : Utterance) :
    terminations (said ++ [utterance]) =
      terminations said + if utterance.isTermination then 1 else 0 := by
  simp [terminations, List.countP_append, List.countP_singleton]

namespace Phase

def Written : Phase → List Json → Prop
  | fresh, messages => messages = []
  | greeting, messages | greeted, messages => ∃ params, messages = [initializing params]
  | ready, messages => ∃ params documents, (∀ message ∈ documents, IsAboutDocument message) ∧
      messages = initializing params :: initialized :: documents
  | leaving, messages | released, messages =>
    ∃ params documents, (∀ message ∈ documents, IsAboutDocument message) ∧
      messages = initializing params :: initialized :: documents ++ [shutdown]
  | gone, messages => ∃ params documents, (∀ message ∈ documents, IsAboutDocument message) ∧
      messages = initializing params :: initialized :: documents ++ [shutdown, exit]
  | ended, messages => InOrder messages

theorem Written.inOrder {phase : Phase} {messages : List Json} (h : phase.Written messages) :
    InOrder messages := by
  cases phase with
  | fresh =>
    obtain rfl := h
    exact ⟨.null, [], fun _ hmem => absurd hmem List.not_mem_nil, List.nil_prefix⟩
  | greeting | greeted =>
    obtain ⟨params, rfl⟩ := h
    exact ⟨params, [], fun _ hmem => absurd hmem List.not_mem_nil, ⟨_, rfl⟩⟩
  | ready =>
    obtain ⟨params, documents, hdocuments, rfl⟩ := h
    exact ⟨params, documents, hdocuments, List.prefix_append ..⟩
  | leaving | released =>
    obtain ⟨params, documents, hdocuments, rfl⟩ := h
    exact ⟨params, documents, hdocuments, ⟨[exit], by simp⟩⟩
  | gone =>
    obtain ⟨params, documents, hdocuments, rfl⟩ := h
    exact ⟨params, documents, hdocuments, List.prefix_rfl⟩
  | ended => exact h

end Phase

namespace Dialogue

variable {said : List Utterance} {phase : Phase}

theorem written_append_singleton (said : List Utterance) (utterance : Utterance) :
    written (said ++ [utterance]) = written said ++ written [utterance] := List.filterMap_append ..

theorem written_of (h : Dialogue said phase) : phase.Written (written said) := by
  induction h with
  | nil => rfl
  | @snoc said utterance phase next _ hstep ih =>
    rw [written_append_singleton]
    cases hstep with
    | initializing params => exact ⟨params, by rw [ih]; rfl⟩
    | greeted | released | aside => simpa [written, Phase.Written] using ih
    | initialized =>
      obtain ⟨params, heq⟩ := ih
      exact ⟨params, [], fun _ hmem => absurd hmem List.not_mem_nil, by rw [heq]; rfl⟩
    | document hdocument =>
      obtain ⟨params, documents, hdocuments, heq⟩ := ih
      refine ⟨params, documents ++ [_], fun message hmem => ?_, by rw [heq]; rfl⟩
      rcases List.mem_append.1 hmem with hmem | hmem
      · exact hdocuments message hmem
      · rwa [List.mem_singleton.1 hmem]
    | shutdown =>
      obtain ⟨params, documents, hdocuments, heq⟩ := ih
      exact ⟨params, documents, hdocuments, by rw [heq]; rfl⟩
    | exit =>
      obtain ⟨params, documents, hdocuments, heq⟩ := ih
      exact ⟨params, documents, hdocuments, by rw [heq]; simp [written]⟩
    | termination =>
      rw [show written [.termination] = [] from rfl, List.append_nil]
      exact ih.inOrder

/-! What was answered when the dialogue comes to a phase. -/

def Greeted (said : List Utterance) : Prop :=
  ∃ params message, IsResult 1 message ∧
    [.toServer (initializing params), .fromServer message].Sublist said

def Released (said : List Utterance) : Prop :=
  ∃ message, IsResult 2 message ∧ [.toServer shutdown, .fromServer message].Sublist said

theorem Greeted.append (h : Greeted said) (more : List Utterance) : Greeted (said ++ more) := by
  obtain ⟨params, message, hresult, hsub⟩ := h
  exact ⟨params, message, hresult, hsub.trans (List.sublist_append_left said more)⟩

theorem Released.append (h : Released said) (more : List Utterance) : Released (said ++ more) := by
  obtain ⟨message, hresult, hsub⟩ := h
  exact ⟨message, hresult, hsub.trans (List.sublist_append_left said more)⟩

def Answered : Phase → List Utterance → Prop
  | .fresh, _ | .ended, _ => True
  | .greeting, said => ∃ params, .toServer (initializing params) ∈ said
  | .greeted, said | .ready, said => Greeted said
  | .leaving, said => Greeted said ∧ .toServer shutdown ∈ said
  | .released, said | .gone, said => Greeted said ∧ Released said

theorem sublist_pair {first second : Utterance} (h : first ∈ said) :
    [first, second].Sublist (said ++ [second]) :=
  List.Sublist.append (List.singleton_sublist.2 h) (List.Sublist.refl [second])

theorem Answered.append {phase : Phase} (h : Answered phase said) (more : List Utterance) :
    Answered phase (said ++ more) := by
  cases phase with
  | fresh | ended => trivial
  | greeting =>
    obtain ⟨params, hmem⟩ := h
    exact ⟨params, List.mem_append_left more hmem⟩
  | greeted | ready => exact Greeted.append h more
  | leaving => exact ⟨h.1.append more, List.mem_append_left more h.2⟩
  | released | gone => exact ⟨h.1.append more, h.2.append more⟩

theorem answered_of (h : Dialogue said phase) : Answered phase said := by
  induction h with
  | nil => trivial
  | @snoc said utterance phase next _ hstep ih =>
    cases hstep with
    | initializing params => exact ⟨params, List.mem_append_right said (List.mem_singleton_self _)⟩
    | greeted hresult =>
      obtain ⟨params, hmem⟩ := ih
      exact ⟨params, _, hresult, sublist_pair hmem⟩
    | initialized | document => exact Greeted.append ih _
    | shutdown => exact ⟨ih.append _, List.mem_append_right said (List.mem_singleton_self _)⟩
    | released hresult => exact ⟨ih.1.append _, _, hresult, sublist_pair ih.2⟩
    | exit => exact ⟨ih.1.append _, ih.2.append _⟩
    | aside => exact Answered.append ih _
    | termination => trivial

/-- A request to initialize that was answered with a result is behind the dialogue. -/
theorem greeted_of_isResult (h : Dialogue said phase) {message : Json}
    (hresult : IsResult 1 message) (hmem : .fromServer message ∈ said) :
    phase ≠ .fresh ∧ phase ≠ .greeting := by
  induction h with
  | nil => exact absurd hmem List.not_mem_nil
  | @snoc said utterance phase next _ hstep ih =>
    rw [List.mem_append, List.mem_singleton] at hmem
    cases hstep with
    | aside haside =>
      rcases hmem with hmem | heq
      · exact ih hmem
      · obtain rfl := Utterance.fromServer.inj heq
        exact absurd haside hresult.not_isAside
    | initializing =>
      rcases hmem with hmem | heq
      · exact absurd rfl (ih hmem).1
      · cases heq
    | greeted | initialized | document | shutdown | released | exit | termination =>
      exact ⟨nofun, nofun⟩

/-- A request to shut down that was answered with a result is behind the dialogue. -/
theorem released_of_isResult (h : Dialogue said phase) {message : Json}
    (hresult : IsResult 2 message) (hmem : .fromServer message ∈ said) :
    phase = .released ∨ phase = .gone ∨ phase = .ended := by
  induction h with
  | nil => exact absurd hmem List.not_mem_nil
  | @snoc said utterance phase next _ hstep ih =>
    rw [List.mem_append, List.mem_singleton] at hmem
    cases hstep with
    | aside haside =>
      rcases hmem with hmem | heq
      · exact ih hmem
      · obtain rfl := Utterance.fromServer.inj heq
        exact absurd haside hresult.not_isAside
    | greeted hother =>
      rcases hmem with hmem | heq
      · rcases ih hmem with hp | hp | hp <;> cases hp
      · obtain rfl := Utterance.fromServer.inj heq
        cases hresult.id_eq hother
    | initializing | initialized | document | shutdown =>
      rcases hmem with hmem | heq
      · rcases ih hmem with hp | hp | hp <;> cases hp
      · cases heq
    | released => exact .inl rfl
    | exit => exact .inr (.inl rfl)
    | termination => exact .inr (.inr rfl)

theorem ended_of_termination (h : Dialogue said phase) (hmem : .termination ∈ said) :
    phase = .ended := by
  induction h with
  | nil => exact absurd hmem List.not_mem_nil
  | @snoc said utterance phase next _ hstep ih =>
    rw [List.mem_append, List.mem_singleton] at hmem
    cases hstep with
    | termination => rfl
    | aside =>
      rcases hmem with hmem | heq
      · exact ih hmem
      · cases heq
    | initializing | greeted | initialized | document | shutdown | released | exit =>
      rcases hmem with hmem | heq
      · cases ih hmem
      · cases heq

/-! The client says that it is initialized, and lets the server go, in one phase only. -/

theorem phase_of_initialized {next : Phase} (h : phase.Step (.toServer initialized) next) :
    phase = .greeted := by
  generalize hm : initialized = message at h
  cases h with
  | initialized => rfl
  | initializing | shutdown | exit =>
    simp [initialized, initializing, shutdown, exit, notification, request, withParams] at hm
  | document hdocument =>
    obtain ⟨params, rfl | rfl⟩ := hdocument <;> simp [initialized, notification, withParams] at hm

theorem phase_of_exit {next : Phase} (h : phase.Step (.toServer exit) next) :
    phase = .released := by
  generalize hm : exit = message at h
  cases h with
  | exit => rfl
  | initializing | shutdown | initialized =>
    simp [initialized, initializing, shutdown, exit, notification, request, withParams] at hm
  | document hdocument =>
    obtain ⟨params, rfl | rfl⟩ := hdocument <;> simp [exit, notification, withParams] at hm

theorem append_singleton_eq {before after : List Utterance} {last utterance : Utterance}
    (h : said ++ [last] = before ++ utterance :: after) :
    (after = [] ∧ said = before ∧ last = utterance) ∨
      ∃ rest, after = rest ++ [last] ∧ said = before ++ utterance :: rest := by
  rcases List.eq_nil_or_concat after with rfl | ⟨rest, final, rfl⟩
  · obtain ⟨hsaid, hlast⟩ := List.append_inj' h rfl
    exact .inl ⟨rfl, hsaid, List.singleton_inj.1 hlast⟩
  · rw [List.concat_eq_append, ← List.cons_append, ← List.append_assoc] at h
    obtain ⟨hsaid, hlast⟩ := List.append_inj' h rfl
    exact .inr ⟨rest, by rw [List.concat_eq_append, List.singleton_inj.1 hlast], hsaid⟩

/-- Every dialogue keeps to the order of a session. -/
theorem orderly (h : Dialogue said phase) : Orderly said where
  inOrder := h.written_of.inOrder
  greeted := by
    induction h with
    | nil => exact fun _ _ heq => absurd heq (by simp)
    | snoc hdialogue hstep ih =>
      intro before after heq
      obtain ⟨rfl, rfl, rfl⟩ | ⟨rest, rfl, hsaid⟩ := append_singleton_eq heq
      · obtain rfl := phase_of_initialized hstep
        exact answered_of hdialogue
      · exact ih before rest hsaid
  released := by
    induction h with
    | nil => exact fun _ _ heq => absurd heq (by simp)
    | snoc hdialogue hstep ih =>
      intro before after heq
      obtain ⟨rfl, rfl, rfl⟩ | ⟨rest, rfl, hsaid⟩ := append_singleton_eq heq
      · obtain rfl := phase_of_exit hstep
        exact (answered_of hdialogue).2
      · exact ih before rest hsaid
  silent := by
    induction h with
    | nil => exact fun _ _ heq => absurd heq (by simp)
    | snoc hdialogue hstep ih =>
      intro before after heq
      obtain ⟨rfl, -, -⟩ | ⟨rest, rfl, rfl⟩ := append_singleton_eq heq
      · rfl
      · obtain rfl := ended_of_termination hdialogue (by simp)
        rw [written_append_singleton, ih before rest rfl]
        cases hstep <;> rfl

end Dialogue

end ProjectCheck
