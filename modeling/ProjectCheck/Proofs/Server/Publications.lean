import ProjectCheck.Proofs.Files.Linkless
import ProjectCheck.Proofs.Files.UriSpelling
import ProjectCheck.Proofs.Server.Exchange
import ProjectCheck.Proofs.Server.Occurrences

/-!
What is published for files. Of all messages that publish diagnostics for a file, the last counts,
however it spells the URI, and no message counts that names another file. Since decoding gives a
replacement character for octets that write no text, a URI that names no text at all can count as
well.
-/
namespace ProjectCheck

open Run Machine

def messagesOf (history : List Occurrence) : List Json :=
  history.filterMap fun
    | .message value => some value
    | _ => none

theorem messagesOf_map (messages : List Json) :
    messagesOf (messages.map .message) = messages := by
  induction messages with
  | nil => rfl
  | cons message rest ih => exact congrArg (message :: ·) ih

inductive PublishedLast (named : String → Prop) : List Json → Option Json → Prop
  | nothing {messages : List Json}
      (hnone : ∀ message ∈ messages, ∀ uri diagnostics,
        message.publication? = some (uri, diagnostics) → ¬ named uri) :
      PublishedLast named messages none
  | something {before after : List Json} {message diagnostics : Json} {uri : String}
      (hpublished : message.publication? = some (uri, diagnostics)) (hnamed : named uri)
      (hlast : ∀ later ∈ after, ∀ other diagnostics,
        later.publication? = some (other, diagnostics) → ¬ named other) :
      PublishedLast named (before ++ message :: after) (some diagnostics)

namespace PublishedLast

/-- Only the URIs of messages matter. -/
theorem congr {named other : String → Prop} {messages : List Json} {found : Option Json}
    (h : PublishedLast named messages found)
    (hsame : ∀ message ∈ messages, ∀ uri diagnostics,
      message.publication? = some (uri, diagnostics) → (named uri ↔ other uri)) :
    PublishedLast other messages found := by
  cases h with
  | nothing hnone =>
    refine .nothing fun message hmem uri diagnostics hpublished hother => ?_
    exact hnone message hmem uri diagnostics hpublished
      ((hsame message hmem uri diagnostics hpublished).2 hother)
  | @something before after message _ uri hpublished hnamed hlast =>
    have hmem : message ∈ before ++ message :: after :=
      List.mem_append_right before (List.mem_cons_self ..)
    refine .something hpublished ((hsame message hmem uri _ hpublished).1 hnamed)
      fun later hlater uri diagnostics hpublished hother => ?_
    have hmem : later ∈ before ++ message :: after :=
      List.mem_append_right before (List.mem_cons_of_mem message hlater)
    exact hlast later hlater uri diagnostics hpublished
      ((hsame later hmem uri diagnostics hpublished).2 hother)

end PublishedLast

namespace Json

variable {key : String} {message diagnostics : Json}

end Json

namespace Session

/-- What a document was published for last after some occurrences. -/
theorem get?_published_after (s : Session) (history : List Occurrence) (key : String) :
    (s.after history).published.get? key =
      ((messagesOf history).reverse.findSome? (·.publishedFor? key)).or
        (s.published.get? key) := by
  induction history generalizing s with
  | nil => rfl
  | cons occurrence rest ih =>
    refine (ih (occurrence.effect s)).trans ?_
    cases occurrence with
    | message value =>
      have hmessages : messagesOf (.message value :: rest) = value :: messagesOf rest := rfl
      have heffect := s.get?_published_receive value key
      rw [hmessages, List.reverse_cons, List.findSome?_append, Option.or_assoc,
        List.findSome?_singleton, ← heffect]
      rfl
    | _ => rfl

end Session

namespace Machine

def bareClient : Machine :=
  { files := .directory [], workingDirectory := [],
    connections := [{ behaviour := {}, session := {} }] }

end Machine

end ProjectCheck
