import ProjectCheck.Json.Writer
import ProjectCheck.Text.Integer
import ProjectCheck.Text.Utf8

/-!
Frames: how messages stand in a stream of octets. A frame is a header that declares the length of
its content, an empty line, and the content. A header that declares no length is dropped with its
empty line, which finds the next frame again.
-/
namespace ProjectCheck.Frame

open Text

def separator : Bytes := utf8 "\r\n\r\n"

def lengthName : Bytes := utf8 "content-length:"

def ofContent (content : Bytes) : Bytes :=
  utf8 s!"Content-Length: {content.length}" ++ separator ++ content

def content (message : Json) : Bytes := encodeUtf8 message.writeChars

def isMeasurable (content : Bytes) : Bool :=
  (Nat.toDigits 10 content.length).length ≤ digitLimit

/-- The frame of a message, unless a lone surrogate in it or the length of its content cannot be
written. -/
def ofMessage? (message : Json) : Option Bytes :=
  if message.isWellFormed && isMeasurable (content message) then some (ofContent (content message))
  else none

def splitHeader : Bytes → Option (Bytes × Bytes)
  | [] => none
  | b :: rest =>
    if separator.isPrefixOf (b :: rest) then some ([], rest.drop 3)
    else (splitHeader rest).map fun (header, body) => (b :: header, body)

def lowerOctet (b : UInt8) : UInt8 := if 0x41 ≤ b ∧ b ≤ 0x5A then b + 0x20 else b

def isBlankOctet (b : UInt8) : Bool := b = 0x20 || (0x09 ≤ b && b ≤ 0x0D)

def isDigitOctet (b : UInt8) : Bool := 0x30 ≤ b && b ≤ 0x39

/-- The digits of a declaration at the start of some octets: the name in any letter case, blanks,
and at least one digit. -/
def declarationAt? (octets : Bytes) : Option (List Char) :=
  if (octets.take lengthName.length).map lowerOctet = lengthName then
    let run := ((octets.drop lengthName.length).dropWhile isBlankOctet).takeWhile isDigitOctet
    if run.isEmpty then none else some (run.map fun b => Char.ofNat b.toNat)
  else none

def declaration? : Bytes → Option (List Char)
  | [] => none
  | b :: rest => match declarationAt? (b :: rest) with
    | some digits => some digits
    | none => declaration? rest

def declaredLength (header : Bytes) : Except IntegerFault Nat :=
  match declaration? header with
  | some digits => readDigits digits
  | none => .ok 0

/-- Takes a frame from the front of a stream: its content and what follows, or nothing while the
frame is unfinished. -/
def takeFrame (stream : Bytes) : Except IntegerFault (Option (Bytes × Bytes)) :=
  match splitHeader stream with
  | none => .ok none
  | some (header, body) =>
    match declaredLength header with
    | .error fault => .error fault
    | .ok length =>
      .ok (if body.length < length then none else some (body.take length, body.drop length))

theorem splitHeader_length {stream header body : Bytes}
    (h : splitHeader stream = some (header, body)) :
    body.length < stream.length := by
  induction stream generalizing header with
  | nil => simp [splitHeader] at h
  | cons b rest ih =>
    simp only [splitHeader] at h
    split at h
    · obtain ⟨-, rfl⟩ := Prod.mk.inj (Option.some.inj h)
      simp only [List.length_drop, List.length_cons]
      omega
    · obtain ⟨⟨before, after⟩, hs, he⟩ := Option.map_eq_some_iff.1 h
      obtain ⟨-, rfl⟩ := Prod.mk.inj he
      have hlt : after.length < rest.length := ih hs
      simp only [List.length_cons]
      omega

theorem takeFrame_length {stream content rest : Bytes}
    (h : takeFrame stream = .ok (some (content, rest))) : rest.length < stream.length := by
  unfold takeFrame at h
  split at h
  · simp at h
  · rename_i header body hs
    split at h
    · simp at h
    · simp only [Except.ok.injEq] at h
      split at h
      · simp at h
      · simp only [Option.some.injEq, Prod.mk.injEq] at h
        have := splitHeader_length hs
        rw [← h.2, List.length_drop]
        omega

structure Taken where
  contents : List Bytes
  rest : Bytes
  fault : Option IntegerFault := none
  deriving Repr, DecidableEq

def takeAtMost : Nat → Bytes → Taken
  | 0, stream => ⟨[], stream, none⟩
  | limit + 1, stream =>
    match takeFrame stream with
    | .error fault => ⟨[], stream, some fault⟩
    | .ok none => ⟨[], stream, none⟩
    | .ok (some (content, rest)) =>
      let taken := takeAtMost limit rest
      { taken with contents := content :: taken.contents }

/-- Takes all frames from a stream. Each takes octets away, so there are no more
frames than octets. -/
def takeAll (stream : Bytes) : Taken := takeAtMost stream.length stream

end ProjectCheck.Frame
