import ProjectCheck.Json.Writer
import ProjectCheck.Text.Numeral

/-!
Checking values against the fields of a record. Every fault of a record is reported, in the order of
its fields, each with the place where it stands. Numbers and truth values may also be given by texts
that write them.
-/
namespace ProjectCheck

open Text Decimal

inductive IssueKind where
  | missing
  | stringType
  | stringUnicode
  | intType
  | intParsing
  | intParsingSize
  | intFromFloat
  | finiteNumber
  | floatType
  | floatParsing
  | boolType
  | boolParsing
  | listType
  | tupleType
  | modelType
  | enumeration
  | greaterThan
  | greaterThanEqual
  | frozenInstance
  | value (message : String)
  deriving Repr, DecidableEq

def IssueKind.code : IssueKind → String
  | missing => "missing"
  | stringType => "string_type"
  | stringUnicode => "string_unicode"
  | intType => "int_type"
  | intParsing => "int_parsing"
  | intParsingSize => "int_parsing_size"
  | intFromFloat => "int_from_float"
  | finiteNumber => "finite_number"
  | floatType => "float_type"
  | floatParsing => "float_parsing"
  | boolType => "bool_type"
  | boolParsing => "bool_parsing"
  | listType => "list_type"
  | tupleType => "tuple_type"
  | modelType => "model_type"
  | enumeration => "enum"
  | greaterThan => "greater_than"
  | greaterThanEqual => "greater_than_equal"
  | frozenInstance => "frozen_instance"
  | value _ => "value_error"

inductive Step where
  | field (name : String)
  | item (index : Nat)
  deriving Repr, DecidableEq

structure Issue where
  kind : IssueKind
  location : List Step := []
  deriving Repr, DecidableEq

inductive Checked (α : Type) where
  | valid (value : α)
  | invalid (issues : List Issue)
  deriving Repr

namespace Checked

variable {α β γ : Type}

def fail (kind : IssueKind) : Checked α := .invalid [⟨kind, []⟩]

def map (f : α → β) : Checked α → Checked β
  | .valid a => .valid (f a)
  | .invalid issues => .invalid issues

def ap : Checked (α → β) → Checked α → Checked β
  | .valid f, .valid a => .valid (f a)
  | .valid _, .invalid issues => .invalid issues
  | .invalid issues, .valid _ => .invalid issues
  | .invalid issues, .invalid more => .invalid (issues ++ more)

def andThen : Checked α → (α → Checked β) → Checked β
  | .valid a, f => f a
  | .invalid issues, _ => .invalid issues

def within (step : Step) : Checked α → Checked α
  | .valid a => .valid a
  | .invalid issues =>
    .invalid (issues.map fun issue => { issue with location := step :: issue.location })

def require (kind : IssueKind) (test : α → Bool) (a : α) : Checked α :=
  if test a then .valid a else fail kind

theorem map_eq_valid {f : α → β} {checked : Checked α} {b : β}
    (h : checked.map f = .valid b) : ∃ a, checked = .valid a ∧ f a = b := by
  cases checked with
  | valid a => exact ⟨a, rfl, (valid.inj h)⟩
  | invalid issues => cases h

theorem ap_eq_valid {function : Checked (α → β)} {checked : Checked α} {b : β}
    (h : function.ap checked = .valid b) :
    ∃ f a, function = .valid f ∧ checked = .valid a ∧ f a = b := by
  cases function with
  | valid f =>
    cases checked with
    | valid a => exact ⟨f, a, rfl, rfl, valid.inj h⟩
    | invalid issues => cases h
  | invalid issues => cases checked <;> cases h

def items (check : Json → Checked α) (index : Nat) : List Json → Checked (List α)
  | [] => .valid []
  | item :: rest =>
    ap (map List.cons ((check item).within (.item index))) (items check (index + 1) rest)

end Checked

abbrev Check (α : Type) := Json → Checked α

namespace Check

variable {α : Type}

def string : Check LooseText := fun value =>
  match value.asText? with
  | some text => .valid text
  | none => .fail .stringType

def optional (check : Check α) : Check (Option α)
  | .null => .valid none
  | value => (check value).map some

def wordTruth? (s : String) : Option Bool :=
  let word := asciiLowerWord s
  if ["0", "f", "n", "no", "off", "false"].contains word then some false
  else if ["1", "t", "y", "on", "yes", "true"].contains word then some true
  else none
where
  asciiLowerWord (s : String) : String := String.ofList (s.toList.map Char.toLower)

def wholeNumber (s : String) : Checked Int :=
  match readNumeral s.toList with
  | .ok i => .valid i
  | .error .malformed => .fail .intParsing
  | .error .tooLong => .fail .intParsingSize

def isWord (i : Int) : Bool := -Int.pow 2 63 ≤ i && i < Int.pow 2 63

/-- A whole number of the binary format stands for itself inside the range of a word; the least
word is left out. -/
def ofWholeNumber (i : Int) : Option Int := if isWord i && i ≠ -Int.pow 2 63 then some i else none

def int : Check Int
  | .int i => .valid i
  | .bool b => .valid (if b then 1 else 0)
  | .float x => match x.truncate? with
    | none => .fail .finiteNumber
    | some i =>
      if !x.isWhole then .fail .intFromFloat
      else match ofWholeNumber i with
        | some i => .valid i
        | none => .fail .intParsingSize
  | .string s => wholeNumber s
  | .illFormed _ => .fail .stringUnicode
  | _ => .fail .intType

def truthOf (i : Int) : Checked Bool :=
  if i = 0 then .valid false else if i = 1 then .valid true else .fail .boolParsing

def bool : Check Bool
  | .bool b => .valid b
  | .int i => if isWord i then truthOf i else .fail .boolType
  | .float x =>
    match (if x.isWhole then x.truncate? else none).bind ofWholeNumber with
    | some i => truthOf i
    | none => .fail .boolType
  | .string s => match wordTruth? s with
    | some b => .valid b
    | none => .fail .boolParsing
  | .illFormed _ => .fail .stringUnicode
  | _ => .fail .boolType

def count : Check Nat := fun value =>
  (int value).andThen fun i => if i < 0 then .fail .greaterThanEqual else .valid i.toNat

def number (s : String) : Checked Binary64 :=
  match Binary64.ofText? (trimPadding s.toList) with
  | some x => .valid x
  | none =>
    match if hasInnerUnderscores s.toList then Binary64.ofText? (dropUnderscores s.toList)
      else none with
    | some x => .valid x
    | none => .fail .floatParsing

def ofWhole (i : Int) : Checked Binary64 :=
  match Binary64.ofInt i with
  | .infinite _ => .fail .floatType
  | x => .valid x

def float : Check Binary64
  | .float x => .valid x
  | .int i => ofWhole i
  | .bool b => ofWhole (if b then 1 else 0)
  | .string s => number s
  | .illFormed _ => .fail .stringUnicode
  | _ => .fail .floatType

def list (check : Check α) : Check (List α)
  | .array items => Checked.items check 0 items
  | _ => .fail .listType

def tuple (check : Check α) : Check (List α)
  | .array items => Checked.items check 0 items
  | _ => .fail .tupleType

def model (check : Members Json → Checked α) : Check α
  | .object members => check members
  | _ => .fail .modelType

def oneOf (ofName? : String → Option α) : Check α
  | .string s => match ofName? s with
    | some a => .valid a
    | none => .fail .enumeration
  | .illFormed _ => .fail .stringUnicode
  | _ => .fail .enumeration

end Check

namespace Members

variable {α : Type}

def required (name : String) (check : Check α) (members : Members Json) : Checked α :=
  match members.get? name with
  | some value => (check value).within (.field name)
  | none => (Checked.fail .missing).within (.field name)

def withDefault (name : String) (check : Check α) (default : α) (members : Members Json) :
    Checked α :=
  match members.get? name with
  | some value => (check value).within (.field name)
  | none => .valid default

end Members

end ProjectCheck
