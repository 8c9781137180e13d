import ProjectCheck.Decimal.Written

/-!
JSON values. Whole numbers and numbers with a fraction are kept apart, and the members of an object
stay in the order in which their names first came. Escapes in a JSON text can write a surrogate that
stands alone, which is no character: strings and names with one are kept by their codes.
-/
namespace ProjectCheck

open Decimal

/-- A JSON value. `illFormed` is a string with a lone surrogate, by its codes. `illNamed` is the
value of a member whose name has a lone surrogate; the member stands under a substitute. -/
inductive Json where
  | null
  | bool (value : Bool)
  | int (value : Int)
  | float (value : Binary64)
  | string (value : String)
  | illFormed (codes : List Nat)
  | array (items : List Json)
  | object (members : List (String × Json))
  | illNamed (name : List Nat) (value : Json)
  deriving Inhabited

abbrev Members (α : Type) (κ : Type := String) := List (κ × α)

namespace Members

variable {α κ : Type}

def names (members : Members α κ) : List κ := members.map Prod.fst

variable [DecidableEq κ]

def get? (name : κ) : Members α κ → Option α
  | [] => none
  | (n, v) :: rest => if n = name then some v else get? name rest

def has (name : κ) (members : Members α κ) : Bool :=
  (get? name members).isSome

def set (name : κ) (value : α) : Members α κ → Members α κ
  | [] => [(name, value)]
  | (n, v) :: rest => if n = name then (n, value) :: rest else (n, v) :: set name value rest

def erase (name : κ) (members : Members α κ) : Members α κ :=
  members.filter fun member => member.1 ≠ name

theorem get?_set_self (name : κ) (value : α) (members : Members α κ) :
    get? name (set name value members) = some value := by
  induction members with
  | nil => simp [set, get?]
  | cons member rest ih => by_cases h : member.1 = name <;> simp [set, get?, h, ih]

theorem get?_set_of_ne {name other : κ} (h : other ≠ name) (value : α)
    (members : Members α κ) : get? other (set name value members) = get? other members := by
  induction members with
  | nil => simp [set, get?, Ne.symm h]
  | cons member rest ih =>
    by_cases hm : member.1 = name
    · simp [set, get?, hm, Ne.symm h]
    · simp [set, get?, hm, ih]

end Members

namespace Json

def get? (name : String) : Json → Option Json
  | object members => Members.get? name members
  | _ => none

def asString? : Json → Option String
  | string s => some s
  | _ => none

def asArray? : Json → Option (List Json)
  | array items => some items
  | _ => none

def asObject? : Json → Option (Members Json)
  | object members => some members
  | _ => none

def isTruthy : Json → Bool
  | null => false
  | bool b => b
  | int i => i != 0
  | float x => x.isNonzero
  | string s => !s.isEmpty
  | illFormed codes => !codes.isEmpty
  | array items => !items.isEmpty
  | object members => !members.isEmpty
  | illNamed _ value => value.isTruthy

def equalsInt (i : Int) : Json → Bool
  | bool b => (if b then 1 else 0) == i
  | int j => j == i
  | float x => x.equalsInt i
  | _ => false

def kindName : Json → String
  | null => "NoneType"
  | bool _ => "bool"
  | int _ => "int"
  | float _ => "float"
  | string _ | illFormed _ => "str"
  | array _ => "list"
  | object _ => "dict"
  | illNamed _ value => value.kindName

mutual

def isWellFormed : Json → Bool
  | illFormed _ | illNamed _ _ => false
  | array items => areWellFormed items
  | object members => haveWellFormed members
  | _ => true

def areWellFormed : List Json → Bool
  | [] => true
  | item :: rest => item.isWellFormed && areWellFormed rest

def haveWellFormed : List (String × Json) → Bool
  | [] => true
  | (_, value) :: rest => value.isWellFormed && haveWellFormed rest

end

end Json

end ProjectCheck
