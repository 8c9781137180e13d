/-!
Levels of log records.
-/
namespace ProjectCheck

inductive Level where
  | debug
  | info
  | warning
  | error
  | critical
  deriving Repr, DecidableEq

namespace Level

def all : List Level := [debug, info, warning, error, critical]

def name : Level → String
  | debug => "DEBUG"
  | info => "INFO"
  | warning => "WARNING"
  | error => "ERROR"
  | critical => "CRITICAL"

def ofName? (name : String) : Option Level := all.find? fun level => level.name = name

def rank : Level → Nat
  | debug => 10
  | info => 20
  | warning => 30
  | error => 40
  | critical => 50

def reaches (level lowest : Level) : Bool := lowest.rank ≤ level.rank

end Level

end ProjectCheck
