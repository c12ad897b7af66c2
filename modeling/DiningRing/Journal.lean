/-
# The journal

What the program has to say about its own work: entries with a level, the place they come
from, and named fields.  Operations return their entries as data, and a reader keeps those
that are severe enough.
-/
namespace DiningRing

namespace Journal

/-- The severity of an entry. -/
inductive Level where
  | error
  | warn
  | info
  | debug
  | trace
deriving DecidableEq, Repr

namespace Level

/-- The position of a level, the most severe first. -/
def rank : Level → Nat
  | error => 0
  | warn => 1
  | info => 2
  | debug => 3
  | trace => 4

/-- The name of a level as it is written. -/
def text : Level → String
  | error => "ERROR"
  | warn => "WARN"
  | info => "INFO"
  | debug => "DEBUG"
  | trace => "TRACE"

/-- The level that a lower-case name means. -/
def ofName? : String → Option Level
  | "error" => some error
  | "warn" => some warn
  | "info" => some info
  | "debug" => some debug
  | "trace" => some trace
  | _ => none

end Level

/-- The value of a field. -/
inductive Value where
  | number (n : Nat)
  | flag (b : Bool)
  | text (s : String)
deriving DecidableEq, Repr

/-- One entry. -/
structure Entry where
  level : Level
  target : String
  message : String
  fields : List (String × Value)
deriving DecidableEq, Repr

end Journal

/-- Entries in the order in which they were made. -/
abbrev Journal := Array Journal.Entry

namespace Journal

/-- The entries at a level or more severe. -/
def upTo (level : Level) (j : Journal) : Journal :=
  j.filter fun e => e.level.rank ≤ level.rank

end Journal

end DiningRing
