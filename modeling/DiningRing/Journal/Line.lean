/-
# Lines of the journal

An entry as it is written to a log: as a JSON object on one line, or as plain text.
-/
import DiningRing.Journal
import DiningRing.Json

namespace DiningRing.Journal

namespace Value

/-- A value as JSON. -/
def toJson : Value → Json
  | number n => .number n
  | flag b => .bool b
  | text s => .string s

/-- A value as plain text. -/
def plain : Value → String
  | number n => Nat.repr n
  | flag b => if b then "true" else "false"
  | text s => s

end Value

namespace Entry

/-- The message and the fields of an entry as one object. -/
def fieldsJson (e : Entry) : Json :=
  .object (("message", .string e.message) :: e.fields.map fun f => (f.1, f.2.toJson))

/-- An entry as a JSON object on one line. -/
def jsonLine (e : Entry) : String :=
  (Json.object [("level", .string e.level.text), ("fields", e.fieldsJson),
    ("target", .string e.target)]).compact

/-- An entry as plain text. -/
def plainLine (e : Entry) : String :=
  let fields := e.fields.map fun f => s!" {f.1}={f.2.plain}"
  s!"{e.level.text} {e.message}" ++ String.join fields

end Entry

end DiningRing.Journal
