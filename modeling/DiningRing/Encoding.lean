/-
# Values as JSON

How seats, plans, events, reports and explorations are written as JSON.  Things of which
there are finitely many are written by name, records as objects with their fields in order,
and an outcome as an object that is told apart by its `kind`.
-/
import DiningRing.Explore
import DiningRing.Json
import DiningRing.Scheduler
import DiningRing.Simulation.Report

namespace DiningRing

/-! ## Names -/

/-- Types with finitely many values, each with a name. -/
class Named (α : Type) where
  /-- The values. -/
  all : List α
  /-- The name of a value. -/
  name : α → String

namespace Named

/-- The value of a name. -/
def ofName? {α : Type} [Named α] (name : String) : Option α :=
  (Named.all (α := α)).find? fun a => Named.name a == name

/-- A value written by its name. -/
def toJson {α : Type} [Named α] (a : α) : Json := .string (Named.name a)

end Named

instance : Named Side := ⟨[.left, .right], Side.text⟩

instance : Named Phase where
  all := [.idle, .waiting, .eating, .releasing]
  name
    | .idle => "idle"
    | .waiting => "waiting_resources"
    | .eating => "critical_section"
    | .releasing => "releasing"

instance : Named Order where
  all := [.leftThenRight, .rightThenLeft]
  name
    | .leftThenRight => "left_then_right"
    | .rightThenLeft => "right_then_left"

instance : Named Placement where
  all := [.held, .incoming, .away]
  name
    | .held => "held"
    | .incoming => "incoming"
    | .away => "away"

instance : Named Plan := ⟨[.reversedLast, .uniform], Plan.text⟩

instance : Named Transition where
  all := [.waiting, .eating, .finished]
  name
    | .waiting => "waiting"
    | .eating => "eating"
    | .finished => "finished"

instance : Named Scheduler.Kind := ⟨[.roundRobin, .random, .lockstep], Scheduler.Kind.text⟩

/-! ## Records -/

/-- A list of numbers. -/
def Json.numbers (ns : List Nat) : Json := .array (ns.map Json.number)

/-- A value, or `null` for none. -/
def Json.ofOption (o : Option Json) : Json := o.getD .null

/-- A starting position as JSON. -/
def Assignment.toJson (a : Assignment) : Json := .object [
  ("left", Named.toJson a.left), ("right", Named.toJson a.right), ("order", Named.toJson a.order)]

/-- An event as JSON. -/
def Event.toJson (e : Event) : Json := .object [
  ("seat", .number e.seat), ("transition", Named.toJson e.transition)]

/-- The members of an outcome, its kind first. -/
def Outcome.members : Outcome → List (String × Json)
  | .completed => [("kind", .string "completed")]
  | .deadlocked step => [("kind", .string "deadlocked"), ("step", .number step)]
  | .scheduleExhausted step => [("kind", .string "schedule_exhausted"), ("step", .number step)]

/-- An outcome as JSON. -/
def Outcome.toJson (o : Outcome) : Json := .object o.members

/-- The members of a report. -/
def Report.members (r : Report) : List (String × Json) := [
  ("seats", .number r.seats), ("plan", Named.toJson r.plan), ("scheduler", .string r.scheduler),
  ("steps", .number r.steps), ("outcome", r.outcome.toJson), ("meals", .numbers r.meals),
  ("longest_wait", .numbers r.longestWait),
  ("first_meal", .array (r.firstMeal.map fun m => .ofOption (m.map Json.number)))]

/-- A report as JSON. -/
def Report.toJson (r : Report) : Json := .object r.members

/-- The JSON text of a report, line by line. -/
def Report.jsonText (r : Report) : String := r.toJson.pretty

/-- The members of an exploration. -/
def Exploration.members (e : Exploration) : List (String × Json) := [
  ("seats", .number e.seats), ("plan", Named.toJson e.plan), ("states", .number e.states),
  ("transitions", .number e.transitions), ("depth", .number e.depth),
  ("complete", .bool e.complete), ("deadlock", .ofOption (e.deadlock.map Json.numbers))]

/-- An exploration as JSON. -/
def Exploration.toJson (e : Exploration) : Json := .object e.members

end DiningRing
