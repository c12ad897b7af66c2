/-
# Reports

How a run ended, and the summary of a simulation at that point.
-/
import DiningRing.Plan
import DiningRing.Text.Numeral
import DiningRing.Trace

namespace DiningRing

/-! ## Outcomes -/

/-- How a run ended. -/
inductive Outcome where
  /-- The step budget is used up and the ring still moves. -/
  | completed
  /-- After `step` steps no seat could move. -/
  | deadlocked (step : Nat)
  /-- After `step` steps the scheduler stopped choosing. -/
  | scheduleExhausted (step : Nat)
deriving DecidableEq, Repr, Inhabited

namespace Outcome

/-- The heading of an outcome in the text of a report. -/
def status : Outcome → String
  | completed => "COMPLETED"
  | deadlocked step => s!"DEADLOCK at step {step}"
  | scheduleExhausted step => s!"SCRIPT ENDED at step {step}"

/-- The wording of an outcome in log lines. -/
def logText : Outcome → String
  | completed => "Completed"
  | deadlocked step => s!"Deadlocked \x7b step: {step} \x7d"
  | scheduleExhausted step => s!"ScheduleExhausted \x7b step: {step} \x7d"

end Outcome

/-! ## Reports -/

/-- The summary of a simulation. -/
structure Report where
  seats : Nat
  plan : Plan
  scheduler : String
  steps : Nat
  outcome : Outcome
  meals : List Nat
  /-- For each seat the longest stretch of steps between waiting and eating. -/
  longestWait : List Nat
  /-- For each seat the step at which it first ate. -/
  firstMeal : List (Option Nat)
deriving DecidableEq, Repr, Inhabited

namespace Report

/-- The meals of all seats together. -/
def totalMeals (r : Report) : Nat := r.meals.foldr (· + ·) 0

/-- Whether every seat has eaten. -/
def everyoneAte (r : Report) : Bool := r.meals.all fun m => 0 < m

/-- Whether the run ended in a deadlock. -/
def isDeadlocked (r : Report) : Bool :=
  match r.outcome with
  | .deadlocked _ => true
  | .completed | .scheduleExhausted _ => false

/-- The largest difference between the meals of two neighbours. -/
def maxNeighborGap (r : Report) : Nat := Trace.neighborGap r.meals

/-- The first line of the text. -/
def headline (r : Report) : String :=
  s!"[{r.outcome.status}] {r.seats} seats, plan {r.plan.text}, scheduler {r.scheduler}, "
    ++ s!"{r.steps} steps, {r.totalMeals} meals\n"

/-- The line of a seat in the text. -/
def line (seat meals wait : Nat) : String :=
  "  Philosopher " ++ Numeral.padded 3 (Seat.ordinal seat) ++ ": " ++ Numeral.padded 6 meals
    ++ " meals, longest wait " ++ Numeral.padded 5 wait ++ " steps\n"

/-- The text of a report: a headline, and a line for each seat.  A report that has no meals
or no wait for one of its seats has no text. -/
def text? (r : Report) : Option String :=
  if r.seats ≤ r.meals.length ∧ r.seats ≤ r.longestWait.length then
    let counts := (r.meals.zip r.longestWait).take r.seats
    let lines := counts.zipIdx.map fun (count, seat) => line seat count.1 count.2
    some (r.headline ++ String.join lines)
  else none

end Report

end DiningRing
