/-
# Runs

A scheduler drives a simulation for a budget of steps.  Before each step the budget is
looked at first, then whether any seat can move, and only then is the scheduler asked; so
nothing is drawn from a scheduler whose choice would not be used.
-/
import DiningRing.Scheduler
import DiningRing.Simulation.Report

namespace DiningRing

/-- What a run leaves behind. -/
structure Run where
  outcome : Except SimulationError Outcome
  simulation : Simulation
  scheduler : Scheduler
  journal : Journal

namespace Simulation

/-- The entry about a ring in which no seat can move. -/
def deadlockEntry (sim : Simulation) : Journal.Entry where
  level := .warn
  target := "symposium_testing::simulation"
  message := "Simulated ring deadlocked"
  fields := [("step", .number sim.steps), ("seats", .number sim.seats)]

/-- The entry about a run that ended without an error. -/
def finishedEntry (sim : Simulation) (scheduler : Scheduler) (outcome : Outcome) :
    Journal.Entry where
  level := .debug
  target := "symposium_testing::simulation"
  message := "Simulation finished"
  fields := [("scheduler", .text scheduler.name), ("steps", .number sim.steps),
    ("outcome", .text outcome.logText)]

/-- Lets a scheduler make at most `budget` steps, `journal` being what has been written so
far. -/
def drive (budget : Nat) (sim : Simulation) (scheduler : Scheduler) (journal : Journal) : Run :=
  match budget with
  | 0 => ⟨.ok .completed, sim, scheduler, journal⟩
  | budget + 1 =>
    match sim.enabled with
    | [] => ⟨.ok (.deadlocked sim.steps), sim, scheduler, journal.push sim.deadlockEntry⟩
    | seat :: seats =>
      match scheduler.pick sim (seat :: seats) with
      | (none, scheduler) => ⟨.ok (.scheduleExhausted sim.steps), sim, scheduler, journal⟩
      | (some chosen, scheduler) =>
        let stepped := sim.step chosen
        match stepped.result with
        | .error e => ⟨.error e, stepped.simulation, scheduler, journal ++ stepped.journal⟩
        | .ok _ => drive budget stepped.simulation scheduler (journal ++ stepped.journal)

/-- The summary of a simulation, under the name of a scheduler and with an outcome. -/
def report (sim : Simulation) (scheduler : String) (outcome : Outcome) : Report where
  seats := sim.seats
  plan := sim.ring.plan
  scheduler := scheduler
  steps := sim.steps
  outcome := outcome
  meals := sim.tallies.toList.map Tally.meals
  longestWait := sim.tallies.toList.map Tally.longestWait
  firstMeal := sim.tallies.toList.map Tally.firstMeal

/-- Lets a scheduler drive the ring for at most `budget` more steps. -/
def run (sim : Simulation) (scheduler : Scheduler) (budget : Nat) : Run :=
  let r := drive budget sim scheduler #[]
  match r.outcome with
  | .error _ => r
  | .ok outcome =>
    { r with journal := r.journal.push (r.simulation.finishedEntry r.scheduler outcome) }

end Simulation

/-- The report of a run, or the error that broke it off. -/
def Run.report (r : Run) : Except SimulationError Report :=
  match r.outcome with
  | .error e => .error e
  | .ok outcome => .ok (r.simulation.report r.scheduler.name outcome)

end DiningRing
