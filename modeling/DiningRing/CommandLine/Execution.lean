/-
# Executing commands

What a command prints, what it writes to the journal, and with which code it ends.
-/
import DiningRing.CommandLine.Command
import DiningRing.Encoding
import DiningRing.Live.Supervisor
import DiningRing.Simulation.Run

namespace DiningRing.CommandLine

/-! ## Failures -/

/-- Why a command fails. -/
inductive Failure where
  | config (e : ConfigError)
  | ring (e : RingError)
  | simulation (e : SimulationError)
  /-- A simulated ring came to a deadlock. -/
  | deadlocked (step : Nat)
  /-- A search found a deadlock. -/
  | deadlockFound (length : Nat)
  /-- The table is too large for the memory, and the program breaks off. -/
  | tableTooLarge
deriving DecidableEq, Repr

/-- The wording of a failure. -/
def Failure.message : Failure → String
  | .config e => s!"Configuration error: {e.message}"
  | .ring e => e.message
  | .simulation e => e.message
  | .deadlocked step => s!"Simulated ring deadlocked after {step} steps"
  | .deadlockFound length => s!"Found a deadlocking schedule of {length} steps"
  | .tableTooLarge => "capacity overflow"

/-- What is left of a command when it is over. -/
structure Execution where
  output : String
  journal : Journal
  failure : Option Failure

namespace Execution

/-- A command that fails before it has printed anything. -/
def failed (f : Failure) : Execution := ⟨"", #[], some f⟩

/-- A command that breaks off over the size of its table. -/
def brokenOff : Execution := .failed .tableTooLarge

/-- The code with which the program ends. -/
def exitCode (e : Execution) : Nat :=
  match e.failure with
  | none => 0
  | some .tableTooLarge => 101
  | some _ => 1

/-- The journal, with the failure at its end unless the program has broken off. -/
def fullJournal (e : Execution) : Journal :=
  match e.failure with
  | none | some .tableTooLarge => e.journal
  | some f => e.journal.push ⟨.error, "symposium", "Command failed", [("error", .text f.message)]⟩

end Execution

/-! ## Simulating -/

/-- The entry about a simulation that starts. -/
def startingEntry (s : SimulateSettings) : Journal.Entry where
  level := .info
  target := "symposium::sim"
  message := "Starting simulation"
  fields := [("seats", .number s.seats), ("plan", .text s.plan.text),
    ("scheduler", .text s.scheduler.text), ("seed", .number s.seed)]

/-- Simulates a ring and prints the report. -/
def simulate (s : SimulateSettings) : Execution :=
  match Simulation.create s.seats s.plan (if s.trace then .tracing else .null) with
  | .error e => .failed (.simulation e)
  | .ok sim =>
    let run := sim.run (s.scheduler.build s.seed) s.steps
    let journal := #[startingEntry s] ++ run.journal
    match run.report with
    | .error e => ⟨"", journal, some (.simulation e)⟩
    | .ok report =>
      let output := if s.json then report.jsonText ++ "\n" else report.text?.getD ""
      let failure := match report.outcome with
        | .deadlocked step => some (.deadlocked step)
        | .completed | .scheduleExhausted _ => none
      ⟨output, journal, failure⟩

/-! ## Exploring -/

/-- The text about an exploration. -/
def explorationText (e : Exploration) : String :=
  s!"{e.seats} seats, plan {e.plan.text}: {e.states} states, {e.transitions} transitions, "
    ++ s!"depth {e.depth}" ++ (if e.complete then "" else " (incomplete)") ++ "\n"
    ++ (match e.deadlock with
      | some schedule =>
        "Deadlocking schedule: "
          ++ " ".intercalate (schedule.map fun seat => Nat.repr (Seat.ordinal seat)) ++ "\n"
      | none => if e.complete then "No reachable deadlock\n" else "No deadlock within limits\n")

/-- Explores a ring and prints the result. -/
def runExplore (s : ExploreSettings) : Execution :=
  match DiningRing.explore s.seats s.plan s.limits with
  | .error e => .failed (.simulation e)
  | .ok e =>
    let output := if s.json then e.toJson.pretty ++ "\n" else explorationText e
    ⟨output, #[e.entry], e.deadlock.map fun schedule => .deadlockFound schedule.length⟩

/-! ## Running live -/

namespace RunSettings

/-- What is set by hand. -/
def settings (s : RunSettings) : List Config.Setting :=
  (s.seats.map Config.Setting.seats).toList
    ++ (s.eatMillis.map fun n => Config.Setting.eatTime (.ofMillis n)).toList
    ++ (s.thinkMillis.map fun n => Config.Setting.thinkTime (.ofMillis n)).toList
    ++ (s.plan.map Config.Setting.plan).toList

/-- The sink of a live ring: a counter of meals, and the journal unless it is to be quiet. -/
def sink (s : RunSettings) : Sink :=
  if s.quiet then .recorder .counting else .fanout [.tracing, .recorder .counting]

end RunSettings

/-- The ticks within which everybody has eaten so many times if nothing is in the way. -/
def ticksFor (c : Config) (meals : Nat) : Nat :=
  (meals + 2) * (c.thinkTime.ticks + (c.seats + 1) * (c.eatTime.ticks + 1))

/-- The line about the meals of a seat. -/
def mealsLine (seat meals : Nat) : String :=
  "Philosopher " ++ Numeral.padded 4 (Seat.ordinal seat) ++ s!": {meals} meals\n"

/-- The execution of a live ring that has reached its meals. -/
def stoppedRing (r : Running) : Execution :=
  let recorder := r.session.observer.sink.recorders.headD .counting
  let entry : Journal.Entry := ⟨.info, "symposium::live", "Ring stopped",
    [("reason", .text "meal target reached"), ("total_meals", .number recorder.totalMeals)]⟩
  let lines := (List.range r.seats).map fun seat => mealsLine seat (recorder.mealsOf seat)
  ⟨String.join lines, r.session.journal.push entry, none⟩

/-- Runs a live ring until everybody has eaten as often as was asked for.  There is no
execution if that never comes. -/
def runLive (env : Environment) (s : RunSettings) : Option Execution :=
  match Config.configure env s.settings with
  | .error e => some (.failed (.config e))
  | .ok config =>
    match Supervisor.spawn ⟨config, ⟨s.sink, none⟩⟩ true with
    | .error e => some (.failed (.ring e))
    | .ok running =>
      match s.meals with
      | none => none
      | some meals =>
        match running.waitForMeals running.seats meals (ticksFor config meals) with
        | (true, running) => some (stoppedRing running)
        | (false, _) => none

/-! ## All commands -/

/-- Executes a command. -/
def execute (env : Environment) : Command → Option Execution
  | .run s => runLive env s
  | .simulate s => some (if Plan.mostSeats < s.seats then .brokenOff else simulate s)
  | .explore s => some (if Plan.mostSeats < s.seats then .brokenOff else runExplore s)

end DiningRing.CommandLine
