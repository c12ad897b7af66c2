/-
# Commands

The three commands of the program and their settings: `run` seats a live ring, `simulate`
steps a ring under a scheduler, and `explore` searches all interleavings of a small one.
-/
import DiningRing.CommandLine.Options
import DiningRing.Config
import DiningRing.Explore
import DiningRing.Scheduler

namespace DiningRing.CommandLine

/-! ## Settings -/

/-- The settings of `run`.  What is not set is taken from the environment. -/
structure RunSettings where
  seats : Option Nat := none
  eatMillis : Option Nat := none
  thinkMillis : Option Nat := none
  plan : Option Plan := none
  /-- The meals of each diner after which the ring stops. -/
  meals : Option Nat := none
  quiet : Bool := false
deriving DecidableEq, Repr

/-- The settings of `simulate`. -/
structure SimulateSettings where
  seats : Nat := 5
  steps : Nat := 10000
  scheduler : Scheduler.Kind := default
  seed : Nat := 0
  plan : Plan := default
  trace : Bool := false
  json : Bool := false
deriving DecidableEq, Repr

/-- The settings of `explore`. -/
structure ExploreSettings where
  seats : Nat := 3
  plan : Plan := default
  limits : SearchLimits := default
  json : Bool := false
deriving DecidableEq, Repr

/-- A command with its settings. -/
inductive Command where
  | run (s : RunSettings)
  | simulate (s : SimulateSettings)
  | explore (s : ExploreSettings)
deriving DecidableEq, Repr

/-! ## Options -/

/-- An option that takes a number. -/
def numberOption {σ : Type} (name : String) (put : Nat → σ → σ) : Opt σ :=
  ⟨name, .value fun text s =>
    match Numeral.parse text with
    | .ok n => some (put n s)
    | .error _ => none⟩

/-- An option that takes the name of a plan. -/
def planOption {σ : Type} (put : Plan → σ → σ) : Opt σ :=
  ⟨"plan", .value fun text s => (Plan.ofName? text).map fun p => put p s⟩

/-- An option that takes the name of a scheduler. -/
def schedulerOption {σ : Type} (put : Scheduler.Kind → σ → σ) : Opt σ :=
  ⟨"scheduler", .value fun text s =>
    match Scheduler.Kind.ofName text with
    | .ok k => some (put k s)
    | .error _ => none⟩

/-- The option that every command has and that changes nothing in its settings. -/
def jsonLogs {σ : Type} : Opt σ := ⟨"json-logs", .flag id⟩

/-- The options of `run`. -/
def runOptions : List (Opt RunSettings) := [
  jsonLogs,
  numberOption "seats" fun n s => { s with seats := some n },
  numberOption "eat-ms" fun n s => { s with eatMillis := some n },
  numberOption "think-ms" fun n s => { s with thinkMillis := some n },
  planOption fun p s => { s with plan := some p },
  numberOption "meals" fun n s => { s with meals := some n },
  ⟨"quiet", .flag fun s => { s with quiet := true }⟩]

/-- The options of `simulate`. -/
def simulateOptions : List (Opt SimulateSettings) := [
  jsonLogs,
  numberOption "seats" fun n s => { s with seats := n },
  numberOption "steps" fun n s => { s with steps := n },
  schedulerOption fun k s => { s with scheduler := k },
  numberOption "seed" fun n s => { s with seed := n },
  planOption fun p s => { s with plan := p },
  ⟨"trace", .flag fun s => { s with trace := true }⟩,
  ⟨"json", .flag fun s => { s with json := true }⟩]

/-- The options of `explore`. -/
def exploreOptions : List (Opt ExploreSettings) := [
  jsonLogs,
  numberOption "seats" fun n s => { s with seats := n },
  planOption fun p s => { s with plan := p },
  numberOption "depth" fun n s => { s with limits := { s.limits with maxDepth := n } },
  numberOption "max-states" fun n s => { s with limits := { s.limits with maxStates := n } },
  ⟨"json", .flag fun s => { s with json := true }⟩]

/-! ## Reading a command line -/

/-- Reads a command by its name and the arguments after it. -/
def readCommand (name : String) (args : List Argument) : Except Stop Command :=
  match name with
  | "run" => (readOptions runOptions args [] {}).map .run
  | "simulate" => (readOptions simulateOptions args [] {}).map .simulate
  | "explore" => (readOptions exploreOptions args [] {}).map .explore
  | "help" =>
    match args with
    | [] => .error .about
    | [.text topic] =>
      .error (if ["run", "simulate", "explore", "help"].contains topic then .about else .usage)
    | _ => .error .usage
  | _ => .error .usage

/-- Reads a command line: an option or two, and then a command.  `logsSeen` says whether the
option about the form of the log has been given. -/
def read : Bool → List Argument → Except Stop Command
  | _, [] => .error .usage
  | _, .undecodable bytes :: _ => .error (stopAt ['h', 'V'] (.undecodable bytes))
  | logsSeen, .text text :: rest =>
    if text = "--json-logs" then if logsSeen then .error .usage else read true rest
    else if text = "--help" ∨ text = "--version" then .error .about
    else if begins text ['-'] then .error (stopAt ['h', 'V'] (.text text))
    else readCommand text rest

end DiningRing.CommandLine
