/-
# Schedulers

A scheduler decides which of the seats that can move goes next.  It is given the simulation
and those seats, and returns its choice together with its own next state.
-/
import DiningRing.Random.Stream
import DiningRing.Simulation

namespace DiningRing

/-! ## Schedulers -/

/-- A scheduler. -/
inductive Scheduler where
  /-- Goes round the table, from the seat `cursor` on, past the seats that are blocked. -/
  | roundRobin (cursor : Nat)
  /-- Chooses at random from a seeded stream. -/
  | random (stream : Random.Stream)
  /-- Always chooses a seat with the fewest actions. -/
  | lockstep
  /-- Replays a list of seats, and stops at its end. -/
  | scripted (script : List Nat)
deriving DecidableEq, Repr

namespace Scheduler

/-- The name of a scheduler. -/
def name : Scheduler → String
  | roundRobin _ => "round-robin"
  | random _ => "random"
  | lockstep => "lockstep"
  | scripted _ => "scripted"

/-- The first of the seats at or after a cursor, else the first of all. -/
def seatFrom? (cursor : Nat) (enabled : List Nat) : Option Nat :=
  (enabled.find? fun seat => cursor ≤ seat).or enabled.head?

/-- Whether a seat goes before another when the one with fewer actions does, and of two with
the same number the lower one. -/
def goesBefore (sim : Simulation) (a b : Nat) : Bool :=
  sim.actions a < sim.actions b || (sim.actions a == sim.actions b && a < b)

/-- The seat that goes before all others of a list. -/
def slowest? (sim : Simulation) : List Nat → Option Nat
  | [] => none
  | seat :: rest => some (rest.foldl (fun a b => if goesBefore sim b a then b else a) seat)

/-- Chooses one of the seats that can move, or stops. -/
def pick (s : Scheduler) (sim : Simulation) (enabled : List Nat) : Option Nat × Scheduler :=
  match s with
  | roundRobin cursor =>
    match seatFrom? cursor enabled with
    | some seat => (some seat, roundRobin ((seat + 1) % sim.seats))
    | none => (none, roundRobin cursor)
  | random stream =>
    match enabled with
    | [] => (none, random stream)
    | _ :: _ =>
      let (index, stream) := stream.below enabled.length
      (enabled[index]?, random stream)
  | lockstep => (slowest? sim enabled, lockstep)
  | scripted [] => (none, scripted [])
  | scripted (seat :: rest) => (some seat, scripted rest)

/-- Whether a scheduler can choose from a list of seats: lockstep looks up the actions of
each of them. -/
def canRead (s : Scheduler) (sim : Simulation) (enabled : List Nat) : Bool :=
  match s with
  | lockstep => enabled.all fun seat => seat < sim.seats
  | roundRobin _ | random _ | scripted _ => true

/-- The entries of the script that are left. -/
def remaining? : Scheduler → Option Nat
  | scripted script => some script.length
  | roundRobin _ | random _ | lockstep => none

/-! ## Kinds of schedulers -/

/-- The schedulers that can be asked for by name. -/
inductive Kind where
  | roundRobin
  | random
  | lockstep
deriving DecidableEq, Repr

namespace Kind

/-- The kind that holds where none is named. -/
instance : Inhabited Kind := ⟨roundRobin⟩

/-- A scheduler of a kind.  The seed matters only for `random`. -/
def build (k : Kind) (seed : Nat) : Scheduler :=
  match k with
  | roundRobin => .roundRobin 0
  | random => .random (.ofSeed seed)
  | lockstep => .lockstep

/-- The name of a kind. -/
def text : Kind → String
  | roundRobin => "round-robin"
  | random => "random"
  | lockstep => "lockstep"

/-- The kind that a name means, blanks at its ends and the case of its letters apart, or the
wording of the error. -/
def ofName (name : String) : Except String Kind :=
  match Text.lowerCase (Text.trim name) with
  | "round-robin" | "rr" => .ok roundRobin
  | "random" | "seeded" => .ok random
  | "lockstep" => .ok lockstep
  | other => .error s!"unknown scheduler '{other}', expected round-robin, random or lockstep"

end Kind

end Scheduler

end DiningRing
