/-
# Errors

What can go wrong while a ring is configured, built, run live or simulated.  Every error is
a cause with its data; its wording is in one function per type.
-/
import DiningRing.Seat

namespace DiningRing

/-! ## Configuration -/

/-- Why a configuration is refused. -/
inductive ConfigError where
  /-- The text of an environment variable cannot be read. -/
  | invalidVariable (key message : String)
  /-- The values are out of bounds. -/
  | outOfBounds (reason : String)
deriving DecidableEq, Repr

/-- The wording of a configuration error. -/
def ConfigError.message : ConfigError → String
  | .invalidVariable key message => s!"Invalid environment variable '{key}': {message}"
  | .outOfBounds reason => s!"Configuration validation failed: {reason}"

/-! ## Building and running a ring -/

/-- Why a ring cannot be built, or why one of its diners stops. -/
inductive RingError where
  /-- A ring needs at least two seats. -/
  | invalidSeatCount (seats : Nat)
  /-- The plan does not put exactly one fork on an edge. -/
  | unbalancedPlan (edge tokens : Nat)
  /-- The neighbour is gone, so no fork will ever arrive. -/
  | endOfStream (seat : Nat) (side : Side)
  /-- The neighbour is gone, so the fork cannot be returned. -/
  | channelClosed (seat : Nat) (side : Side)
  /-- Forks were to be handed back without holding both. -/
  | releaseWithoutForks (seat : Nat) (hands : Hands)
  /-- A meal was to begin without holding both forks. -/
  | eatWithoutForks (seat : Nat) (hands : Hands)
  /-- There is nothing that could run the diners. -/
  | spawnFailed (reason : String)
  /-- The task of a diner panicked. -/
  | dinerPanicked (seat : Nat) (message : String)
  /-- There is no diner left to wait for. -/
  | noDiners
  /-- The task of a diner was cancelled from outside. -/
  | cancelled
  /-- The configuration is refused. -/
  | config (error : ConfigError)
deriving DecidableEq, Repr

/-- The wording of a ring error. -/
def RingError.message : RingError → String
  | .invalidSeatCount seats =>
    s!"Invalid seat count {seats}: a ring needs at least 2 philosophers"
  | .unbalancedPlan edge tokens =>
    s!"Unbalanced ownership plan: edge {edge} starts with {tokens} forks (expected 1)"
  | .endOfStream seat side =>
    s!"End of stream on {side.text} channel of {Seat.text seat}"
  | .channelClosed seat side =>
    s!"Channel closed while {Seat.text seat} was releasing its {side.text} fork"
  | .releaseWithoutForks seat h =>
    s!"{Seat.text seat} tried to release without both forks (left: {h.left}, right: {h.right})"
  | .eatWithoutForks seat h =>
    s!"{Seat.text seat} tried to eat without both forks (left: {h.left}, right: {h.right})"
  | .spawnFailed reason => s!"Failed to spawn philosophers: {reason}"
  | .dinerPanicked seat message => s!"{Seat.text seat} panicked: {message}"
  | .noDiners => "Ring has no running philosophers"
  | .cancelled => "Philosopher task was cancelled"
  | .config error => error.message

/-! ## Simulation -/

/-- What stops a simulation.  A deadlock does not: it is an outcome. -/
inductive SimulationError where
  /-- The ring could not be built. -/
  | ring (error : RingError)
  /-- Conservation or mutual exclusion broke. -/
  | invariantViolated (step : Nat) (detail : String)
  /-- The schedule picked a seat that cannot move. -/
  | invalidSchedule (step seat : Nat)
deriving DecidableEq, Repr

/-- The wording of a simulation error. -/
def SimulationError.message : SimulationError → String
  | .ring error => error.message
  | .invariantViolated step detail => s!"Invariant violated at step {step}: {detail}"
  | .invalidSchedule step seat =>
    s!"Schedule picked {Seat.text seat} at step {step}, but it cannot move"

end DiningRing
