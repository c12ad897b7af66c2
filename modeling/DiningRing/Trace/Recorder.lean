/-
# Recorders

A recorder counts the meals of every seat and, if it keeps events, remembers them all.  A
meal is recorded in two steps: the counters change, and then the progress is announced to
whoever waits for it.  A waiter that follows the progress of a recorder goes through the
stages of `Waiter`.
-/
import DiningRing.Trace

namespace DiningRing

/-! ## Recorders -/

/-- A recorder.  `progress` is the number of announcements made so far. -/
structure Recorder where
  keepsEvents : Bool
  events : Array Event
  meals : Array Nat
  progress : Nat
deriving DecidableEq, Repr, Inhabited

namespace Recorder

/-- A recorder that keeps every event. -/
def keeping : Recorder := ⟨true, #[], #[], 0⟩

/-- A recorder that counts meals only. -/
def counting : Recorder := ⟨false, #[], #[], 0⟩

/-- The largest number of seats for which counters can be kept in memory: each takes eight
bytes. -/
def mostSeats : Nat := Word.mostEntries 8

/-- Counters that reach at least up to `seat`. -/
def reaching (meals : Array Nat) (seat : Nat) : Array Nat :=
  meals ++ Array.replicate (seat + 1 - meals.size) 0

/-- The events after another one. -/
def kept (r : Recorder) (e : Event) : Array Event :=
  if r.keepsEvents then r.events.push e else r.events

/-- The first step of recording: the event is kept and a meal is counted. -/
def count (r : Recorder) (e : Event) : Recorder :=
  { r with
    events := r.kept e
    meals := if e.isMeal then (reaching r.meals e.seat).modify e.seat (· + 1) else r.meals }

/-- The second step of recording, after a meal: the progress is announced. -/
def announce (r : Recorder) : Recorder := { r with progress := r.progress + 1 }

/-- Both steps of recording. -/
def record (r : Recorder) (e : Event) : Recorder :=
  if e.isMeal then (r.count e).announce else r.count e

/-- The meals of a seat. -/
def mealsOf (r : Recorder) (seat : Nat) : Nat := r.meals.getD seat 0

/-- The meals of each seat below `seats`. -/
def mealsPerSeat (r : Recorder) (seats : Nat) : List Nat := (List.range seats).map r.mealsOf

/-- The meals of all seats together. -/
def totalMeals (r : Recorder) : Nat := r.meals.toList.foldr (· + ·) 0

/-- The seats in the order in which they started to eat, as far as events are kept. -/
def eatingOrder (r : Recorder) : List Nat := Trace.eatingOrder r.events.toList

/-- Whether each seat below `seats` has eaten at least `least` times. -/
def fed (r : Recorder) (seats least : Nat) : Bool :=
  (r.mealsPerSeat seats).all fun m => least ≤ m

end Recorder

/-! ## Waiters -/

/-- The stages of waiting until every seat is fed.  `seen` is the last progress that the
waiter has taken note of. -/
inductive Waiter where
  /-- Has not yet subscribed to the progress. -/
  | arriving
  /-- Is about to look at the counters. -/
  | checking (seen : Nat)
  /-- Sleeps until the progress differs from what it has seen. -/
  | suspended (seen : Nat)
  /-- Has found every seat fed. -/
  | satisfied
deriving DecidableEq, Repr

namespace Waiter

/-- One step of a waiter for `least` meals of each seat below `seats`. -/
def step (seats least : Nat) (r : Recorder) : Waiter → Waiter
  | arriving => checking r.progress
  | checking seen => if r.fed seats least then satisfied else suspended seen
  | suspended seen => if r.progress = seen then suspended seen else checking r.progress
  | satisfied => satisfied

/-- What a waiter does when it is given a turn while nobody records: three steps are enough
to end satisfied or asleep with nothing unseen. -/
def turn (seats least : Nat) (r : Recorder) (w : Waiter) : Waiter :=
  step seats least r (step seats least r (step seats least r w))

end Waiter

end DiningRing
