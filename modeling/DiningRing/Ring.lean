/-
# Rings

A ring is a number of seats together with a plan that fits them.  Edge `e` joins seat `e`,
on its right, with the next seat, on its left; forks travel along an edge in two slots, one
for each direction.
-/
import DiningRing.Plan

namespace DiningRing

/-! ## Slots -/

/-- A slot of the table: one direction of one edge. -/
inductive Slot where
  /-- From seat `edge` to the next seat. -/
  | towardRight (edge : Nat)
  /-- From the next seat to seat `edge`. -/
  | towardLeft (edge : Nat)
deriving DecidableEq, Repr, Inhabited

namespace Slot

/-- The slot from which a seat at a table of `n` receives the fork on a side. -/
def inbound (n seat : Nat) : Side → Slot
  | .left => towardRight (Seat.previous n seat)
  | .right => towardLeft seat

/-- The slot into which a seat at a table of `n` gives the fork on a side. -/
def outbound (n seat : Nat) : Side → Slot
  | .left => towardLeft (Seat.previous n seat)
  | .right => towardRight seat

end Slot

/-! ## Rings -/

/-- A table size with a plan.  `Ring.lay` is the way to make one whose plan fits. -/
structure Ring where
  seats : Nat
  plan : Plan
deriving DecidableEq, Repr, Inhabited

namespace Ring

/-- A ring of `seats` under a plan, if there are enough seats and every edge starts with one
fork. -/
def lay (seats : Nat) (plan : Plan) : Except RingError Ring :=
  if seats < 2 then .error (.invalidSeatCount seats)
  else
    match plan.validate seats with
    | .error e => .error e
    | .ok () => .ok ⟨seats, plan⟩

/-- The starting position of a seat. -/
def assignment (r : Ring) (seat : Nat) : Assignment := r.plan.assign seat r.seats

/-- The acquisition order of a seat. -/
def order (r : Ring) (seat : Nat) : Order := (r.assignment seat).order

/-- The acquisition order of a seat of this ring. -/
def order? (r : Ring) (seat : Nat) : Option Order :=
  if seat < r.seats then some (r.order seat) else none

end Ring

end DiningRing
