/-
# Seats, hands and diners

Diners sit around a ring table, and every pair of neighbours shares one fork.  This file
holds the words in which all the rest is said: the two sides of a seat, the order in which
a diner reaches for its forks, the phases of its round, and what it has in its hands.
-/
namespace DiningRing

/-! ## Seats -/

/-- The number of a seat as people count, from one. -/
def Seat.ordinal (seat : Nat) : Nat := seat + 1

/-- How a seat is called in messages. -/
def Seat.text (seat : Nat) : String := s!"philosopher {Seat.ordinal seat}"

/-! ## Sides -/

/-- A side of a seat, and with it the neighbour with whom that side's fork is shared. -/
inductive Side where
  | left
  | right
deriving DecidableEq, Repr, Inhabited, Hashable

namespace Side

/-- The side that faces back across the same fork. -/
def opposite : Side → Side
  | left => right
  | right => left

/-- The name of a side. -/
def text : Side → String
  | left => "left"
  | right => "right"

@[simp] theorem opposite_opposite (s : Side) : s.opposite.opposite = s := by
  cases s <;> rfl

end Side

/-! ## Acquisition order -/

/-- The order in which a diner reaches for the forks that it lacks. -/
inductive Order where
  | leftThenRight
  | rightThenLeft
deriving DecidableEq, Repr, Inhabited, Hashable

namespace Order

/-- The side reached for first. -/
def first : Order → Side
  | leftThenRight => .left
  | rightThenLeft => .right

/-- Both sides, in the order in which they are reached for. -/
def sides (o : Order) : List Side := [o.first, o.first.opposite]

/-- The name of an order in log lines. -/
def logText : Order → String
  | leftThenRight => "LeftThenRight"
  | rightThenLeft => "RightThenLeft"

end Order

/-! ## Phases -/

/-- The phases of a diner's round: idle, waiting for forks, eating, handing forks back, and
idle again. -/
inductive Phase where
  | idle
  | waiting
  | eating
  | releasing
deriving DecidableEq, Repr, Inhabited, Hashable

/-- The name of a phase. -/
def Phase.text : Phase → String
  | .idle => "idle"
  | .waiting => "waiting"
  | .eating => "eating"
  | .releasing => "releasing"

/-! ## Hands -/

/-- The forks in a diner's two hands. -/
structure Hands where
  left : Bool
  right : Bool
deriving DecidableEq, Repr, Inhabited, Hashable

namespace Hands

/-- Two empty hands. -/
def empty : Hands := ⟨false, false⟩

/-- A fork in either hand. -/
def full : Hands := ⟨true, true⟩

/-- Whether the hand on a side has its fork. -/
def holds (h : Hands) : Side → Bool
  | .left => h.left
  | .right => h.right

/-- The hands after the one on `side` has taken its fork or given it away. -/
def set (h : Hands) (side : Side) (held : Bool) : Hands :=
  match side with
  | .left => { h with left := held }
  | .right => { h with right := held }

/-- Whether both hands have their forks. -/
def both (h : Hands) : Bool := h.left && h.right

/-- Whether neither hand has its fork. -/
def neither (h : Hands) : Bool := !h.left && !h.right

/-- The number of forks in the hands. -/
def count (h : Hands) : Nat := h.left.toNat + h.right.toNat

@[simp] theorem holds_set (h : Hands) (s t : Side) (b : Bool) :
    (h.set s b).holds t = if s = t then b else h.holds t := by
  cases s <;> cases t <;> rfl

end Hands

/-! ## Diners -/

/-- What others can see of a diner: its phase and its hands. -/
structure Diner where
  phase : Phase
  hands : Hands
deriving DecidableEq, Repr, Inhabited, Hashable

/-- A diner who has just sat down with empty hands. -/
def Diner.fresh : Diner := ⟨.idle, .empty⟩

end DiningRing
