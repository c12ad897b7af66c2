/-
# Arithmetic around the table

Two ways of going round a table.  `next` and `previous` are the plain cyclic steps on seat
numbers.  `wrap` does the same on 64-bit words: it takes any signed index and brings it into
the range of the seats by a remainder that rounds toward zero, an addition, and a second
remainder.  Words above the signed range stand for negative seat counts, and `wrap?` says
which words the division refuses.
-/
import DiningRing.Seat
import DiningRing.Word

namespace DiningRing

/-! ## Cyclic steps -/

/-- The seat after `seat` at a table of `n`; also the edge-numbering's next edge. -/
def Seat.next (n seat : Nat) : Nat := (seat + 1) % n

/-- The seat before `seat` at a table of `n`. -/
def Seat.previous (n seat : Nat) : Nat := (seat + n - 1) % n

/-! ## Remainders on words -/

/-- The sum that `wrap` forms after its first remainder. -/
def wrapSum (index : Int) (seats : Nat) : Int :=
  index.tmod (Word.signed seats) + Word.signed seats

/-- The remainder of a signed index at a table of `seats`, never negative for a positive
count. -/
def wrap (index : Int) (seats : Nat) : Nat :=
  Word.unsigned ((Word.signed (wrapSum index seats)).tmod (Word.signed seats))

/-- `wrap` where the division is defined: not by zero, and not of the least signed word by
minus one, whose quotient is no word. -/
def wrap? (index : Int) (seats : Nat) : Option Nat :=
  if Word.signed seats = 0 ∨ (index = -(Word.half : Int) ∧ Word.signed seats = -1) then none
  else some (wrap index seats)

/-! ## Neighbours of a numbered seat -/

/-- The index one step away from a seat, on signed words. -/
def Seat.offset (seat : Nat) (step : Int) : Int :=
  Word.signed (Word.signed seat + step)

/-- The left neighbour of a seat. -/
def leftNeighbor? (seat seats : Nat) : Option Nat := wrap? (Seat.offset seat (-1)) seats

/-- The right neighbour of a seat. -/
def rightNeighbor? (seat seats : Nat) : Option Nat := wrap? (Seat.offset seat 1) seats

/-- The edge that a seat shares with its left neighbour. -/
def leftEdge? (seat seats : Nat) : Option Nat := wrap? (Seat.offset seat (-1)) seats

/-- The edge that a seat shares with its right neighbour. -/
def rightEdge? (seat seats : Nat) : Option Nat := wrap? (Seat.offset seat 0) seats

end DiningRing
