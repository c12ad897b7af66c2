/-
# Lanes

Live diners pass their forks along lanes, one for each slot of the table.  A lane has room
for one fork.  Whoever receives waits while it is empty, whoever sends waits while it is
full, and either learns when the other side has left.
-/
import DiningRing.Ring

namespace DiningRing

/-- The number of forks for which a lane has room. -/
def Lane.capacity : Nat := 1

/-- The byte that stands for a fork. -/
def forkByte : Nat := 240

/-! ## A lane -/

/-- One direction of one edge. -/
structure Lane where
  /-- Whether a fork is in flight. -/
  full : Bool
  senderGone : Bool
  receiverGone : Bool
deriving DecidableEq, Repr, Inhabited

/-- What comes of trying to send or to receive. -/
inductive Attempt (α : Type) where
  | done (result : α)
  /-- The other side has left. -/
  | closed
  /-- It has to wait. -/
  | pending
deriving Repr

namespace Lane

/-- A lane with nothing in flight. -/
def empty : Lane := ⟨false, false, false⟩

/-- Tries to receive a fork.  One in flight arrives even if its sender has left since. -/
def receive (l : Lane) : Attempt Lane :=
  if l.full then .done { l with full := false }
  else if l.senderGone then .closed
  else .pending

/-- Tries to send a fork. -/
def send (l : Lane) : Attempt Lane :=
  if l.receiverGone then .closed
  else if l.full then .pending
  else .done { l with full := true }

/-- The lane after its sender has left. -/
def leaveSender (l : Lane) : Lane := { l with senderGone := true }

/-- The lane after its receiver has left.  A fork in flight is lost. -/
def leaveReceiver (l : Lane) : Lane := { l with full := false, receiverGone := true }

end Lane

/-! ## The lanes of a table -/

/-- The lanes of all edges, in both directions. -/
structure Lanes where
  towardRight : Array Lane
  towardLeft : Array Lane
deriving DecidableEq, Repr, Inhabited

namespace Lanes

/-- The empty lanes of a number of edges. -/
def ofEdges (n : Nat) : Lanes := ⟨Array.replicate n .empty, Array.replicate n .empty⟩

/-- The lane of a slot. -/
def get (l : Lanes) : Slot → Lane
  | .towardRight e => l.towardRight.getD e .empty
  | .towardLeft e => l.towardLeft.getD e .empty

/-- The lanes with another one for a slot. -/
def set (l : Lanes) (slot : Slot) (lane : Lane) : Lanes :=
  match slot with
  | .towardRight e => { l with towardRight := l.towardRight.setIfInBounds e lane }
  | .towardLeft e => { l with towardLeft := l.towardLeft.setIfInBounds e lane }

/-- Whether a fork is in flight in a slot. -/
def full (l : Lanes) (slot : Slot) : Bool := (l.get slot).full

end Lanes

/-! ## Endpoints -/

/-- One end of an edge: where forks come from, and where they are sent. -/
structure Endpoint where
  inbound : Slot
  outbound : Slot
deriving DecidableEq, Repr, Inhabited

namespace Endpoint

/-- The two ends of an edge: that of the seat on its left, and that of the seat on its
right. -/
def link (edge : Nat) : Endpoint × Endpoint :=
  (⟨.towardLeft edge, .towardRight edge⟩, ⟨.towardRight edge, .towardLeft edge⟩)

/-- Tries to take a fork. -/
def take (e : Endpoint) (l : Lanes) : Attempt Lanes :=
  match (l.get e.inbound).receive with
  | .done lane => .done (l.set e.inbound lane)
  | .closed => .closed
  | .pending => .pending

/-- Tries to give a fork. -/
def give (e : Endpoint) (l : Lanes) : Attempt Lanes :=
  match (l.get e.outbound).send with
  | .done lane => .done (l.set e.outbound lane)
  | .closed => .closed
  | .pending => .pending

/-- The lanes after an end has been dropped. -/
def leave (e : Endpoint) (l : Lanes) : Lanes :=
  let l := l.set e.inbound (l.get e.inbound).leaveReceiver
  l.set e.outbound (l.get e.outbound).leaveSender

end Endpoint

end DiningRing
