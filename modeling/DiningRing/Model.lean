/-
# The step model of a ring

Every diner advances one action at a time, and every slot holds at most one fork.
`Ring.nextAction` says what a seat would do next, `Ring.apply` lets it do that, and
`Ring.check` tests that no fork was lost or doubled and that no two neighbours eat together.
-/
import DiningRing.Ring
import DiningRing.Trace

namespace DiningRing

/-! ## States -/

/-- Everything that changes while a ring runs: the diners, and for every edge whether a fork
is in flight in either direction. -/
structure RingState where
  diners : Array Diner
  towardRight : Array Bool
  towardLeft : Array Bool
deriving DecidableEq, Repr, Inhabited, Hashable

namespace RingState

/-- The diner at a seat. -/
def diner (s : RingState) (seat : Nat) : Diner := s.diners.getD seat .fresh

/-- The state with another diner at a seat. -/
def setDiner (s : RingState) (seat : Nat) (d : Diner) : RingState :=
  { s with diners := s.diners.setIfInBounds seat d }

/-- Whether a fork is in flight in a slot. -/
def slot (s : RingState) : Slot → Bool
  | .towardRight e => s.towardRight.getD e false
  | .towardLeft e => s.towardLeft.getD e false

/-- The state with a slot filled or emptied. -/
def setSlot (s : RingState) (slot : Slot) (full : Bool) : RingState :=
  match slot with
  | .towardRight e => { s with towardRight := s.towardRight.setIfInBounds e full }
  | .towardLeft e => { s with towardLeft := s.towardLeft.setIfInBounds e full }

/-- Whether the state has a slot. -/
def hasSlot (s : RingState) : Slot → Bool
  | .towardRight e => e < s.towardRight.size
  | .towardLeft e => e < s.towardLeft.size

/-- The number of forks in flight. -/
def inFlight (s : RingState) : Nat :=
  s.towardLeft.foldl (fun n full => n + full.toNat)
    (s.towardRight.foldl (fun n full => n + full.toNat) 0)

/-- The number of forks in hand. -/
def inHand (s : RingState) : Nat :=
  s.diners.foldl (fun n d => n + d.hands.count) 0

end RingState

/-! ## Actions -/

/-- One indivisible step of a diner. -/
inductive Action where
  /-- From idle to waiting. -/
  | startWaiting
  /-- Reads the fork on a side from its slot. -/
  | take (side : Side)
  /-- From waiting to eating, both forks in hand. -/
  | eat
  /-- From eating to handing back. -/
  | finish
  /-- Writes the fork on a side to its slot. -/
  | give (side : Side)
deriving DecidableEq, Repr

/-- The transition that an action announces. -/
def Action.transition? : Action → Option Transition
  | .startWaiting => some .waiting
  | .eat => some .eating
  | .finish => some .finished
  | .take _ => none
  | .give _ => none

/-! ## Flaws -/

/-- What can be wrong with a state. -/
inductive Flaw where
  /-- An edge carries another number of forks than one. -/
  | forks (edge tokens : Nat)
  /-- Two neighbours eat at the same time. -/
  | sideBySide (seat next : Nat)
  /-- A seat eats without holding both forks. -/
  | eatsEmptyHanded (seat : Nat)
  /-- The table carries another number of forks than it has seats. -/
  | total (count seats : Nat)
  /-- A seat stopped eating without holding both forks. -/
  | releasesEmptyHanded (seat : Nat) (hands : Hands)
  /-- The state has fewer seats than the ring that looks at it. -/
  | outOfRange
deriving DecidableEq, Repr

/-- The wording of a flaw. -/
def Flaw.text : Flaw → String
  | .forks edge tokens => s!"edge {edge} carries {tokens} forks"
  | .sideBySide seat next => s!"seats {seat} and {next} eat side by side"
  | .eatsEmptyHanded seat => s!"seat {seat} eats without both forks"
  | .total count seats => s!"{count} forks on a table of {seats}"
  | .releasesEmptyHanded seat h =>
    s!"seat {seat} entered releasing holding left={h.left} right={h.right}"
  | .outOfRange => "index out of range"

namespace Ring

/-! ## The initial state -/

/-- Whether the plan starts with a fork in a slot. -/
def startsFull (r : Ring) : Slot → Bool
  | .towardRight e => (r.assignment (Seat.next r.seats e)).left == .incoming
  | .towardLeft e => (r.assignment e).right == .incoming

/-- The state at the moment when everybody is seated. -/
def initial (r : Ring) : RingState where
  diners := Array.ofFn fun i : Fin r.seats => ⟨.idle, (r.assignment i).hands⟩
  towardRight := Array.ofFn fun e : Fin r.seats => r.startsFull (.towardRight e)
  towardLeft := Array.ofFn fun e : Fin r.seats => r.startsFull (.towardLeft e)

/-! ## Steps -/

/-- The side whose fork a waiting diner reaches for next. -/
def missing? (o : Order) (h : Hands) : Option Side := o.sides.find? fun side => !h.holds side

/-- The side whose fork a diner hands back next: the left one first. -/
def returning? (h : Hands) : Option Side := [Side.left, Side.right].find? h.holds

/-- The action that a seat would perform next, if it is not blocked. -/
def nextAction (r : Ring) (s : RingState) (seat : Nat) : Option Action :=
  let d := s.diner seat
  match d.phase with
  | .idle => some .startWaiting
  | .waiting =>
    match missing? (r.order seat) d.hands with
    | some side => if s.slot (Slot.inbound r.seats seat side) then some (.take side) else none
    | none => some .eat
  | .eating => some .finish
  | .releasing =>
    match returning? d.hands with
    | some side => if s.slot (Slot.outbound r.seats seat side) then none else some (.give side)
    | none => none

/-- Whether every seat and slot at which `nextAction` looks is there. -/
def reaches (r : Ring) (s : RingState) (seat : Nat) : Bool :=
  let d := s.diner seat
  seat < s.diners.size &&
    match d.phase with
    | .idle | .eating => true
    | .waiting =>
      seat < r.seats &&
        match missing? (r.order seat) d.hands with
        | some side => s.hasSlot (Slot.inbound r.seats seat side)
        | none => true
    | .releasing =>
      match returning? d.hands with
      | some side => s.hasSlot (Slot.outbound r.seats seat side)
      | none => true

/-- The seats that can move, in ascending order. -/
def enabled (r : Ring) (s : RingState) : List Nat :=
  (List.range r.seats).filter fun seat => (r.nextAction s seat).isSome

/-- The state after an action of a seat. -/
def perform (r : Ring) (s : RingState) (seat : Nat) (a : Action) : RingState :=
  let d := s.diner seat
  match a with
  | .startWaiting => s.setDiner seat { d with phase := .waiting }
  | .take side =>
    (s.setSlot (Slot.inbound r.seats seat side) false).setDiner seat
      { d with hands := d.hands.set side true }
  | .eat => s.setDiner seat { d with phase := .eating }
  | .finish => s.setDiner seat { d with phase := .releasing }
  | .give side =>
    let hands := d.hands.set side false
    (s.setSlot (Slot.outbound r.seats seat side) true).setDiner seat
      ⟨if hands.neither then .idle else d.phase, hands⟩

/-- Advances a seat by one action, or not at all if it is blocked. -/
def apply (r : Ring) (s : RingState) (seat : Nat) :
    Except Flaw (Option (Action × RingState)) :=
  match r.nextAction s seat with
  | none => .ok none
  | some a =>
    if a = .finish ∧ (s.diner seat).hands.both = false then
      .error (.releasesEmptyHanded seat (s.diner seat).hands)
    else .ok (some (a, r.perform s seat a))

/-! ## Conservation and mutual exclusion -/

/-- The forks that an edge carries: in the two hands beside it and in its two slots. -/
def forksOn (r : Ring) (s : RingState) (edge : Nat) : Nat :=
  (s.diner edge).hands.right.toNat + (s.diner (Seat.next r.seats edge)).hands.left.toNat
    + (s.slot (.towardRight edge)).toNat + (s.slot (.towardLeft edge)).toNat

/-- Whether a state has the seats and slots around an edge. -/
def covers (r : Ring) (s : RingState) (edge : Nat) : Bool :=
  edge < s.diners.size && Seat.next r.seats edge < s.diners.size
    && s.hasSlot (.towardRight edge) && s.hasSlot (.towardLeft edge)

/-- The flaw at an edge. -/
def flawAt? (r : Ring) (s : RingState) (edge : Nat) : Option Flaw :=
  let next := Seat.next r.seats edge
  if !r.covers s edge then some .outOfRange
  else if r.forksOn s edge != 1 then some (.forks edge (r.forksOn s edge))
  else if (s.diner edge).phase = .eating ∧ (s.diner next).phase = .eating then
    some (.sideBySide edge next)
  else none

/-- Whether a diner eats without holding both forks. -/
def eatsEmptyHanded (d : Diner) : Bool := d.phase == .eating && !d.hands.both

/-- The first flaw of a state: along the edges, then along the seats, then in the sum. -/
def flaw? (r : Ring) (s : RingState) : Option Flaw :=
  match (List.range r.seats).findSome? (r.flawAt? s) with
  | some f => some f
  | none =>
    match s.diners.findIdx? eatsEmptyHanded with
    | some seat => some (.eatsEmptyHanded seat)
    | none =>
      let total := s.inHand + s.inFlight
      if total = r.seats then none else some (.total total r.seats)

/-- Conservation of forks and mutual exclusion of neighbours. -/
def check (r : Ring) (s : RingState) : Except Flaw Unit :=
  match r.flaw? s with
  | some f => .error f
  | none => .ok ()

/-- `check`, with the step at which it was made. -/
def verify (r : Ring) (s : RingState) (step : Nat) : Except SimulationError Unit :=
  match r.check s with
  | .error f => .error (.invariantViolated step f.text)
  | .ok () => .ok ()

end Ring

end DiningRing
