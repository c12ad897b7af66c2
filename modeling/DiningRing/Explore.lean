/-
# Exhaustive search

All states of a ring that any schedule can reach, nearest first.  States already met are
passed over, so the search of a small ring ends by itself; two limits, one on the length of
schedules and one on the number of states, cut off the others.  The first deadlock found is
one with a shortest schedule.
-/
import DiningRing.Model
import Std.Data.HashSet

namespace DiningRing

/-! ## Limits and results -/

/-- The limits of a search. -/
structure SearchLimits where
  maxDepth : Nat
  maxStates : Nat
deriving DecidableEq, Repr

/-- The limits that hold where none are given. -/
instance : Inhabited SearchLimits := ⟨512, 1000000⟩

/-- The result of a search. -/
structure Exploration where
  seats : Nat
  plan : Plan
  /-- The distinct states visited. -/
  states : Nat
  /-- The steps taken between states. -/
  transitions : Nat
  /-- The length of the longest schedule looked at. -/
  depth : Nat
  /-- Whether every reachable state was visited. -/
  complete : Bool
  /-- A shortest schedule after which no seat can move. -/
  deadlock : Option (List Nat)
deriving DecidableEq, Repr, Inhabited

/-- Whether the search has shown that no schedule leads to a deadlock. -/
def Exploration.isDeadlockFree (e : Exploration) : Bool := e.complete && e.deadlock.isNone

/-! ## The search -/

/-- A state to be visited, and the schedule that leads to it, the last seat first. -/
structure Lead where
  state : RingState
  path : List Nat
  /-- The length of the schedule. -/
  depth : Nat
deriving Repr

/-- A search under way.  The states to be visited are those of `front`, and then those of
`back` in the opposite order. -/
structure Search where
  front : List Lead
  back : List Lead
  known : Std.HashSet RingState
  knownCount : Nat
  states : Nat
  transitions : Nat
  depth : Nat
  complete : Bool

namespace Search

/-- The states to be visited, the next one first. -/
def pending (s : Search) : List Lead := s.front ++ s.back.reverse

/-- The search that knows the state at the start of a ring, and nothing else. -/
def start (r : Ring) : Search where
  front := [⟨r.initial, [], 0⟩]
  back := []
  known := (∅ : Std.HashSet RingState).insert r.initial
  knownCount := 1
  states := 0
  transitions := 0
  depth := 0
  complete := true

/-- Takes the next state to be visited off the search. -/
def next? (s : Search) : Option (Lead × Search) :=
  match s.front with
  | lead :: front => some (lead, { s with front := front })
  | [] =>
    match s.back.reverse with
    | lead :: front => some (lead, { s with front := front, back := [] })
    | [] => none

/-- The search after a state has been counted as visited. -/
def visit (s : Search) (lead : Lead) : Search :=
  { s with states := s.states + 1, depth := max s.depth lead.depth }

/-- The search after a step from a visited state to another one. -/
def meet (maxStates : Nat) (s : Search) (lead : Lead) (seat : Nat) (state : RingState) : Search :=
  let s := { s with transitions := s.transitions + 1 }
  if s.known.contains state then s
  else if maxStates ≤ s.knownCount then { s with complete := false }
  else
    { s with
      back := ⟨state, seat :: lead.path, lead.depth + 1⟩ :: s.back
      known := s.known.insert state
      knownCount := s.knownCount + 1 }

/-- The search after the steps of several seats from a visited state. -/
def expand (r : Ring) (maxStates : Nat) (lead : Lead) :
    List Nat → Search → Except SimulationError Search
  | [], s => .ok s
  | seat :: rest, s =>
    match r.apply lead.state seat with
    | .error flaw => .error (.invariantViolated (lead.depth + 1) flaw.text)
    | .ok none => expand r maxStates lead rest (s.meet maxStates lead seat lead.state)
    | .ok (some (_, state)) => expand r maxStates lead rest (s.meet maxStates lead seat state)

/-- What a search has found out. -/
def result (s : Search) (r : Ring) (deadlock : Option (List Nat)) : Exploration where
  seats := r.seats
  plan := r.plan
  states := s.states
  transitions := s.transitions
  depth := s.depth
  complete := s.complete
  deadlock := deadlock

/-- Visits at most `fuel` states. -/
def run (r : Ring) (limits : SearchLimits) : Nat → Search → Except SimulationError Exploration
  | 0, s => .ok (s.result r none)
  | fuel + 1, s =>
    match s.next? with
    | none => .ok (s.result r none)
    | some (lead, s) =>
      let s := s.visit lead
      match r.verify lead.state lead.depth with
      | .error e => .error e
      | .ok () =>
        match r.enabled lead.state with
        | [] => .ok (s.result r (some lead.path.reverse))
        | seat :: seats =>
          if limits.maxDepth ≤ lead.depth then run r limits fuel { s with complete := false }
          else
            match expand r limits.maxStates lead (seat :: seats) s with
            | .error e => .error e
            | .ok s => run r limits fuel s

end Search

/-! ## Exploring a ring -/

/-- Searches every interleaving of a ring.  No more states are ever known than the limit
allows, the first one apart, and each is visited once; so the fuel suffices. -/
def Ring.explore (r : Ring) (limits : SearchLimits) : Except SimulationError Exploration :=
  Search.run r limits (max 1 limits.maxStates) (Search.start r)

/-- Lays a ring and searches every interleaving of it. -/
def explore (seats : Nat) (plan : Plan) (limits : SearchLimits) :
    Except SimulationError Exploration :=
  match Ring.lay seats plan with
  | .error e => .error (.ring e)
  | .ok r => r.explore limits

/-- The entry about the end of a search. -/
def Exploration.entry (e : Exploration) : Journal.Entry :=
  let target := "symposium_testing::explore"
  match e.deadlock with
  | some schedule =>
    { level := .debug, target := target, message := "Found deadlocking schedule",
      fields := [("seats", .number e.seats), ("depth", .number schedule.length)] }
  | none =>
    { level := .debug, target := target, message := "Exploration finished",
      fields := [("seats", .number e.seats), ("states", .number e.states),
        ("complete", .flag e.complete)] }

end DiningRing
