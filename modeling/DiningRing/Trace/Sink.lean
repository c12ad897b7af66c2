/-
# Sinks

A sink receives trace events and passes nothing back.  Sinks form trees: a fan-out forwards
each event to all of its members, in order, and the leaves record it, write it to the
journal or drop it.
-/
import DiningRing.Trace.Recorder

namespace DiningRing

/-- A tree of sinks. -/
inductive Sink where
  /-- Keeps or counts events. -/
  | recorder (r : Recorder)
  /-- Drops everything. -/
  | null
  /-- Writes every event to the journal. -/
  | tracing
  /-- Forwards every event to several sinks. -/
  | fanout (members : List Sink)
deriving Inhabited

namespace Sink

mutual

/-- The sink after an event. -/
def record (e : Event) : Sink → Sink
  | recorder r => recorder (r.record e)
  | null => null
  | tracing => tracing
  | fanout members => fanout (recordEach e members)

/-- The members of a fan-out after an event. -/
def recordEach (e : Event) : List Sink → List Sink
  | [] => []
  | s :: rest => record e s :: recordEach e rest

end

mutual

/-- The recorders of a tree, in order. -/
def recorders : Sink → List Recorder
  | recorder r => [r]
  | null => []
  | tracing => []
  | fanout members => recordersEach members

/-- The recorders of several trees, in order. -/
def recordersEach : List Sink → List Recorder
  | [] => []
  | s :: rest => recorders s ++ recordersEach rest

end

mutual

/-- The number of leaves that write to the journal. -/
def tracers : Sink → Nat
  | recorder _ => 0
  | null => 0
  | tracing => 1
  | fanout members => tracersEach members

/-- The number of such leaves in several trees. -/
def tracersEach : List Sink → Nat
  | [] => 0
  | s :: rest => tracers s + tracersEach rest

end

mutual

/-- The sink after a meal that its first recorder cannot count, with which recording ends:
that recorder has kept the event, and those after it know nothing of it.  There is none if
the sink has no recorder. -/
def breakOff (e : Event) : Sink → Option Sink
  | recorder r => some (recorder { r with events := r.kept e })
  | null => none
  | tracing => none
  | fanout members => (breakOffEach e members).map fanout

/-- The members of a fan-out after such a meal. -/
def breakOffEach (e : Event) : List Sink → Option (List Sink)
  | [] => none
  | s :: rest =>
    match breakOff e s with
    | some s => some (s :: rest)
    | none => (breakOffEach e rest).map fun rest => s :: rest

end

/-- The sink after an event, or `error` with what is left of it if a recorder has no room to
count the event. -/
def tryRecord (e : Event) (s : Sink) : Except Sink Sink :=
  match if e.isMeal ∧ Recorder.mostSeats ≤ e.seat then breakOff e s else none with
  | some broken => .error broken
  | none => .ok (s.record e)

/-- The sink after several events. -/
def recordAll (s : Sink) (events : List Event) : Sink := events.foldl (fun s e => s.record e) s

/-- What a sink writes to the journal about an event. -/
def journal (s : Sink) (e : Event) : Journal := Array.replicate s.tracers e.entry

end Sink

end DiningRing
