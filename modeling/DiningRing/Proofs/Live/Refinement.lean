/-
# The live ring refines the step model

A live ring passes its forks along lanes, keeps its place in a round in an agenda, and for a
while has forks neither in its hands nor on a lane.  All the same every interleaving of it is
a path of the step model: a turn transfers at most one fork, and then the seat acts alone
(`Table.AtWork.path_of_step`).  `Session.Follows` carries this from turn to turn: there is a
path to what the table shows, the sink has received what the path announces, and nobody's
work has ended.

The path is that of a simulation which is asked for the same moves
(`live_ring_refines_step_model`).
-/
import DiningRing.Proofs.Live.Interleaving
import DiningRing.Proofs.Live.Seating

namespace DiningRing

namespace Session

variable {r : Ring} {sink : Sink} {s : Session} {h : List Move}

/-- A session has come along a path of the ring, and its sink has received what the path
announces. -/
structure Follows (r : Ring) (sink : Sink) (s : Session) (h : List Move) : Prop where
  atWork : s.table.AtWork r
  path : r.Path r.initial h s.table.view
  observer : s.observer = ⟨sink.recordAll (announced h), none⟩
  ended : s.ended = #[]

/-- **Every moment extends the path.** -/
theorem Follows.happen (hs : s.Follows r sink h) (m : Moment) :
    ∃ k, (s.happen m).Follows r sink (h ++ k) := by
  cases m with
  | time clock =>
    refine ⟨[], hs.atWork.withClock clock, ?_, ?_, hs.ended⟩
    · rw [List.append_nil]
      exact hs.path
    · rw [List.append_nil]
      exact hs.observer
  | turn i =>
    cases hstep : s.table.step i with
    | none =>
      refine ⟨[], ?_⟩
      rw [happen_turn_of_none hstep, List.append_nil]
      exact hs
    | some turn =>
      obtain ⟨hending, hatWork, k, hpath, hheard⟩ := hs.atWork.path_of_step hstep
      obtain ⟨journal, habsorb⟩ := exists_absorb (by rw [hs.observer]) hending
      refine ⟨k, ?_⟩
      rw [happen_turn_of_some hstep, habsorb]
      refine ⟨hatWork, hs.path.append hpath, ?_, hs.ended⟩
      rw [hs.observer, hheard, ← Sink.recordAll_append, announced_append]

/-- **Every interleaving is a path.** -/
theorem Follows.follow (hs : s.Follows r sink h) (moments : List Moment) :
    ∃ k, (s.follow moments).Follows r sink (h ++ k) := by
  induction moments generalizing s h with
  | nil => exact ⟨[], by rw [List.append_nil]; exact hs⟩
  | cons m moments ih =>
    obtain ⟨k, hk⟩ := hs.happen m
    obtain ⟨l, hl⟩ := ih hk
    exact ⟨k ++ l, by rw [← List.append_assoc]; exact hl⟩

end Session

namespace Ring

variable {n : ℕ} {plan : Plan} {h : List Move} {t : RingState}

/-- A path from the start is the history of a simulation that is asked for its moves. -/
lemma Path.exists_play (hn : 2 ≤ n) (sink : Sink)
    (hp : Ring.Path ⟨n, plan⟩ (Ring.initial ⟨n, plan⟩) h t) :
    ∃ schedule, let start := Simulation.begin ⟨n, plan⟩ sink
      start.accepts schedule = true ∧ start.history schedule = h ∧
        (start.play schedule).state = t ∧
        (start.play schedule).sink = sink.recordAll (announced h) := by
  have hsound := Ring.sound_initial (r := ⟨n, plan⟩) hn
  have hpath : (Simulation.begin ⟨n, plan⟩ sink).ring.Path
      (Simulation.begin ⟨n, plan⟩ sink).state h t := hp
  obtain ⟨haccepts, hhistory, hstate⟩ := hpath.accepts hsound
  have hsink := (Simulation.course_begin hn plan sink (h.map Move.seat)).sink_eq
  rw [hhistory] at hsink
  exact ⟨_, haccepts, hhistory, hstate, hsink⟩

end Ring

/-- **The live ring refines the step model.**  Whatever the pacing, and in whatever order the
diners of a live ring get their turns, there is a schedule of a simulation of the same ring
all of whose steps are accepted, and which agrees with the live ring at that moment: both
sinks have received the same events, each seat is in the same phase, it holds the forks that
it has in its hands or has lifted to hand them back, and the same slots are full.  So the
trace of each seat is a beginning of waiting, eating and finished, repeated. -/
theorem live_ring_refines_step_model {n : ℕ} (hn : 2 ≤ n) (plan : Plan) (pacing : Pacing)
    (sink : Sink) :
    let start := Simulation.begin ⟨n, plan⟩ sink
    Simulation.create n plan sink = .ok start ∧ Ring.lay n plan = .ok ⟨n, plan⟩ ∧
    ∃ table, Ring.seat ⟨n, plan⟩ pacing = .ok table ∧
      ∀ moments : List Session.Moment,
        let live := (Session.begin (table.runBelow n) ⟨sink, none⟩).follow moments
        ∃ schedule : List ℕ,
          let sim := start.play schedule
          let events := announced (start.history schedule)
          start.accepts schedule = true ∧
          sim.sink = sink.recordAll events ∧ live.observer.sink = sink.recordAll events ∧
          (∀ i < n, ∃ p, live.table.philosopher? i = some p ∧
            (sim.state.diner i).phase = p.diner.phase ∧
            ∀ side, (sim.state.diner i).hands.holds side
              = (p.hands.holds side || p.lifted.holds side)) ∧
          (∀ slot, sim.state.slot slot = live.table.lanes.full slot) ∧
          ∀ i < n, ∃ m, Trace.ofSeat i events <+: Trace.rounds m := by
  intro start
  obtain ⟨table, hseat, hatWork, hview⟩ := Ring.exists_seat ⟨n, plan⟩ pacing
  refine ⟨Simulation.create_eq_ok hn plan sink, Ring.lay_eq_ok hn plan, table, hseat,
    fun moments => ?_⟩
  have hbegin : (Session.begin (table.runBelow n) ⟨sink, none⟩).Follows ⟨n, plan⟩ sink [] :=
    ⟨hatWork, hview ▸ .nil _, rfl, rfl⟩
  obtain ⟨h, hlive⟩ := hbegin.follow moments
  rw [List.nil_append] at hlive
  obtain ⟨schedule, haccepts, hhistory, hstate, hsink⟩ := hlive.path.exists_play hn sink
  intro live
  refine ⟨schedule, haccepts, ?_, ?_, fun i hi => ?_, fun slot => ?_, fun i hi => ?_⟩
  · rw [hhistory, hsink]
  · rw [hhistory, hlive.observer]
  · obtain ⟨p, -, hp, -⟩ := hlive.atWork.working i hi
    have hshown := Table.diner_view hp
    refine ⟨p, hp, ?_, fun side => ?_⟩
    · rw [hstate, hshown]
      rfl
    · rw [hstate, hshown]
      exact Hands.holds_join _ _ side
  · rw [hstate, Table.slot_view]
  · rw [hhistory]
    have hcourse : (Ring.initial ⟨n, plan⟩).Course n h live.table.view := hlive.path.course
    exact hcourse.ofSeat_prefix_rounds hi

/-- At a table of two the first seat has eaten for three ticks and has handed back its left
fork.  Its right fork is still lifted, and the simulation has it in the hand. -/
theorem live_ring_refines_step_model_at_two :
    2 ≤ 2 ∧
    let start := Simulation.begin ⟨2, .reversedLast⟩ (.recorder .keeping)
    ∃ table, Ring.seat ⟨2, .reversedLast⟩ ⟨0, 3⟩ = .ok table ∧
      let live := (Session.begin (table.runBelow 2) ⟨.recorder .keeping, none⟩).follow
        [.turn 1, .turn 0, .turn 0, .time 3, .turn 0, .turn 0]
      live.observer.sink.recorders.map Recorder.events
          = [#[⟨1, .waiting⟩, ⟨0, .waiting⟩, ⟨0, .eating⟩, ⟨0, .finished⟩]] ∧
        (live.table.philosopher? 0).map Philosopher.hands = some .empty ∧
        ∃ schedule, start.accepts schedule = true ∧
          (start.play schedule).sink = live.observer.sink ∧
          ((start.play schedule).state.diner 0).hands.holds .right = true := by
  obtain ⟨-, -, table, hseat, h⟩ := live_ring_refines_step_model (n := 2) (by decide)
    .reversedLast ⟨0, 3⟩ (.recorder .keeping)
  obtain rfl : Ring.laid ⟨2, .reversedLast⟩ ⟨0, 3⟩ (.ofEdges 2) = table := by
    injection hseat
  obtain ⟨schedule, haccepts, hsim, hlive, hseats, -, -⟩ :=
    h [.turn 1, .turn 0, .turn 0, .time 3, .turn 0, .turn 0]
  obtain ⟨p, hp, -, hholds⟩ := hseats 0 (by decide)
  have hright : (((Session.begin ((Ring.laid ⟨2, .reversedLast⟩ ⟨0, 3⟩ (.ofEdges 2)).runBelow 2)
      ⟨.recorder .keeping, none⟩).follow [.turn 1, .turn 0, .turn 0, .time 3, .turn 0,
        .turn 0]).table.philosopher? 0).map (fun p => p.hands.holds .right || p.lifted.holds .right)
      = some true := by decide +kernel
  rw [hp, Option.map_some, Option.some.injEq] at hright
  exact ⟨by decide, _, hseat, by decide +kernel, by decide +kernel, schedule, haccepts,
    hsim.trans hlive.symm, (hholds .right).trans hright⟩

end DiningRing
