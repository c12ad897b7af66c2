/-
# Healthy rings

While nobody leaves and the sink has no fault, no diner's work ever ends: whoever waits for a
fork waits at a lane that its sender has not left, whoever hands back a fork finds room for
it, and whoever eats or hands back has both its forks.  Under `reversedLast` the meals go
round the table, whatever the order of turns and however late they are heard of; under
`uniform` nobody ever eats.
-/
import DiningRing.Live.Supervisor
import DiningRing.Proofs.Deadlock
import DiningRing.Proofs.Live.Parallel
import DiningRing.Proofs.Live.Refinement
import DiningRing.Proofs.Recorders
import DiningRing.Proofs.TableOrder

namespace DiningRing

/-! ### Room for forks -/

lemma Philosopher.Rests.holds_of_give {p : Philosopher} {lifted : Hands} {side : Side}
    {agenda rest : List Instr} (h : p.Rests lifted agenda) (hagenda : agenda = .give side :: rest) :
    lifted.holds side = true := by
  cases h with
  | thinking | reachingFirst | reachingSecond | eating => cases hagenda
  | givingLeft | givingRight =>
    cases hagenda
    rfl

namespace Parallel

variable {r : Ring} {sink : Sink} {c : Parallel} {h : List Move} {s : RingState} {i : ℕ}
  {p : Philosopher} {call : Call} {side : Side} {rest : List Instr}

/-- **Nobody waits for room.**  A fork that is about to be handed back is in one place, and so
not on the lane for which it is meant. -/
theorem Follows.give_eq_done (hn : 2 ≤ r.seats) (hc : c.Follows r sink h s)
    (hp : c.table.philosopher? i = some p) (hcall : p.call = some call)
    (hagenda : call.agenda = .give side :: rest) :
    ∃ lanes, (p.wiring.endpoint side).give c.table.lanes = .done lanes := by
  have hi := hc.atWork.lt hp
  obtain ⟨q, call', hq, hwork⟩ := hc.atWork.working i hi
  obtain rfl : p = q := Option.some.inj (hp.symm.trans hq)
  obtain rfl : call = call' := Option.some.inj (hcall.symm.trans hwork.called)
  have hlifted : call.lifted.holds side = true := by
    rcases hwork.place with hrests | ⟨-, -, hgreet⟩
    · exact hrests.holds_of_give hagenda
    · rw [hgreet] at hagenda
      cases hagenda
  have hhand : s.hand i side = true := by
    have hhands := (hc.lags i hi).hands_eq
    rw [Table.AtWork.diner_view hp hwork] at hhands
    rw [RingState.hand, ← hhands]
    show (p.hands.join call.lifted).holds side = true
    rw [Hands.holds_join, hlifted, Bool.or_true]
  have hsound := hc.path.course.sound (Ring.sound_initial hn)
  have hroom : c.table.lanes.full (Slot.outbound r.seats i side) = false := by
    rw [← Table.slot_view, ← hc.slot]
    exact hsound.outbound_of_hand hi hhand
  rw [hwork.wiring, Wiring.endpoint_ofSeat, Endpoint.give_of_open hc.atWork.lanes]
  exact ⟨_, if_neg (by simp [hroom])⟩

end Parallel

/-! ### Who eats -/

/-- Under `uniform` nobody eats. -/
lemma RingState.Course.eaters_uniform {n : ℕ} {t : RingState} {h : List Move}
    (hc : (Ring.initial ⟨n, .uniform⟩).Course n h t) : eaters h = [] := by
  obtain ⟨-, hnoeat, -⟩ := hc.starved (Ring.starved_initial n)
  rw [eaters, List.map_eq_nil_iff, List.filter_eq_nil_iff]
  exact fun m hm => by simp [hnoeat m hm]

/-! ### Supervised rings -/

namespace Supervisor

/-- The ring of a configuration. -/
def ring (c : Config) : Ring := ⟨c.seats, c.plan⟩

/-- A ring that is spawned is laid, and everybody is set to work. -/
theorem exists_laid_session (c : Config) (hn : 2 ≤ c.seats) (o : Observer) : ∃ running lanes,
    (Supervisor.mk c o).spawn true = .ok running ∧
      (ring c).Preloaded c.seats lanes ∧
      running.session.table = ((ring c).laid (pacing c) lanes).runBelow c.seats ∧
      running.session.observer = o ∧ running.session.ended = #[] := by
  obtain ⟨lanes, hseat, hlanes⟩ := (ring c).exists_laid (pacing c)
  have hseat' : Ring.seat ⟨c.seats, c.plan⟩ (pacing c) = .ok ((ring c).laid (pacing c) lanes) :=
    hseat
  simp only [spawn, Ring.lay_eq_ok hn, hseat']
  exact ⟨_, lanes, rfl, hlanes, rfl, rfl, rfl⟩

/-- **Every ring of at least two seats can be spawned.** -/
theorem exists_spawn (c : Config) (hn : 2 ≤ c.seats) (sink : Sink) :
    ∃ running, (Supervisor.mk c ⟨sink, none⟩).spawn true = .ok running ∧
      running.session.Follows (ring c) sink [] ∧
      (Parallel.begin running.session).Follows (ring c) sink [] (ring c).initial := by
  obtain ⟨running, lanes, hspawn, hlanes, htable, hobserver, hended⟩ :=
    exists_laid_session c hn ⟨sink, none⟩
  have hatWork : running.session.table.AtWork (ring c) := htable ▸ Ring.atWork_runBelow hlanes
  have hview : running.session.table.view = (ring c).initial := htable ▸ Ring.view_runBelow hlanes
  refine ⟨running, hspawn, ⟨hatWork, hview ▸ .nil _, hobserver, hended⟩, hatWork, .nil _, ?_,
    fun slot => ?_, fun i _ => ?_, fun _ _ => rfl, rfl⟩
  · rw [Parallel.begin, hobserver]
    rfl
  · rw [Parallel.begin, hview]
  · rw [Parallel.begin, hview]
    exact .refl i _

end Supervisor

/-- Nobody who waits for the end of a healthy ring hears of one. -/
lemma Running.join_eq_none {running : Running} {r : Ring} {sink : Sink}
    (hr : running.session.Follows r sink []) (ticks goal : ℕ) :
    (running.join ticks goal).1 = none := by
  obtain ⟨moments, hmoments⟩ := Session.exists_follow_of_runUntil (fun s => !s.ended.isEmpty)
    (running.session.table.clock + ticks) (running.session.turnsIn ticks goal) running.session
  obtain ⟨k, hk⟩ := hr.follow moments
  have hfailure : (running.untilStopped ticks goal).failure? = none := by
    simp only [untilStopped, Running.runUntil, failure?, hmoments, hk.ended]
    rfl
  simp only [join, hfailure]

/-- **A healthy ring never fails, and its meals go round the table.**  A ring of at least two
seats can be spawned with every configuration, and whoever waits for its end waits in vain.
However its diners are interleaved, nobody's work ends, nobody has to wait for room to hand
back a fork, and the sink has received some events: under `reversedLast` the seats that eat
are `0, 1, 2, …` modulo the number of seats, in the trace and as every recorder of the sink
knows them; under `uniform` no event is a meal. -/
theorem healthy_ring_eats_in_table_order (c : Config) (hn : 2 ≤ c.seats) (sink : Sink)
    (hnew : ∀ recorder ∈ sink.recorders, recorder.events = #[]) :
    ∃ running, (Supervisor.mk c ⟨sink, none⟩).spawn true = .ok running ∧
      (∀ ticks goal, (running.join ticks goal).1 = none) ∧
      ∀ moments : List Parallel.Moment,
        let live := (Parallel.begin running.session).follow moments
        live.ended = [] ∧
        (∀ i p call side rest, live.table.philosopher? i = some p → p.call = some call →
          call.agenda = .give side :: rest →
          ∃ lanes, (p.wiring.endpoint side).give live.table.lanes = .done lanes) ∧
        ∃ events, live.sink = sink.recordAll events ∧
          (c.plan = .reversedLast →
            Trace.eatingOrder events
                = (List.range (Trace.eatingOrder events).length).map (· % c.seats) ∧
              ∀ recorder ∈ live.sink.recorders, recorder.eatingOrder
                = (List.range recorder.eatingOrder.length).map (· % c.seats)) ∧
          (c.plan = .uniform → ∀ e ∈ events, e.transition ≠ .eating) := by
  obtain ⟨running, hspawn, hsession, hparallel⟩ := Supervisor.exists_spawn c hn sink
  refine ⟨running, hspawn, running.join_eq_none hsession, fun moments => ?_⟩
  obtain ⟨h, s, hlive⟩ := hparallel.follow moments
  rw [List.nil_append] at hlive
  have hcourse : (Ring.initial ⟨c.seats, c.plan⟩).Course c.seats h s := hlive.path.course
  intro live
  refine ⟨hlive.ended, fun i p call side rest => hlive.give_eq_done hn, announced h,
    hlive.sink_eq, fun hplan => ?_, fun hplan e he => ?_⟩
  · rw [hplan] at hcourse
    have horder := (hcourse.eaters_eq hn).1
    rw [eatingOrder_announced]
    refine ⟨horder, fun recorder hrecorder => ?_⟩
    rw [hlive.sink_eq] at hrecorder
    rcases Sink.eatingOrder_of_mem_recorders hnew hrecorder with heating | heating
    · rw [heating, eatingOrder_announced]
      exact horder
    · rw [heating]
      rfl
  · rw [hplan] at hcourse
    have hnobody := hcourse.eaters_uniform
    rw [← eatingOrder_announced, Trace.eatingOrder, List.map_eq_nil_iff,
      List.filter_eq_nil_iff] at hnobody
    simpa [Event.isMeal] using hnobody e he

/-- At a table of three everybody eats once, in order; the second diner takes its fork before
the first is heard to wait again.  Under `uniform` the same order of turns leads to no meal. -/
theorem healthy_ring_eats_in_table_order_at_three :
    let moments : List Parallel.Moment :=
      [.turn 2, .turn 0, .hear 0, .turn 1, .hear 0, .time 5, .turn 0, .hear 1, .hear 0, .turn 0,
        .turn 0, .turn 1, .turn 2, .hear 2, .turn 2, .hear 0, .hear 1, .time 10, .turn 1, .hear 1,
        .turn 1, .turn 1, .turn 2, .hear 2]
    2 ≤ 3 ∧ (∀ recorder ∈ (Sink.recorder .keeping).recorders, recorder.events = #[]) ∧
    (∃ running, (Supervisor.mk ⟨3, .ofMillis 5, .zero, .reversedLast⟩
        ⟨.recorder .keeping, none⟩).spawn true = .ok running ∧
      let live := (Parallel.begin running.session).follow moments
      live.ended = [] ∧ live.sink.recorders.map Recorder.eatingOrder = [[0, 1, 2]] ∧
        ∀ recorder ∈ live.sink.recorders, recorder.eatingOrder
          = (List.range recorder.eatingOrder.length).map (· % 3)) ∧
    ∃ running, (Supervisor.mk ⟨3, .ofMillis 5, .zero, .uniform⟩
        ⟨.recorder .keeping, none⟩).spawn true = .ok running ∧
      let live := (Parallel.begin running.session).follow moments
      ∃ events, live.sink = (Sink.recorder .keeping).recordAll events ∧
        ∀ e ∈ events, e.transition ≠ .eating := by
  intro moments
  have hnew : ∀ recorder ∈ (Sink.recorder .keeping).recorders, recorder.events = #[] := by
    simp [Sink.recorders, Recorder.keeping]
  have hmeals : ((Supervisor.mk ⟨3, .ofMillis 5, .zero, .reversedLast⟩
      ⟨.recorder .keeping, none⟩).spawn true).toOption.map (fun running =>
        ((Parallel.begin running.session).follow moments).sink.recorders.map Recorder.eatingOrder)
      = some [[0, 1, 2]] := by decide +kernel
  obtain ⟨running, hspawn, -, hlive⟩ := healthy_ring_eats_in_table_order
    ⟨3, .ofMillis 5, .zero, .reversedLast⟩ (by decide) (.recorder .keeping) hnew
  obtain ⟨hended, -, _, -, horder, -⟩ := hlive moments
  obtain ⟨running', hspawn', -, hlive'⟩ := healthy_ring_eats_in_table_order
    ⟨3, .ofMillis 5, .zero, .uniform⟩ (by decide) (.recorder .keeping) hnew
  obtain ⟨-, -, events', hsink', -, hnobody⟩ := hlive' moments
  rw [hspawn] at hmeals
  exact ⟨by decide, hnew, ⟨running, hspawn, hended, Option.some.inj hmeals, (horder rfl).2⟩,
    running', hspawn', events', hsink', hnobody rfl⟩

end DiningRing
