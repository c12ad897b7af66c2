/-
# Safety of simulations

Whatever seats are asked to move, and in whatever order, a simulation of either plan stays in
sound states.  So the check after each step never fails, and the errors that would report a
broken ring are never given.

Since that check is the only thing that could fail once a seat has moved, a step has its whole
effect or none: a seat that can move does so and leaves what is counted of the others as it was
(`Simulation.step_of_enabled`), any other seat is refused and nothing has changed
(`Simulation.step_of_not_enabled`).
-/
import DiningRing.Proofs.Path
import DiningRing.Proofs.Tally

namespace DiningRing

namespace Simulation

variable {n i : ℕ} {sim : Simulation}

/-- A simulation is in a sound state of its ring after every schedule. -/
lemma sound_play_ring (hn : 2 ≤ n) (p : Plan) (sink : Sink) (schedule : List ℕ) :
    ((Simulation.begin ⟨n, p⟩ sink).play schedule).state.Sound
      ((Simulation.begin ⟨n, p⟩ sink).play schedule).ring.seats :=
  (course_begin hn p sink schedule).sound (Ring.sound_initial (r := ⟨n, p⟩) hn)

/-- A simulation is in a sound state after every schedule. -/
lemma sound_play (hn : 2 ≤ n) (p : Plan) (sink : Sink) (schedule : List ℕ) :
    ((Simulation.begin ⟨n, p⟩ sink).play schedule).state.Sound n := by
  have hs := sound_play_ring hn p sink schedule
  rwa [ring_play hn p sink schedule] at hs

/-- A step from a sound state never reports a broken ring. -/
lemma step_ne_invariantViolated (hs : sim.state.Sound sim.ring.seats) (i step : ℕ)
    (detail : String) :
    (sim.step i).result ≠ .error (.invariantViolated step detail) := by
  rcases step_of_sound hs i with ⟨a, _, _, hres, _⟩ | ⟨hres, _⟩
  · simp [hres]
  · simp [hres]

/-- **Conservation of forks and mutual exclusion of neighbours, after every schedule.**  The
check passes, and with it all that it stands for; whoever hands back holds a fork, finds the
way out free for every fork it holds, and so is never blocked; and no call, of the ring or of
the simulation, reports a broken ring. -/
theorem forks_conserved_under_every_schedule (hn : 2 ≤ n) (p : Plan) (sink : Sink) :
    Simulation.create n p sink = .ok (Simulation.begin ⟨n, p⟩ sink) ∧
    ∀ schedule : List ℕ,
      let sim := (Simulation.begin ⟨n, p⟩ sink).play schedule
      let s := sim.state
      sim.ring = ⟨n, p⟩ ∧
      sim.ring.check s = .ok () ∧
      (∀ e < n, sim.ring.forksOn s e = 1) ∧
      (∀ i < n, (s.diner i).phase = .eating → (s.diner i).hands.both = true) ∧
      (∀ i < n, (s.diner i).phase = .eating → (s.diner (Seat.next n i)).phase ≠ .eating) ∧
      s.inHand + s.inFlight = n ∧
      (∀ i < n, (s.diner i).phase = .releasing →
        (∃ side, (s.diner i).hands.holds side = true ∧
          sim.ring.nextAction s i = some (.give side)) ∧
        ∀ side, (s.diner i).hands.holds side = true →
          s.slot (Slot.outbound n i side) = false) ∧
      (∀ i < n, ∀ flaw, sim.ring.apply s i ≠ .error flaw) ∧
      ∀ i step detail, (sim.step i).result ≠ .error (.invariantViolated step detail) := by
  refine ⟨create_eq_ok hn p sink, fun schedule => ?_⟩
  have hs := sound_play hn p sink schedule
  have hring := ring_play hn p sink schedule
  intro sim s
  have hs' : s.Sound sim.ring.seats := by rw [hring]; exact hs
  refine ⟨hring, Ring.check_of_sound hs', fun e he => ?_, hs.eating,
    fun i hi hp => hs.not_eating_next hi hp, hs.inHand_add_inFlight, fun i hi hp => ⟨?_, ?_⟩,
    fun i hi flaw => Ring.apply_ne_error (hs.eating i hi), step_ne_invariantViolated hs'⟩
  · rw [Ring.forksOn_eq, hring]
    exact hs.oneFork e he
  · obtain ⟨side, hready⟩ := Ring.exists_ready_give hs' (by rw [hring]; exact hi) hp
    refine ⟨side, ?_, hready.nextAction⟩
    cases hready with
    | give _ _ hret _ => exact Ring.holds_of_returning?_eq_some hret
  · intro side hhand
    exact hs.outbound_of_hand hi hhand

/-- At a table of three, the first seat has eaten and hands back, the last one waits; a seat
that is not there and one that is blocked have been asked in between. -/
theorem forks_conserved_at_three :
    2 ≤ 3 ∧
    let sim := (Simulation.begin ⟨3, .reversedLast⟩ .null).play [0, 0, 7, 0, 2, 2]
    (sim.state.diner 0).phase = .releasing ∧ (sim.state.diner 2).phase = .waiting ∧
      sim.ring.check sim.state = .ok () ∧
      ∃ side, (sim.state.diner 0).hands.holds side = true ∧
        sim.ring.nextAction sim.state 0 = some (.give side) := by
  have h := (forks_conserved_under_every_schedule (n := 3) (by decide) .reversedLast .null).2
    [0, 0, 7, 0, 2, 2]
  have hphase : (((Simulation.begin ⟨3, .reversedLast⟩ .null).play
      [0, 0, 7, 0, 2, 2]).state.diner 0).phase = .releasing := by decide
  exact ⟨by decide, hphase, by decide, h.2.1, (h.2.2.2.2.2.2.1 0 (by decide) hphase).1⟩

/-! ### The effect of a step -/

/-- A step of a seat that can move performs its next action. -/
lemma step_of_enabled (hs : sim.state.Sound sim.ring.seats) (hi : i ∈ sim.enabled) :
    ∃ a, sim.ring.Ready sim.state i a ∧ (sim.step i).result = .ok a ∧
      (sim.step i).simulation = sim.advance i a (sim.ring.perform sim.state i a) := by
  obtain ⟨hlt, a, ha⟩ := Ring.mem_enabled_iff.mp hi
  exact ⟨a, ha, step_of_ready hs hlt ha⟩

/-- A step of any other seat, one that is not there included, is refused and changes nothing. -/
lemma step_of_not_enabled (hs : sim.state.Sound sim.ring.seats) (hi : i ∉ sim.enabled) :
    (sim.step i).result = .error (.invalidSchedule (sim.steps + 1) i) ∧
      (sim.step i).simulation = sim := by
  rcases step_of_sound hs i with ⟨a, hlt, ha, -, -⟩ | hrefused
  · exact absurd (Ring.mem_enabled_iff.mpr ⟨hlt, a, ha⟩) hi
  · exact hrefused

/-- The seats that can move are those that have a next action. -/
lemma nextAction_of_step (hs : sim.state.Sound sim.ring.seats) {a : Action} :
    (sim.step i).result = .ok a ↔ i ∈ sim.enabled ∧ sim.ring.nextAction sim.state i = some a := by
  constructor
  · intro hres
    by_cases hi : i ∈ sim.enabled
    · obtain ⟨b, hb, hres', -⟩ := step_of_enabled hs hi
      obtain rfl := Except.ok.inj (hres'.symm.trans hres)
      exact ⟨hi, hb.nextAction⟩
    · rw [(step_of_not_enabled hs hi).1] at hres
      cases hres
  · rintro ⟨hi, hnext⟩
    obtain ⟨b, hb, hres, -⟩ := step_of_enabled hs hi
    obtain rfl := Option.some.inj (hb.nextAction.symm.trans hnext)
    exact hres

/-- **A step moves one seat or changes nothing.**  After every schedule, and for every number of a
seat, a step is accepted exactly if that seat can move, and what it performs is the next action of
the seat.  The steps and the actions of the seat are then one more, while the phase and the hands
of each other seat and all that is counted for it stay as they were.  If the seat cannot move or is
not there, the step is refused with the number that it would have had, and the simulation, its
sink included, is the one before. -/
theorem step_moves_one_seat_or_changes_nothing (hn : 2 ≤ n) (p : Plan) (sink : Sink) :
    Simulation.create n p sink = .ok (Simulation.begin ⟨n, p⟩ sink) ∧
    ∀ (schedule : List ℕ) (seat : ℕ),
      let sim := (Simulation.begin ⟨n, p⟩ sink).play schedule
      let after := (sim.step seat).simulation
      (∀ a, (sim.step seat).result = .ok a ↔
        seat ∈ sim.enabled ∧ sim.ring.nextAction sim.state seat = some a) ∧
      (seat ∈ sim.enabled → (∃ a, (sim.step seat).result = .ok a) ∧
        after.steps = sim.steps + 1 ∧ after.actions seat = sim.actions seat + 1 ∧
        ∀ other, other ≠ seat → after.state.diner other = sim.state.diner other ∧
          after.tally other = sim.tally other) ∧
      (seat ∉ sim.enabled →
        (sim.step seat).result = .error (.invalidSchedule (sim.steps + 1) seat) ∧
        after = sim) := by
  refine ⟨create_eq_ok hn p sink, fun schedule seat => ?_⟩
  intro sim after
  have hs : sim.state.Sound sim.ring.seats := sound_play_ring hn p sink schedule
  have htallied : sim.Tallied :=
    (course_begin hn p sink schedule).tallied (tallied_begin _ sink)
  refine ⟨fun a => nextAction_of_step hs, fun hi => ?_, step_of_not_enabled hs⟩
  obtain ⟨a, -, hres, hafter⟩ := step_of_enabled hs hi
  have hlt : seat < sim.ring.seats := (Ring.mem_enabled_iff.mp hi).1
  have hafter : after = sim.advance seat a (sim.ring.perform sim.state seat a) := hafter
  rw [hafter]
  refine ⟨⟨a, hres⟩, rfl, ?_, fun other hne => ⟨Ring.diner_perform_ne hne, tally_advance_ne hne⟩⟩
  rw [actions_advance htallied hlt, if_pos rfl]

/-- At a table of three at which the first seat eats, the last one can take its fork; the second
one is blocked, and a seat that is not there is refused in the same way. -/
theorem step_moves_one_seat_or_changes_nothing_at_three :
    2 ≤ 3 ∧
    let sim := (Simulation.begin ⟨3, .reversedLast⟩ (.recorder .keeping)).play [0, 0, 1, 2]
    sim.enabled = [0] ∧ (sim.step 0).result = .ok .finish ∧ (sim.step 0).simulation.steps = 5 ∧
      (sim.step 0).simulation.tally 2 = sim.tally 2 ∧
      (sim.step 1).result = .error (.invalidSchedule 5 1) ∧ (sim.step 1).simulation = sim ∧
      (sim.step 7).result = .error (.invalidSchedule 5 7) ∧ (sim.step 7).simulation = sim := by
  have h := (step_moves_one_seat_or_changes_nothing (n := 3) (by decide) .reversedLast
    (.recorder .keeping)).2 [0, 0, 1, 2]
  obtain ⟨hresult, hmoves, -⟩ := h 0
  obtain ⟨-, hsteps, -, hothers⟩ := hmoves (by decide)
  obtain ⟨hblocked, hblocked'⟩ := (h 1).2.2 (by decide)
  obtain ⟨habsent, habsent'⟩ := (h 7).2.2 (by decide)
  exact ⟨by decide, by decide, (hresult .finish).mpr (by decide), hsteps,
    (hothers 2 (by decide)).2, hblocked, hblocked', habsent, habsent'⟩

end Simulation

end DiningRing
