/-
# How a run ends

A run asks three things before each step, and always in this order: whether the budget is used up,
whether any seat can move, and which seat the scheduler chooses.  The relation `Simulation.Drives`
says what comes of it, and is what `run` computes (`Simulation.drives_run`).

From the order follows what an outcome tells of the simulation that a run leaves behind
(`Outcome.Ends`).  A ring that is found at rest, and a scheduler that stops, end a run with steps
left in the budget.  A budget that is used up ends it first, so that `completed` does not say whether
a seat could still move: it is the outcome also of a run whose last step brings the ring to rest.

A scheduler without a script never stops and is never refused (`Simulation.Drives.exists_outcome`).
Which of the other two outcomes it comes to is then decided by the plan and the budget alone.
-/
import DiningRing.Proofs.Choices
import DiningRing.Proofs.Stalemate

namespace DiningRing

namespace Simulation

/-- What becomes of a simulation that a scheduler drives for at most `budget` steps: the outcome or
the error, the simulation then, and the scheduler then. -/
inductive Drives : ℕ → Simulation → Scheduler → Except SimulationError Outcome → Simulation →
    Scheduler → Prop where
  | spent (sim : Simulation) (s : Scheduler) : Drives 0 sim s (.ok .completed) sim s
  | rests {sim : Simulation} (budget : ℕ) (s : Scheduler) (still : sim.enabled = []) :
      Drives (budget + 1) sim s (.ok (.deadlocked sim.steps)) sim s
  | stops {sim : Simulation} {s next : Scheduler} (budget : ℕ) (moving : sim.enabled ≠ [])
      (choice : s.pick sim sim.enabled = (none, next)) :
      Drives (budget + 1) sim s (.ok (.scheduleExhausted sim.steps)) sim next
  | fails {sim : Simulation} {s next : Scheduler} {seat : ℕ} {e : SimulationError} (budget : ℕ)
      (moving : sim.enabled ≠ []) (choice : s.pick sim sim.enabled = (some seat, next))
      (refused : (sim.step seat).result = .error e) :
      Drives (budget + 1) sim s (.error e) (sim.step seat).simulation next
  | goes {sim t : Simulation} {s next last : Scheduler} {seat budget : ℕ} {a : Action}
      {r : Except SimulationError Outcome} (moving : sim.enabled ≠ [])
      (choice : s.pick sim sim.enabled = (some seat, next))
      (accepted : (sim.step seat).result = .ok a)
      (rest : Drives budget (sim.step seat).simulation next r t last) :
      Drives (budget + 1) sim s r t last

lemma drives_drive (budget : ℕ) (sim : Simulation) (s : Scheduler) (journal : Journal) :
    Drives budget sim s (sim.drive budget s journal).outcome
      (sim.drive budget s journal).simulation (sim.drive budget s journal).scheduler := by
  induction budget generalizing sim s journal with
  | zero => exact .spent sim s
  | succ budget ih =>
    unfold drive
    split
    next hstill => exact .rests budget s hstill
    next first others hseats =>
      have hmoving : sim.enabled ≠ [] := by simp [hseats]
      rw [← hseats]
      split
      next next hchoice => exact .stops budget hmoving hchoice
      next seat next hchoice =>
        dsimp only
        split
        next e hrefused => exact .fails budget hmoving hchoice hrefused
        next a haccepted => exact .goes hmoving hchoice haccepted (ih _ _ _)

/-- **What a run does.** -/
theorem drives_run (sim : Simulation) (s : Scheduler) (budget : ℕ) :
    Drives budget sim s (sim.run s budget).outcome (sim.run s budget).simulation
      (sim.run s budget).scheduler := by
  obtain ⟨journal, hrun⟩ := exists_run_eq sim s budget
  rw [hrun]
  exact drives_drive budget sim s #[]

end Simulation

/-- What an outcome tells of the simulation that a run leaves behind, if the budget would have lasted
up to step `limit`. -/
inductive Outcome.Ends (limit : ℕ) (sim : Simulation) : Outcome → Prop where
  | completed (full : sim.steps = limit) : Ends limit sim .completed
  | deadlocked (left : sim.steps < limit) (still : sim.enabled = []) :
      Ends limit sim (.deadlocked sim.steps)
  | scheduleExhausted (left : sim.steps < limit) (moving : sim.enabled ≠ []) :
      Ends limit sim (.scheduleExhausted sim.steps)

namespace Outcome.Ends

variable {limit step : ℕ} {sim : Simulation} {o : Outcome}

lemma step_eq (h : o.Ends limit sim) (ho : o = .deadlocked step ∨ o = .scheduleExhausted step) :
    step = sim.steps ∧ step < limit := by
  cases h with
  | completed => simp at ho
  | deadlocked hleft =>
    obtain rfl : sim.steps = step := by simpa using ho
    exact ⟨rfl, hleft⟩
  | scheduleExhausted hleft =>
    obtain rfl : sim.steps = step := by simpa using ho
    exact ⟨rfl, hleft⟩

end Outcome.Ends

namespace Simulation

variable {n budget : ℕ} {sim t : Simulation} {s last : Scheduler}
  {r : Except SimulationError Outcome} {o : Outcome}

lemma steps_of_step (hs : sim.state.Sound sim.ring.seats) {seat : ℕ} {a : Action}
    (haccepted : (sim.step seat).result = .ok a) :
    (sim.step seat).simulation.steps = sim.steps + 1 := by
  obtain ⟨henabled, -⟩ := (nextAction_of_step hs).mp haccepted
  obtain ⟨b, -, -, hafter⟩ := step_of_enabled hs henabled
  rw [hafter]
  rfl

/-- **A run ends as its outcome says**, for each of the questions that it asks before a step. -/
theorem Drives.ends (h : Drives budget sim s (.ok o) t last)
    (hs : sim.state.Sound sim.ring.seats) : o.Ends (sim.steps + budget) t := by
  generalize hr : Except.ok o = r at h
  induction h with
  | spent sim s =>
    obtain rfl := Except.ok.inj hr
    exact .completed rfl
  | rests budget s hstill =>
    obtain rfl := Except.ok.inj hr
    exact .deadlocked (by omega) hstill
  | stops budget hmoving hchoice =>
    obtain rfl := Except.ok.inj hr
    exact .scheduleExhausted (by omega) hmoving
  | fails => cases hr
  | @goes sim t s next last seat budget a r _ _ haccepted _ ih =>
    have hrest := ih (sound_step hs seat) hr
    rwa [steps_of_step hs haccepted, Nat.add_right_comm] at hrest

/-- **A scheduler without a script** is never refused and never stops, and has no script
afterwards. -/
theorem Drives.exists_outcome (h : Drives budget sim s r t last)
    (hs : sim.state.Sound sim.ring.seats) (hfree : s.remaining? = none) :
    last.remaining? = none ∧ ∃ o, r = .ok o ∧ ∀ step, o ≠ .scheduleExhausted step := by
  induction h with
  | spent => exact ⟨hfree, .completed, rfl, by simp⟩
  | rests => exact ⟨hfree, .deadlocked _, rfl, by simp⟩
  | @stops sim _ _ _ hmoving hchoice =>
    obtain ⟨seat, -, next, hpick, -⟩ := Scheduler.exists_pick hfree sim hmoving
    simp [hpick] at hchoice
  | @fails sim s next seat e _ hmoving hchoice hrefused =>
    obtain ⟨chosen, henabled, next', hpick, -⟩ := Scheduler.exists_pick hfree sim hmoving
    obtain ⟨rfl, rfl⟩ : chosen = seat ∧ next' = next := by simpa [hpick] using hchoice
    obtain ⟨a, -, haccepted, -⟩ := step_of_enabled hs henabled
    rw [hrefused] at haccepted
    cases haccepted
  | @goes sim t s next last seat budget a r hmoving hchoice _ _ ih =>
    obtain ⟨chosen, -, next', hpick, hnext⟩ := Scheduler.exists_pick hfree sim hmoving
    obtain ⟨rfl, rfl⟩ : chosen = seat ∧ next' = next := by simpa [hpick] using hchoice
    exact ih (sound_step hs chosen) hnext

/-! ### Which simulations are at rest -/

/-- **A simulation is at rest** exactly under `uniform` after two steps of every seat, whatever the
schedule was. -/
theorem enabled_play_eq_nil_iff (hn : 2 ≤ n) (p : Plan) (sink : Sink) (schedule : List ℕ) :
    ((Simulation.begin ⟨n, p⟩ sink).play schedule).enabled = [] ↔
      p = .uniform ∧ ((Simulation.begin ⟨n, p⟩ sink).play schedule).steps = 2 * n := by
  have hs := sound_play hn p sink schedule
  rw [enabled, ring_play hn p sink schedule]
  cases p with
  | reversedLast =>
    obtain ⟨k, hturn⟩ := (course_begin hn .reversedLast sink schedule).ringCourse.turn
      (Ring.sound_initial (r := ⟨n, .reversedLast⟩) hn) (Ring.turn_initial n)
    simp [Ring.enabled_ne_nil_of_turn (r := ⟨n, .reversedLast⟩) hn hturn hs]
  | uniform =>
    obtain ⟨hstarved, -, hsum⟩ := starved_play hn sink schedule
    rw [hstarved.enabled_eq_nil_iff hs]
    simp only [true_and]
    omega

/-- Under `uniform` no schedule takes more steps than that. -/
lemma steps_play_uniform_le (hn : 2 ≤ n) (sink : Sink) (schedule : List ℕ) :
    ((Simulation.begin ⟨n, .uniform⟩ sink).play schedule).steps ≤ 2 * n := by
  obtain ⟨-, -, hsum⟩ := starved_play hn sink schedule
  omega

/-- The simulation that a run leaves behind is at rest exactly under `uniform` after two steps of
every seat, and it has not gone further. -/
lemma enabled_run_eq_nil_iff (hn : 2 ≤ n) (p : Plan) (sink : Sink) (schedule : List ℕ)
    (s : Scheduler) (budget : ℕ) :
    let final := (((Simulation.begin ⟨n, p⟩ sink).play schedule).run s budget).simulation
    (final.enabled = [] ↔ p = .uniform ∧ final.steps = 2 * n) ∧
      (p = .uniform → final.steps ≤ 2 * n) := by
  intro final
  obtain ⟨rest, hrest⟩ := exists_play_run ((Simulation.begin ⟨n, p⟩ sink).play schedule) s budget
  have hfinal : final = (Simulation.begin ⟨n, p⟩ sink).play (schedule ++ rest) :=
    hrest.trans (play_append _ schedule rest).symm
  rw [hfinal]
  refine ⟨enabled_play_eq_nil_iff hn p sink _, fun hp => ?_⟩
  subst hp
  exact steps_play_uniform_le hn sink _

/-! ### What an outcome tells -/

/-- **How the runs of schedulers without a script end.**  From every simulation that a schedule
leads to, with every such scheduler in every state and for every budget, a run gives a report, and
leaves a scheduler without a script.  Under `reversedLast` the budget is used up.  Under `uniform`
it is used up if it ends with the second step of every seat at the latest; otherwise the ring comes
to rest with that step. -/
theorem run_without_script (hn : 2 ≤ n) (p : Plan) (sink : Sink) :
    Simulation.create n p sink = .ok (Simulation.begin ⟨n, p⟩ sink) ∧
    ∀ (schedule : List ℕ) (scheduler : Scheduler) (budget : ℕ), scheduler.remaining? = none →
      let sim := (Simulation.begin ⟨n, p⟩ sink).play schedule
      let run := sim.run scheduler budget
      run.scheduler.remaining? = none ∧
      ∃ report, run.report = .ok report ∧ report.steps = run.simulation.steps ∧
        (p = .reversedLast →
          report.outcome = .completed ∧ run.simulation.steps = sim.steps + budget) ∧
        (p = .uniform → sim.steps + budget ≤ 2 * n →
          report.outcome = .completed ∧ run.simulation.steps = sim.steps + budget) ∧
        (p = .uniform → 2 * n < sim.steps + budget →
          report.outcome = .deadlocked (2 * n) ∧ run.simulation.steps = 2 * n) := by
  refine ⟨create_eq_ok hn p sink, fun schedule scheduler budget hfree => ?_⟩
  intro sim run
  have hs := sound_play_ring hn p sink schedule
  have hdrives := drives_run sim scheduler budget
  obtain ⟨hfree', o, hok, hnever⟩ := hdrives.exists_outcome hs hfree
  rw [hok] at hdrives
  obtain ⟨hrest, hle⟩ := enabled_run_eq_nil_iff hn p sink schedule scheduler budget
  refine ⟨hfree', run.simulation.report run.scheduler.name o, ?_, rfl, ?_⟩
  · rw [Run.report, hok]
  cases hdrives.ends hs with
  | completed hfull =>
    have hlimit : run.simulation.steps = sim.steps + budget := hfull
    refine ⟨fun _ => ⟨rfl, hlimit⟩, fun _ _ => ⟨rfl, hlimit⟩, fun hp hlt => ?_⟩
    have hsteps : run.simulation.steps ≤ 2 * n := hle hp
    omega
  | deadlocked hleft hstill =>
    obtain ⟨rfl, hsteps⟩ := hrest.mp hstill
    have hsteps : run.simulation.steps = 2 * n := hsteps
    have hlimit : run.simulation.steps < sim.steps + budget := hleft
    refine ⟨by simp, fun _ _ => by omega, fun _ _ => ⟨?_, hsteps⟩⟩
    exact congrArg Outcome.deadlocked hsteps
  | scheduleExhausted => exact absurd rfl (hnever _)

/-- At a table of two under `uniform`: a budget that ends with the fourth step is used up by a
scheduler whose cursor is past all seats, and one that goes further shows the ring at rest to a
scheduler that draws at random. -/
theorem run_without_script_at_two :
    let cursor : Scheduler := .roundRobin 9
    let drawing : Scheduler := Scheduler.Kind.random.build 7
    2 ≤ 2 ∧ cursor.remaining? = none ∧ drawing.remaining? = none ∧
    let sim := (Simulation.begin ⟨2, .uniform⟩ .null).play [1, 5]
    sim.steps = 1 ∧
      (∃ report, (sim.run cursor 3).report = .ok report ∧ report.outcome = .completed) ∧
      ∃ report, (sim.run drawing 4).report = .ok report ∧ report.outcome = .deadlocked 4 := by
  intro cursor drawing
  have hends := (run_without_script (n := 2) (by decide) .uniform .null).2 [1, 5]
  have hsteps : ((Simulation.begin ⟨2, .uniform⟩ .null).play [1, 5]).steps = 1 := by decide
  have hdrawing : drawing.remaining? = none := Scheduler.remaining?_build .random 7
  obtain ⟨-, report, hreport, -, -, hcompleted, -⟩ := hends cursor 3 rfl
  obtain ⟨-, report', hreport', -, -, -, hdeadlocked⟩ := hends drawing 4 hdrawing
  exact ⟨by decide, rfl, hdrawing, hsteps,
    ⟨report, hreport, (hcompleted rfl (by rw [hsteps])).1⟩,
    ⟨report', hreport', (hdeadlocked rfl (by rw [hsteps]; decide)).1⟩⟩

end Simulation

end DiningRing
