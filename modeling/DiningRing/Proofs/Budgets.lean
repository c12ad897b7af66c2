/-
# Budgets in parts

A run looks at its budget before it looks at the ring, and asks the scheduler last.  So where a
budget ends nothing has been looked at, let alone drawn from the scheduler, that the next run would
miss; and where a run ends for another reason, it does so with steps left, and a larger budget
changes nothing.  Both are said of the relation `Drives`, which tells the one result of a run
(`Simulation.run_of_drives`): what a budget leaves to do is done by the next one
(`Simulation.Drives.trans`), and what ends within a budget ends in every larger one
(`Simulation.Drives.extend`).  Together they tell a run from its parts
(`Simulation.budgets_compose`), for every scheduler, whatever state it has by then.
-/
import DiningRing.Proofs.Outcomes

namespace DiningRing

namespace Simulation

variable {n budget first second : ℕ} {sim t u : Simulation} {s s' s'' : Scheduler}
  {r : Except SimulationError Outcome} {o : Outcome}

/-! ### Results of a run -/

/-- Where a seat can move, the scheduler decides what comes next. -/
lemma drive_succ (hmoving : sim.enabled ≠ []) (s : Scheduler) (budget : ℕ) (journal : Journal) :
    drive (budget + 1) sim s journal =
      match s.pick sim sim.enabled with
      | (none, next) => ⟨.ok (.scheduleExhausted sim.steps), sim, next, journal⟩
      | (some seat, next) =>
        match (sim.step seat).result with
        | .error e =>
          ⟨.error e, (sim.step seat).simulation, next, journal ++ (sim.step seat).journal⟩
        | .ok _ =>
          drive budget (sim.step seat).simulation next (journal ++ (sim.step seat).journal) := by
  rw [drive]
  cases hseats : sim.enabled with
  | nil => exact absurd hseats hmoving
  | cons seat seats => rfl

/-- What the relation says of a budget is what is computed. -/
lemma Drives.exists_drive_eq (h : Drives budget sim s r t s') (journal : Journal) :
    ∃ journal', drive budget sim s journal = ⟨r, t, s', journal'⟩ := by
  induction h generalizing journal with
  | spent => exact ⟨_, rfl⟩
  | rests budget s hstill => exact ⟨_, by rw [drive, hstill]⟩
  | stops budget hmoving hchoice => exact ⟨_, by rw [drive_succ hmoving, hchoice]⟩
  | fails budget hmoving hchoice hrefused =>
    exact ⟨_, by simp only [drive_succ hmoving, hchoice, hrefused]; rfl⟩
  | goes hmoving hchoice haccepted _ ih =>
    obtain ⟨journal', hrest⟩ := ih _
    exact ⟨journal', by simp only [drive_succ hmoving, hchoice, haccepted]; exact hrest⟩

/-- **A budget has one result.** -/
theorem run_of_drives (h : Drives budget sim s r t s') : (sim.run s budget).outcome = r ∧
    (sim.run s budget).simulation = t ∧ (sim.run s budget).scheduler = s' := by
  obtain ⟨journal, hdrive⟩ := h.exists_drive_eq #[]
  obtain ⟨journal', hrun⟩ := exists_run_eq sim s budget
  rw [hrun, hdrive]
  exact ⟨rfl, rfl, rfl⟩

lemma report_of_drives (h : Drives budget sim s (.ok o) t s') :
    (sim.run s budget).report = .ok (t.report s'.name o) := by
  obtain ⟨hok, rfl, rfl⟩ := run_of_drives h
  rw [Run.report, hok]

lemma report_of_drives_error {e : SimulationError} (h : Drives budget sim s (.error e) t s') :
    (sim.run s budget).report = .error e := by
  rw [Run.report, (run_of_drives h).1]

/-- Runs with the same result give the same report, or the same error. -/
lemma report_congr {run run' : Run} (houtcome : run.outcome = run'.outcome)
    (hsimulation : run.simulation = run'.simulation) (hscheduler : run.scheduler = run'.scheduler) :
    run.report = run'.report := by
  rw [Run.report, Run.report, houtcome, hsimulation, hscheduler]

/-! ### Two budgets -/

/-- **Where a budget is used up the next one goes on.** -/
theorem Drives.trans (h : Drives first sim s (.ok .completed) t s')
    (h' : Drives second t s' r u s'') : Drives (first + second) sim s r u s'' := by
  generalize hr : Except.ok Outcome.completed = r₁ at h
  induction h with
  | spent =>
    rw [Nat.zero_add]
    exact h'
  | rests | stops | fails => cases hr
  | goes hmoving hchoice haccepted _ ih =>
    rw [Nat.add_right_comm]
    exact .goes hmoving hchoice haccepted (ih h' hr)

/-- **What ends within a budget ends so in every larger one.** -/
theorem Drives.extend (h : Drives first sim s r t s') (hr : r ≠ .ok .completed) (second : ℕ) :
    Drives (first + second) sim s r t s' := by
  induction h with
  | spent => exact absurd rfl hr
  | rests first s hstill =>
    rw [Nat.add_right_comm]
    exact .rests (first + second) s hstill
  | stops first hmoving hchoice =>
    rw [Nat.add_right_comm]
    exact .stops (first + second) hmoving hchoice
  | fails first hmoving hchoice hrefused =>
    rw [Nat.add_right_comm]
    exact .fails (first + second) hmoving hchoice hrefused
  | goes hmoving hchoice haccepted _ ih =>
    rw [Nat.add_right_comm]
    exact .goes hmoving hchoice haccepted (ih hr)

/-- **Budgets compose.**  From every simulation that a schedule leads to, with every scheduler in
every state, a run for two budgets together is told by a run for the first one: if that uses it up,
by the run for the second budget that goes on with the same simulation and scheduler, and if it ends
otherwise, by that run itself.  Report or error, the simulation and the scheduler are the same. -/
theorem budgets_compose (hn : 2 ≤ n) (p : Plan) (sink : Sink) :
    Simulation.create n p sink = .ok (Simulation.begin ⟨n, p⟩ sink) ∧
    ∀ (schedule : List ℕ) (scheduler : Scheduler) (first second : ℕ),
      let sim := (Simulation.begin ⟨n, p⟩ sink).play schedule
      let part := sim.run scheduler first
      let whole := sim.run scheduler (first + second)
      (part.outcome = .ok .completed →
        let rest := part.simulation.run part.scheduler second
        whole.report = rest.report ∧ whole.simulation = rest.simulation ∧
          whole.scheduler = rest.scheduler) ∧
      (part.outcome ≠ .ok .completed →
        whole.report = part.report ∧ whole.simulation = part.simulation ∧
          whole.scheduler = part.scheduler) := by
  refine ⟨create_eq_ok hn p sink, fun schedule scheduler first second => ?_⟩
  intro sim part whole
  have hpart : Drives first sim scheduler part.outcome part.simulation part.scheduler :=
    drives_run sim scheduler first
  constructor
  · intro hcompleted rest
    rw [hcompleted] at hpart
    obtain ⟨houtcome, hsimulation, hscheduler⟩ :=
      run_of_drives (hpart.trans (drives_run part.simulation part.scheduler second))
    exact ⟨report_congr houtcome hsimulation hscheduler, hsimulation, hscheduler⟩
  · intro hended
    obtain ⟨houtcome, hsimulation, hscheduler⟩ := run_of_drives (hpart.extend hended second)
    exact ⟨report_congr houtcome hsimulation hscheduler, hsimulation, hscheduler⟩

/-- At a table of two under `uniform`, on which one seat waits already: a budget of two steps is
used up, and with five more the ring comes to rest; a script that names a seat that is not there is
refused within two steps, and so it is within five. -/
theorem budgets_compose_at_two :
    let sim := (Simulation.begin ⟨2, .uniform⟩ .null).play [1]
    let part := sim.run (.roundRobin 1) 2
    let script : Scheduler := .scripted [0, 7, 1]
    2 ≤ 2 ∧ part.outcome = .ok .completed ∧
      (sim.run (.roundRobin 1) (2 + 5)).report = (part.simulation.run part.scheduler 5).report ∧
      (part.simulation.run part.scheduler 5).outcome = .ok (.deadlocked 4) ∧
      (sim.run script 2).outcome = .error (.invalidSchedule 3 7) ∧
      (sim.run script (2 + 3)).report = .error (.invalidSchedule 3 7) ∧
      (sim.run script (2 + 3)).scheduler = .scripted [1] := by
  intro sim part script
  have hcompose := (budgets_compose (n := 2) (by decide) .uniform .null).2 [1]
  have hcompleted : part.outcome = .ok .completed := by decide +kernel
  have hrefused : (sim.run script 2).outcome = .error (.invalidSchedule 3 7) := by decide +kernel
  obtain ⟨hreport, -, -⟩ := (hcompose (.roundRobin 1) 2 5).1 hcompleted
  obtain ⟨herror, -, hscheduler⟩ := (hcompose script 2 3).2 (fun hok => by
    cases hrefused.symm.trans hok)
  exact ⟨by decide, hcompleted, hreport, by decide +kernel, hrefused,
    herror.trans (by decide +kernel), hscheduler.trans (by decide +kernel)⟩

end Simulation

end DiningRing
