/-
# Courses of a ring

A course is what any scheduler can make of a ring: the moves made so far, in order, and the
state they lead to.  It is said twice.  Calls on a bare state may be made by the rings of both
plans in turn, and a simulation is asked for one seat after another; in either case a call
that is blocked or refused has no effect.  Both give courses that consist of ready moves only
(`RingState.course_after`, `Simulation.course_play`), so that whatever holds at the start and
is kept by every ready move holds at every moment of every schedule.
-/
import DiningRing.Proofs.Seating
import DiningRing.Simulation.Run

namespace DiningRing

/-- A move: an action and the seat that performed it. -/
structure Move where
  seat : ℕ
  action : Action
deriving DecidableEq, Repr

/-- The seats that started to eat, in order. -/
def eaters (moves : List Move) : List ℕ :=
  (moves.filter fun m => m.action = .eat).map Move.seat

lemma eaters_append (h k : List Move) : eaters (h ++ k) = eaters h ++ eaters k := by
  simp [eaters]

@[simp] lemma eaters_eat (i : ℕ) : eaters [⟨i, .eat⟩] = [i] := rfl

lemma eaters_of_ne_eat {a : Action} (i : ℕ) (ha : a ≠ .eat) : eaters [⟨i, a⟩] = [] := by
  simp [eaters, ha]

/-! ### Calls on a state -/

/-- A call: the plan whose ring makes it, and the seat that is to move. -/
structure Ring.Call where
  plan : Plan
  seat : ℕ
deriving DecidableEq, Repr

namespace RingState

variable {n i : ℕ} {s t : RingState} {h : List Move} {a : Action}

/-- The move that a call makes at a table of `n`, if any, and the state after it. -/
def answer (n : ℕ) (s : RingState) (c : Ring.Call) : Option Move × RingState :=
  match Ring.apply ⟨n, c.plan⟩ s c.seat with
  | .ok (some (a, t)) => (some ⟨c.seat, a⟩, t)
  | .ok none => (none, s)
  | .error _ => (none, s)

/-- The state after several calls. -/
def after (n : ℕ) (s : RingState) : List Ring.Call → RingState
  | [] => s
  | c :: calls => after n (s.answer n c).2 calls

/-- The moves that several calls make. -/
def moves (n : ℕ) (s : RingState) : List Ring.Call → List Move
  | [] => []
  | c :: calls => (s.answer n c).1.toList ++ moves n (s.answer n c).2 calls

/-- Moves lead from `s` to another state, each of them ready under some plan. -/
inductive Course (n : ℕ) (s : RingState) : List Move → RingState → Prop where
  | start : Course n s [] s
  | move {h : List Move} {t : RingState} {i : ℕ} {a : Action} (p : Plan) (before : Course n s h t)
      (seat : i < n) (ready : (⟨n, p⟩ : Ring).Ready t i a) :
      Course n s (h ++ [⟨i, a⟩]) ((⟨n, p⟩ : Ring).perform t i a)

lemma Course.sound (hc : Course n s h t) (hs : s.Sound n) : t.Sound n := by
  induction hc with
  | start => exact hs
  | move p _ hi ha ih => exact Ring.sound_perform ih hi ha

lemma Course.append_calls (hs : s.Sound n) {calls : List Ring.Call} (hc : Course n s h t)
    (hseats : ∀ c ∈ calls, c.seat < n) :
    Course n s (h ++ t.moves n calls) (t.after n calls) := by
  induction calls generalizing h t with
  | nil => simpa [moves, after] using hc
  | cons c calls ih =>
    have hi : c.seat < n := hseats c List.mem_cons_self
    have hrest : ∀ d ∈ calls, d.seat < n := fun d hd => hseats d (List.mem_cons_of_mem _ hd)
    rcases Ring.apply_of_sound (r := ⟨n, c.plan⟩) (hc.sound hs) hi with happ | ⟨a, ha, happ⟩
    · simpa [moves, after, answer, happ] using ih hc hrest
    · simpa [moves, after, answer, happ] using ih (hc.move c.plan hi ha) hrest

/-- **Calls on a sound state make a course**, whichever plans they are made under. -/
theorem course_after (hs : s.Sound n) {calls : List Ring.Call} (hseats : ∀ c ∈ calls, c.seat < n) :
    Course n s (s.moves n calls) (s.after n calls) := by
  simpa using Course.append_calls hs .start hseats

end RingState

/-! ### Schedules of a simulation -/

namespace Simulation

variable {n i j : ℕ} {sim t : Simulation} {h : List Move} {a : Action} {s : RingState}

/-- The simulation after a schedule: one call of `step` for each seat, in order. -/
def play (sim : Simulation) : List ℕ → Simulation
  | [] => sim
  | seat :: schedule => play (sim.step seat).simulation schedule

lemma play_append (sim : Simulation) (schedule rest : List ℕ) :
    sim.play (schedule ++ rest) = (sim.play schedule).play rest := by
  induction schedule generalizing sim with
  | nil => rfl
  | cons i schedule ih => exact ih (sim.step i).simulation

/-- The move of a step, if it was accepted. -/
def moveOf (seat : ℕ) : Except SimulationError Action → List Move
  | .ok a => [⟨seat, a⟩]
  | .error _ => []

/-- The accepted moves of a schedule. -/
def history (sim : Simulation) : List ℕ → List Move
  | [] => []
  | seat :: schedule =>
    moveOf seat (sim.step seat).result ++ history (sim.step seat).simulation schedule

/-- Moves lead from `sim` to another simulation, each of them ready. -/
inductive Course (sim : Simulation) : List Move → Simulation → Prop where
  | start : Course sim [] sim
  | move {h : List Move} {t : Simulation} {i : ℕ} {a : Action} (before : Course sim h t)
      (seat : i < t.ring.seats) (ready : t.ring.Ready t.state i a) :
      Course sim (h ++ [⟨i, a⟩]) (t.advance i a (t.ring.perform t.state i a))

lemma Course.ring_eq (hc : Course sim h t) : t.ring = sim.ring := by
  induction hc with
  | start => rfl
  | move _ _ _ ih => exact ih

lemma Course.ringCourse (hc : Course sim h t) :
    sim.state.Course sim.ring.seats h t.state := by
  induction hc with
  | start => exact .start
  | @move h t i a before hi ha ih =>
    have hring : t.ring = ⟨sim.ring.seats, t.ring.plan⟩ := by rw [before.ring_eq]
    rw [hring] at hi ha
    have := ih.move t.ring.plan hi ha
    rwa [← hring] at this

lemma Course.sound (hc : Course sim h t) (hs : sim.state.Sound sim.ring.seats) :
    t.state.Sound t.ring.seats := by
  rw [hc.ring_eq]
  exact hc.ringCourse.sound hs

/-- **What a step does in a sound state**: it advances a ready seat, or it refuses and changes
nothing. -/
theorem step_of_sound (hs : sim.state.Sound sim.ring.seats) (i : ℕ) :
    (∃ a, i < sim.ring.seats ∧ sim.ring.Ready sim.state i a ∧ (sim.step i).result = .ok a ∧
        (sim.step i).simulation = sim.advance i a (sim.ring.perform sim.state i a)) ∨
      ((sim.step i).result = .error (.invalidSchedule (sim.steps + 1) i) ∧
        (sim.step i).simulation = sim) := by
  unfold step
  by_cases hi : i < sim.seats
  · rcases Ring.apply_of_sound hs hi with happ | ⟨a, ha, happ⟩
    · right
      simp [hi, happ, refuse]
    · left
      have hver := Ring.verify_of_sound (Ring.sound_perform hs hi ha) (sim.steps + 1)
      exact ⟨a, hi, ha, by simp [hi, happ, hver], by simp [hi, happ]⟩
  · right
    simp [hi, refuse]

/-- A step of a sound simulation leaves a sound one. -/
lemma sound_step (hs : sim.state.Sound sim.ring.seats) (i : ℕ) :
    (sim.step i).simulation.state.Sound (sim.step i).simulation.ring.seats := by
  rcases step_of_sound hs i with ⟨a, hi, ha, -, hsim⟩ | ⟨-, hsim⟩
  · rw [hsim]
    exact Ring.sound_perform hs hi ha
  · rwa [hsim]

lemma Course.append_schedule (hs : sim.state.Sound sim.ring.seats) (schedule : List ℕ)
    (hc : Course sim h t) : Course sim (h ++ t.history schedule) (t.play schedule) := by
  induction schedule generalizing h t with
  | nil => simpa [history, play] using hc
  | cons i schedule ih =>
    -- a refused step leaves the moves and the simulation as they are
    rcases step_of_sound (hc.sound hs) i with ⟨a, hi, ha, hres, hsim⟩ | ⟨hres, hsim⟩
    · simpa [history, play, hres, hsim, moveOf] using ih (hc.move hi ha)
    · simpa [history, play, hres, hsim, moveOf] using ih hc

/-- **Every schedule of a sound simulation makes a course.** -/
theorem course_play (hs : sim.state.Sound sim.ring.seats) (schedule : List ℕ) :
    Course sim (sim.history schedule) (sim.play schedule) := by
  simpa using Course.append_schedule hs schedule .start

/-! ### Runs -/

/-- What a scheduler makes of a simulation is what some schedule makes of it. -/
lemma exists_play_of_drive (budget : ℕ) (sim : Simulation) (scheduler : Scheduler)
    (journal : Journal) :
    ∃ schedule, (drive budget sim scheduler journal).simulation = sim.play schedule := by
  induction budget generalizing sim scheduler journal with
  | zero => exact ⟨[], rfl⟩
  | succ budget ih =>
    unfold drive
    split
    · exact ⟨[], rfl⟩
    · split
      · exact ⟨[], rfl⟩
      · rename_i chosen _ _
        dsimp only
        split
        · exact ⟨[chosen], rfl⟩
        · obtain ⟨schedule, hplay⟩ := ih (sim.step chosen).simulation _ _
          exact ⟨chosen :: schedule, hplay⟩

/-- A run is what the scheduler makes of the simulation, with one more entry in the journal. -/
lemma exists_run_eq (sim : Simulation) (scheduler : Scheduler) (budget : ℕ) :
    ∃ journal, sim.run scheduler budget
      = { drive budget sim scheduler #[] with journal := journal } := by
  unfold run
  dsimp only
  split
  · exact ⟨_, rfl⟩
  · exact ⟨_, rfl⟩

/-- A report has the outcome of the run that it is about. -/
lemma exists_outcome_of_report {run : Run} {report : Report} (h : run.report = .ok report) :
    ∃ o, run.outcome = .ok o ∧ report = run.simulation.report run.scheduler.name o := by
  unfold Run.report at h
  split at h
  next => cases h
  next o ho => exact ⟨o, ho, (Except.ok.inj h).symm⟩

/-- What a run makes of a simulation is what some schedule makes of it. -/
lemma exists_play_run (sim : Simulation) (scheduler : Scheduler) (budget : ℕ) :
    ∃ schedule, (sim.run scheduler budget).simulation = sim.play schedule := by
  obtain ⟨journal, hrun⟩ := exists_run_eq sim scheduler budget
  rw [hrun]
  exact exists_play_of_drive budget sim scheduler #[]

/-- **Every report of a run is one of a simulation after some schedule.** -/
theorem exists_play_of_run {scheduler : Scheduler} {budget : ℕ} {report : Report}
    (hrun : (sim.run scheduler budget).report = .ok report) :
    ∃ schedule name outcome, report = (sim.play schedule).report name outcome := by
  obtain ⟨schedule, hplay⟩ := exists_play_run sim scheduler budget
  obtain ⟨o, -, hreport⟩ := exists_outcome_of_report hrun
  rw [hplay] at hreport
  exact ⟨schedule, _, o, hreport⟩

/-! ### Beginning -/

/-- **Every simulation of at least two seats can be created.** -/
theorem create_eq_ok (hn : 2 ≤ n) (p : Plan) (sink : Sink) :
    Simulation.create n p sink = .ok (Simulation.begin ⟨n, p⟩ sink) := by
  have hver := Ring.verify_of_sound (Ring.sound_initial (r := ⟨n, p⟩) hn) 0
  simp only [create, Ring.lay_eq_ok hn p, hver]

/-- Every schedule from the beginning makes a course. -/
lemma course_begin (hn : 2 ≤ n) (p : Plan) (sink : Sink) (schedule : List ℕ) :
    Course (Simulation.begin ⟨n, p⟩ sink) ((Simulation.begin ⟨n, p⟩ sink).history schedule)
      ((Simulation.begin ⟨n, p⟩ sink).play schedule) :=
  course_play (Ring.sound_initial (r := ⟨n, p⟩) hn) schedule

lemma ring_play (hn : 2 ≤ n) (p : Plan) (sink : Sink) (schedule : List ℕ) :
    ((Simulation.begin ⟨n, p⟩ sink).play schedule).ring = ⟨n, p⟩ :=
  (course_begin hn p sink schedule).ring_eq

end Simulation

end DiningRing
