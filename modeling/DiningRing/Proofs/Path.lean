/-
# Paths of a ring

A path is a sequence of ready moves of one ring, read from its first move on.  Courses are
read from their last move on, which suits invariants; paths suit the comparison of two
sequences that start in the same state.

A schedule all of whose steps are accepted follows a path (`Simulation.path_of_accepts`), and
in a sound simulation every path is followed by such a schedule (`Ring.Path.accepts`).
-/
import DiningRing.Proofs.Course

namespace DiningRing

namespace Ring

variable {r : Ring} {s t u : RingState} {i : ℕ} {a b : Action} {h k : List Move}

/-- A seat is ready for one action at most. -/
lemma Ready.unique (ha : r.Ready s i a) (hb : r.Ready s i b) : a = b := by
  have h := ha.nextAction.symm.trans hb.nextAction
  exact Option.some.inj h

/-- Ready moves of the ring, one after another, lead from one state to another. -/
inductive Path (r : Ring) : RingState → List Move → RingState → Prop where
  | nil (s : RingState) : Path r s [] s
  | cons {s t : RingState} {i : ℕ} {a : Action} {h : List Move} (seat : i < r.seats)
      (ready : r.Ready s i a) (rest : Path r (r.perform s i a) h t) : Path r s (⟨i, a⟩ :: h) t

namespace Path

lemma single (hi : i < r.seats) (ha : r.Ready s i a) : r.Path s [⟨i, a⟩] (r.perform s i a) :=
  .cons hi ha (.nil _)

lemma append (hp : r.Path s h t) (hq : r.Path t k u) : r.Path s (h ++ k) u := by
  induction hp with
  | nil => exact hq
  | cons hi ha _ ih => exact .cons hi ha (ih hq)

/-- A path can be cut between any two of its moves. -/
lemma cut (hp : r.Path s (h ++ k) u) : ∃ t, r.Path s h t ∧ r.Path t k u := by
  induction h generalizing s with
  | nil => exact ⟨s, .nil s, hp⟩
  | cons m h ih =>
    cases hp with
    | cons hi ha hrest =>
      obtain ⟨t, hfirst, hsecond⟩ := ih hrest
      exact ⟨t, .cons hi ha hfirst, hsecond⟩

lemma seat_lt (hp : r.Path s h t) (hi : i ∈ h.map Move.seat) : i < r.seats := by
  induction hp with
  | nil => simp at hi
  | cons hj _ _ ih =>
    rcases List.mem_cons.mp hi with rfl | hi
    · exact hj
    · exact ih hi

lemma fits (hp : r.Path s h t) (hs : s.Fits r.seats) : t.Fits r.seats := by
  induction hp with
  | nil => exact hs
  | cons _ _ _ ih => exact ih (fits_perform hs)

lemma append_course {u : RingState} (hc : u.Course r.seats k s) (hp : r.Path s h t) :
    u.Course r.seats (k ++ h) t := by
  induction hp generalizing k with
  | nil => rwa [List.append_nil]
  | cons hi ha _ ih =>
    rw [List.append_cons]
    exact ih (hc.move r.plan hi ha)

/-- **Every path is a course.** -/
theorem course (hp : r.Path s h t) : s.Course r.seats h t :=
  hp.append_course .start

end Path

end Ring

namespace Simulation

variable {sim : Simulation} {i : ℕ} {a : Action} {schedule : List ℕ}

/-- Whether every step of a schedule is accepted. -/
def accepts (sim : Simulation) : List ℕ → Bool
  | [] => true
  | seat :: schedule =>
    (sim.step seat).result.isOk && accepts (sim.step seat).simulation schedule

/-- A step of a ready seat is accepted. -/
lemma step_of_ready (hs : sim.state.Sound sim.ring.seats) (hi : i < sim.ring.seats)
    (ha : sim.ring.Ready sim.state i a) : (sim.step i).result = .ok a ∧
      (sim.step i).simulation = sim.advance i a (sim.ring.perform sim.state i a) := by
  rcases step_of_sound hs i with ⟨b, _, hb, hres, hsim⟩ | ⟨hres, -⟩
  · obtain rfl := hb.unique ha
    exact ⟨hres, hsim⟩
  · have happ := Ring.apply_of_ready hs hi ha
    have hver := Ring.verify_of_sound (Ring.sound_perform hs hi ha) (sim.steps + 1)
    have hlt : i < sim.seats := hi
    simp [step, hlt, happ, hver] at hres

/-- **A schedule that is accepted follows a path**, one move for each of its entries. -/
theorem path_of_accepts (hs : sim.state.Sound sim.ring.seats)
    (hacc : sim.accepts schedule = true) :
    sim.ring.Path sim.state (sim.history schedule) (sim.play schedule).state ∧
      (sim.history schedule).map Move.seat = schedule := by
  induction schedule generalizing sim with
  | nil => exact ⟨.nil _, rfl⟩
  | cons i schedule ih =>
    rw [accepts, Bool.and_eq_true] at hacc
    rcases step_of_sound hs i with ⟨a, hi, ha, hres, hsim⟩ | ⟨hres, -⟩
    · obtain ⟨hpath, hseats⟩ := ih (sound_step hs i) hacc.2
      rw [hsim] at hpath
      refine ⟨?_, ?_⟩
      · rw [history, play, hres, hsim]
        exact .cons hi ha hpath
      · rw [history, hres, List.map_append, hseats]
        rfl
    · simp [hres, Except.isOk, Except.toBool] at hacc

end Simulation

/-- **A path of a sound simulation is followed by a schedule**: the seats of its moves, all of
which are accepted. -/
theorem Ring.Path.accepts {sim : Simulation} {h : List Move} {t : RingState}
    (hp : sim.ring.Path sim.state h t) (hs : sim.state.Sound sim.ring.seats) :
    sim.accepts (h.map Move.seat) = true ∧ sim.history (h.map Move.seat) = h ∧
      (sim.play (h.map Move.seat)).state = t := by
  induction h generalizing sim with
  | nil =>
    cases hp with
    | nil => exact ⟨rfl, rfl, rfl⟩
  | cons m h ih =>
    cases hp with
    | @cons _ _ i a _ hi ha hrest =>
      obtain ⟨hres, hsim⟩ := Simulation.step_of_ready hs hi ha
      obtain ⟨hacc, hhist, hstate⟩ :=
        ih (by rw [hsim]; exact hrest) (Simulation.sound_step hs i)
      refine ⟨?_, ?_, ?_⟩
      · rw [List.map_cons, Simulation.accepts, hres, hacc]
        rfl
      · rw [List.map_cons, Simulation.history, hres, hhist]
        rfl
      · rw [List.map_cons, Simulation.play, hstate]

end DiningRing
