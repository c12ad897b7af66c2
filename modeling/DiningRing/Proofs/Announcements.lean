/-
# What a course announces

A diner announces when it starts to wait, when it starts to eat and when it stops eating; it
takes forks and hands them back in silence.  So the moves of a course tell the whole trace:
who eats in it (`eatingOrder_announced`), what the sink of a simulation has recorded
(`Simulation.Course.sink_eq`), and that each seat for itself runs through waiting, eating and
finished, as far as its phase tells (`RingState.Course.ofSeat_announced`).
-/
import DiningRing.Proofs.Course

namespace DiningRing

/-! ### Events of moves -/

/-- The events that moves announce, in order. -/
def announced (moves : List Move) : List Event :=
  moves.filterMap fun m => Simulation.eventOf? m.seat m.action

lemma announced_append (h k : List Move) : announced (h ++ k) = announced h ++ announced k :=
  List.filterMap_append

lemma announced_moves (i : ℕ) (as : List Action) :
    announced (as.map (Move.mk i)) = as.filterMap (Simulation.eventOf? i) := by
  rw [announced, List.filterMap_map]
  rfl

/-- Those who start to eat in a trace are those who made the move. -/
lemma eatingOrder_announced (h : List Move) : Trace.eatingOrder (announced h) = eaters h := by
  induction h with
  | nil => rfl
  | cons m h ih =>
    obtain ⟨i, a⟩ := m
    rw [← List.singleton_append, announced_append, eaters_append, ← ih, Trace.eatingOrder,
      List.filter_append, List.map_append]
    cases a <;> rfl

lemma Sink.recordAll_append (s : Sink) (events later : List Event) :
    s.recordAll (events ++ later) = (s.recordAll events).recordAll later :=
  List.foldl_append

/-- **The sink of a simulation has recorded what its course announced.** -/
theorem Simulation.Course.sink_eq {sim t : Simulation} {h : List Move} (hc : Course sim h t) :
    t.sink = sim.sink.recordAll (announced h) := by
  induction hc with
  | start => rfl
  | @move h t i a _ _ _ ih =>
    rw [announced_append, Sink.recordAll_append, ← ih]
    cases a <;> rfl

/-! ### Rounds -/

namespace Trace

/-- The transitions of a number of rounds. -/
def rounds (m : ℕ) : List Transition :=
  (List.replicate m [.waiting, .eating, .finished]).flatten

lemma rounds_succ (m : ℕ) : rounds (m + 1) = rounds m ++ [.waiting, .eating, .finished] := by
  simp [rounds, List.replicate_succ']

lemma ofSeat_append (i : ℕ) (events later : List Event) :
    ofSeat i (events ++ later) = ofSeat i events ++ ofSeat i later := by
  simp [ofSeat]

lemma ofSeat_announced_self (i : ℕ) (a : Action) :
    ofSeat i (announced [⟨i, a⟩]) = a.transition?.toList := by
  cases a <;> simp [ofSeat, announced, Simulation.eventOf?, Action.transition?]

lemma ofSeat_announced_ne {i j : ℕ} (hji : j ≠ i) (a : Action) :
    ofSeat j (announced [⟨i, a⟩]) = [] := by
  cases a <;> simp [ofSeat, announced, Simulation.eventOf?, Action.transition?, hji.symm]

end Trace

/-- What a diner has announced of the round in which it is. -/
def Phase.announced : Phase → List Transition
  | idle | releasing => []
  | waiting => [.waiting]
  | eating => [.waiting, .eating]

lemma Phase.announced_prefix (p : Phase) : p.announced <+: [.waiting, .eating, .finished] := by
  cases p <;> decide

/-- An action announces the next transition of the round. -/
lemma Ring.Ready.announced_after {r : Ring} {s : RingState} {i : ℕ} {a : Action}
    (h : r.Ready s i a) : (s.diner i).phase.announced ++ a.transition?.toList
      = (if a = .finish then [.waiting, .eating, .finished] else [])
        ++ ((s.diner i).after a).phase.announced := by
  cases h with
  | startWaiting hp | take _ hp | eat hp | finish hp =>
    simp [Diner.after, hp, Phase.announced, Action.transition?]
  | give side hp =>
    -- idle or not, nothing of a round is announced
    have hafter : ((s.diner i).after (.give side)).phase.announced = [] := by
      simp only [Diner.after, hp]
      split_ifs <;> rfl
    rw [hafter, hp]
    rfl

namespace RingState

variable {n : ℕ} {s t : RingState} {h : List Move}

/-- **Each seat runs through its rounds**: from a state in which nobody has announced anything
of a round, what a seat has announced are whole rounds and the part that its phase tells. -/
theorem Course.ofSeat_announced (hc : s.Course n h t) (hs : s.Fits n)
    (hidle : ∀ i < n, (s.diner i).phase.announced = []) :
    t.Fits n ∧ ∀ i < n, ∃ m,
      Trace.ofSeat i (announced h) = Trace.rounds m ++ (t.diner i).phase.announced := by
  -- on the course: the seat that moves goes on in its round, all others stay where they are
  induction hc with
  | start => exact ⟨hs, fun i hi => ⟨0, by rw [hidle i hi]; rfl⟩⟩
  | @move h t i a p _ hi hready ih =>
    obtain ⟨ht, ih⟩ := ih
    refine ⟨Ring.fits_perform ht, fun j hj => ?_⟩
    obtain ⟨m, hm⟩ := ih j hj
    rw [announced_append, Trace.ofSeat_append, hm]
    by_cases hji : j = i
    · subst hji
      rw [Trace.ofSeat_announced_self, List.append_assoc, hready.announced_after,
        Ring.diner_perform_self (r := ⟨n, p⟩) ht hi]
      split_ifs with hfinish
      · exact ⟨m + 1, by rw [Trace.rounds_succ, List.append_assoc]⟩
      · exact ⟨m, by rw [List.nil_append]⟩
    · rw [Trace.ofSeat_announced_ne hji, Ring.diner_perform_ne hji, List.append_nil]
      exact ⟨m, rfl⟩

/-- The trace of each seat of a ring is a beginning of its rounds. -/
theorem Course.ofSeat_prefix_rounds {p : Plan} (hc : (Ring.initial ⟨n, p⟩).Course n h t) {i : ℕ}
    (hi : i < n) : ∃ m, Trace.ofSeat i (announced h) <+: Trace.rounds m := by
  have hidle : ∀ i < n, ((Ring.initial ⟨n, p⟩).diner i).phase.announced = [] := by
    intro i hi
    rw [Ring.diner_initial (r := ⟨n, p⟩) hi]
    rfl
  obtain ⟨-, hrounds⟩ := hc.ofSeat_announced (Ring.fits_initial ⟨n, p⟩) hidle
  obtain ⟨m, hm⟩ := hrounds i hi
  refine ⟨m + 1, ?_⟩
  rw [hm, Trace.rounds_succ]
  exact (List.prefix_append_right_inj _).mpr (Phase.announced_prefix _)

end RingState

end DiningRing
