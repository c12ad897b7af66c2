/-
# What a simulation counts

A simulation numbers its steps and keeps a tally for each seat.  Over a course of moves the
steps are as many as the moves, and the meals of a seat as many as the times it started to
eat.
-/
import DiningRing.Proofs.Course

namespace DiningRing

namespace Simulation

variable {i j : ℕ} {sim t : Simulation} {h : List Move} {a : Action} {s : RingState}

/-- A simulation that keeps a tally for each of its seats. -/
def Tallied (sim : Simulation) : Prop := sim.tallies.size = sim.ring.seats

lemma tallied_begin (r : Ring) (sink : Sink) : (Simulation.begin r sink).Tallied :=
  Array.size_replicate

lemma tally_begin (r : Ring) (sink : Sink) (i : ℕ) :
    (Simulation.begin r sink).tally i = .zero := by
  simp [tally, Simulation.begin, Array.getD_eq_getD_getElem?, Array.getElem?_replicate]
  split_ifs <;> rfl

lemma meals_begin (r : Ring) (sink : Sink) (i : ℕ) : (Simulation.begin r sink).meals i = 0 := by
  rw [meals, tally_begin]
  rfl

/-! ### Reports -/

lemma toList_tallies (ht : sim.Tallied) :
    sim.tallies.toList = (List.range sim.ring.seats).map sim.tally := by
  have hsize : sim.tallies.size = sim.ring.seats := ht
  refine List.ext_getElem (by simpa using hsize) fun i hi _ => ?_
  rw [Array.length_toList] at hi
  simp [tally, Array.getD_eq_getD_getElem?, hi]

lemma meals_report (ht : sim.Tallied) (name : String) (o : Outcome) :
    (sim.report name o).meals = (List.range sim.ring.seats).map sim.meals := by
  show sim.tallies.toList.map Tally.meals = _
  rw [toList_tallies ht, List.map_map]
  rfl

lemma longestWait_report (ht : sim.Tallied) (name : String) (o : Outcome) :
    (sim.report name o).longestWait
      = (List.range sim.ring.seats).map fun i => (sim.tally i).longestWait := by
  show sim.tallies.toList.map Tally.longestWait = _
  rw [toList_tallies ht, List.map_map]
  rfl

lemma firstMeal_report (ht : sim.Tallied) (name : String) (o : Outcome) :
    (sim.report name o).firstMeal
      = (List.range sim.ring.seats).map fun i => (sim.tally i).firstMeal := by
  show sim.tallies.toList.map Tally.firstMeal = _
  rw [toList_tallies ht, List.map_map]
  rfl

/-! ### The tallies after a step -/

lemma Tallied.advance (ht : sim.Tallied) : (sim.advance i a s).Tallied := by
  simpa [Tallied, Simulation.advance] using ht

lemma tally_advance_self (ht : sim.Tallied) (hi : i < sim.ring.seats) :
    (sim.advance i a s).tally i = (sim.tally i).after a (sim.steps + 1) := by
  have hlt : i < sim.tallies.size := by rw [ht]; exact hi
  simp only [tally, Simulation.advance, Array.getD_eq_getD_getElem?, Array.getElem?_modify]
  simp [hlt]

lemma tally_advance_ne (hji : j ≠ i) : (sim.advance i a s).tally j = sim.tally j := by
  simp [tally, Simulation.advance, Array.getD_eq_getD_getElem?, Array.getElem?_modify, hji.symm]

lemma meals_after (t : Tally) (a : Action) (step : ℕ) :
    (t.after a step).meals = t.meals + if a = .eat then 1 else 0 := by
  cases a <;> simp [Tally.after, Tally.eatAt]

lemma meals_advance (ht : sim.Tallied) (hi : i < sim.ring.seats) (j : ℕ) :
    (sim.advance i a s).meals j = sim.meals j + if a = .eat ∧ i = j then 1 else 0 := by
  by_cases hji : j = i
  · subst hji
    rw [meals, tally_advance_self ht hi, meals_after, meals]
    simp
  · rw [meals, tally_advance_ne hji, meals, if_neg (fun h => hji h.2.symm), Nat.add_zero]

lemma actions_advance (ht : sim.Tallied) (hi : i < sim.ring.seats) (j : ℕ) :
    (sim.advance i a s).actions j = sim.actions j + if i = j then 1 else 0 := by
  by_cases hji : j = i
  · subst hji
    rw [actions, tally_advance_self ht hi, actions]
    cases a <;> simp [Tally.after, Tally.eatAt]
  · rw [actions, tally_advance_ne hji, actions, if_neg (Ne.symm hji), Nat.add_zero]

/-! ### The tallies after a course -/

lemma Course.tallied (hc : Course sim h t) (hsim : sim.Tallied) : t.Tallied := by
  induction hc with
  | start => exact hsim
  | move _ _ _ ih => exact ih.advance

lemma Course.steps_eq (hc : Course sim h t) : t.steps = sim.steps + h.length := by
  induction hc with
  | start => rfl
  | move _ _ _ ih => simp [Simulation.advance, ih]; omega

/-- **The meals of a seat** are the times it started to eat. -/
theorem Course.meals_eq (hc : Course sim h t) (hsim : sim.Tallied) (j : ℕ) :
    t.meals j = sim.meals j + (eaters h).count j := by
  induction hc with
  | start => simp [eaters]
  | @move h t i a before hi _ ih =>
    rw [meals_advance (before.tallied hsim) hi, ih, eaters_append, List.count_append, Nat.add_assoc]
    congr 1
    by_cases ha : a = .eat
    · simp [ha, List.count_singleton]
    · simp [ha, eaters_of_ne_eat i ha]

end Simulation

end DiningRing
