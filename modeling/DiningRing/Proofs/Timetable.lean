/-
# The timetable of meals

At a table of `n` where nobody is late, turn `k` brings a meal at `Pacing.mealTime n k`.  It
begins when the meal before it is over and its seat has asked for forks, and a seat asks for
them when it has thought since its last meal, that of turn `k - n`.  This is the recurrence
`Pacing.mealTime_succ`: of the two times the later one counts.

Either all others need longer to eat than a seat needs to think, or the table rests until the
first seat is hungry again; hence the `max` for each round.
-/
import DiningRing.Live.Philosopher
import DiningRing.Proofs.TableOrder

namespace DiningRing

/-! ### Turns of a seat -/

section

variable {n m i q : ℕ}

/-- A seat whose turn it is has had one turn in each round. -/
lemma turnsOf_mod (hn : 0 < n) (m : ℕ) : turnsOf n m (m % n) = m / n := by
  have hturns := mul_turnsOf_mod hn m
  have hm := Nat.div_add_mod m n
  exact Nat.eq_of_mul_eq_mul_left hn (by omega)

/-- The last turn of a seat is over. -/
lemma mul_lt_of_turnsOf (hi : i < n) (hq : turnsOf n m i = q + 1) : n * q + i < m := by
  have hle := mul_turnsOf_le hi m
  rw [hq, Nat.mul_succ] at hle
  omega

end

namespace Pacing

variable {pc : Pacing} {n k q i j c : ℕ}

/-- The time from a meal of a seat to its next one. -/
def round (pc : Pacing) (n : ℕ) : ℕ := max (n * pc.eat) (pc.think + pc.eat)

/-- The time at which the meal of turn `k` begins. -/
def mealTime (pc : Pacing) (n k : ℕ) : ℕ := pc.think + k % n * pc.eat + k / n * pc.round n

/-- The time at which seat `i` asks for forks when it has eaten so often. -/
def askTime (pc : Pacing) (n i : ℕ) : ℕ → ℕ
  | 0 => pc.think
  | meals + 1 => pc.mealTime n (n * meals + i) + pc.eat + pc.think

lemma mealTime_mul_add (hi : i < n) (q : ℕ) :
    pc.mealTime n (n * q + i) = pc.think + i * pc.eat + q * pc.round n := by
  have hmod : (n * q + i) % n = i := by rw [Nat.mul_add_mod, Nat.mod_eq_of_lt hi]
  have hdiv : (n * q + i) / n = q := by
    rw [Nat.mul_add_div (by omega), Nat.div_eq_of_lt hi, Nat.add_zero]
  rw [mealTime, hmod, hdiv]

lemma mealTime_zero (pc : Pacing) (n : ℕ) : pc.mealTime n 0 = pc.think := by
  simp [mealTime]

/-- Within a round, seats ask for forks before the meal ahead of theirs is over. -/
lemma askTime_le_of_lt (hi : i + 1 < n) (q : ℕ) :
    pc.askTime n (i + 1) q ≤ pc.mealTime n (n * q + i) + pc.eat := by
  rw [mealTime_mul_add (by omega)]
  cases q with
  | zero =>
    rw [askTime]
    omega
  | succ q =>
    have hround : pc.think + pc.eat ≤ pc.round n := le_max_right _ _
    rw [askTime, mealTime_mul_add hi, Nat.succ_mul, Nat.succ_mul]
    omega

/-- **The recurrence of meals**: a meal begins as soon as the one before it is over and its
seat has asked for forks. -/
theorem mealTime_succ (hn : 0 < n) (k : ℕ) : pc.mealTime n (k + 1)
    = max (pc.mealTime n k + pc.eat) (pc.askTime n ((k + 1) % n) ((k + 1) / n)) := by
  obtain ⟨i, q, hi, rfl⟩ : ∃ i q, i < n ∧ n * q + i = k :=
    ⟨k % n, k / n, Nat.mod_lt k hn, Nat.div_add_mod k n⟩
  rcases Nat.lt_or_ge (i + 1) n with hnext | hlast
  · -- the next seat of the same round
    have hmod : (n * q + i + 1) % n = i + 1 := by
      rw [Nat.add_assoc, Nat.mul_add_mod, Nat.mod_eq_of_lt hnext]
    have hdiv : (n * q + i + 1) / n = q := by
      rw [Nat.add_assoc, Nat.mul_add_div hn, Nat.div_eq_of_lt hnext, Nat.add_zero]
    rw [hmod, hdiv, max_eq_left (askTime_le_of_lt hnext q), mealTime_mul_add hi, Nat.add_assoc,
      mealTime_mul_add hnext, Nat.succ_mul]
    omega
  · -- the first seat, one round later
    have hround : n * q + i + 1 = n * (q + 1) + 0 := by
      rw [Nat.mul_succ]
      omega
    have hmod : (n * q + i + 1) % n = 0 := by rw [hround, Nat.mul_add_mod, Nat.zero_mod]
    have hdiv : (n * q + i + 1) / n = q + 1 := by
      rw [hround, Nat.mul_add_div hn, Nat.zero_div, Nat.add_zero]
    have heat : n * pc.eat = i * pc.eat + pc.eat := by
      rw [← Nat.succ_mul]
      congr 1
      omega
    rw [hmod, hdiv, askTime, mealTime_mul_add hi, mealTime_mul_add hn, hround,
      mealTime_mul_add hn, Nat.succ_mul, round, heat]
    omega

/-! ### Bounds -/

lemma mealTime_add_le (hn : 0 < n) (k : ℕ) :
    pc.mealTime n k + pc.eat ≤ pc.mealTime n (k + 1) := by
  rw [mealTime_succ hn]
  exact le_max_left _ _

lemma mealTime_mono (pc : Pacing) (hn : 0 < n) : Monotone (pc.mealTime n) :=
  monotone_nat_of_le_succ fun k => (Nat.le_add_right _ _).trans (mealTime_add_le hn k)

/-- A seat has asked for forks when its meal begins. -/
lemma askTime_le_mealTime (hn : 0 < n) (k : ℕ) :
    pc.askTime n (k % n) (turnsOf n k (k % n)) ≤ pc.mealTime n k := by
  rw [turnsOf_mod hn]
  cases k with
  | zero =>
    rw [Nat.zero_div, mealTime_zero]
    exact le_refl _
  | succ k =>
    rw [mealTime_succ hn]
    exact le_max_right _ _

/-- It is time for a meal when the one before it is over and its seat has asked for forks. -/
lemma mealTime_le (hn : 0 < n) (hbefore : ∀ j, j + 1 = k → pc.mealTime n j + pc.eat ≤ c)
    (hask : pc.askTime n (k % n) (turnsOf n k (k % n)) ≤ c) : pc.mealTime n k ≤ c := by
  rw [turnsOf_mod hn] at hask
  cases k with
  | zero =>
    rw [mealTime_zero]
    rwa [Nat.zero_div] at hask
  | succ k =>
    rw [mealTime_succ hn]
    exact max_le (hbefore k rfl) hask

/-- When a seat has eaten, it asks again after it has thought. -/
lemma askTime_turnsOf_succ (pc : Pacing) (hn : 0 < n) (k : ℕ) :
    pc.askTime n (k % n) (turnsOf n (k + 1) (k % n)) = pc.mealTime n k + pc.eat + pc.think := by
  rw [turnsOf_succ (Nat.mod_lt k hn), if_pos rfl, turnsOf_mod hn, askTime, Nat.div_add_mod]

/-- Whoever does not think asks at once. -/
lemma askTime_le_of_think (hi : i < n) (hthink : pc.think = 0)
    (hbefore : ∀ j, j + 1 = k → pc.mealTime n j + pc.eat ≤ c) :
    pc.askTime n i (turnsOf n k i) ≤ c := by
  cases hturns : turnsOf n k i with
  | zero =>
    rw [askTime, hthink]
    exact Nat.zero_le c
  | succ q =>
    have hlt := mul_lt_of_turnsOf hi hturns
    obtain ⟨j, rfl⟩ : ∃ j, j + 1 = k := ⟨k - 1, by omega⟩
    have hmono := pc.mealTime_mono (show 0 < n by omega) (Nat.lt_succ_iff.mp hlt)
    have hlast := hbefore j rfl
    rw [askTime, hthink]
    omega

end Pacing

end DiningRing
