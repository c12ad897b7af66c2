/-
# Going round the table

`Seat.next` and `Seat.previous` are inverse to each other on the seats of a table, and no
seat of a table of at least two is its own neighbour.  Edge `e` therefore joins the right
side of exactly one seat, `e`, with the left side of exactly one seat, the next one; slots
belong to edges, so that no two seats share a slot on the same side.
-/
import DiningRing.Ring
import Mathlib.Tactic.ByContra
import Mathlib.Tactic.Lemma
import Mathlib.Tactic.SplitIfs
import Mathlib.Data.Nat.Notation

namespace DiningRing

/-! ### Cyclic steps -/

namespace Seat

variable {n i j : ℕ}

lemma next_eq_ite (hi : i < n) : next n i = if i + 1 = n then 0 else i + 1 := by
  unfold next
  split_ifs with h
  · rw [h, Nat.mod_self]
  · exact Nat.mod_eq_of_lt (by omega)

lemma previous_eq_ite (hi : i < n) : previous n i = if i = 0 then n - 1 else i - 1 := by
  unfold previous
  split_ifs with h
  · have hsum : i + n - 1 = n - 1 := by omega
    rw [hsum, Nat.mod_eq_of_lt (by omega)]
  · have hsum : i + n - 1 = i - 1 + n := by omega
    rw [hsum, Nat.add_mod_right, Nat.mod_eq_of_lt (by omega)]

lemma next_lt (hi : i < n) : next n i < n :=
  Nat.mod_lt _ (by omega)

lemma previous_lt (hi : i < n) : previous n i < n :=
  Nat.mod_lt _ (by omega)

lemma next_previous (hi : i < n) : next n (previous n i) = i := by
  rw [next_eq_ite (previous_lt hi), previous_eq_ite hi]
  split_ifs <;> omega

lemma previous_next (hi : i < n) : previous n (next n i) = i := by
  rw [previous_eq_ite (next_lt hi), next_eq_ite hi]
  by_cases h : i + 1 = n
  · rw [if_pos h, if_pos rfl]
    omega
  · rw [if_neg h, if_neg (Nat.succ_ne_zero i), Nat.add_sub_cancel]

/-- The seat after `j` is `i` exactly when the seat before `i` is `j`. -/
lemma next_eq_iff (hj : j < n) (hi : i < n) : next n j = i ↔ j = previous n i := by
  constructor
  · rintro rfl
    exact (previous_next hj).symm
  · rintro rfl
    exact next_previous hi

lemma previous_inj (hi : i < n) (hj : j < n) : previous n i = previous n j ↔ i = j := by
  rw [eq_comm, ← next_eq_iff (previous_lt hj) hi, next_previous hj, eq_comm]

lemma next_ne (hn : 2 ≤ n) (hi : i < n) : next n i ≠ i := by
  rw [next_eq_ite hi]
  split_ifs <;> omega

/-- Taking turns by number goes round the table. -/
lemma next_mod (n k : ℕ) : next n (k % n) = (k + 1) % n := by
  rw [next, Nat.mod_add_mod]

/-! ### Either side of a seat -/

/-- The seat with which a seat shares the fork on a side. -/
def neighbor (n seat : ℕ) : Side → ℕ
  | .left => previous n seat
  | .right => next n seat

/-- The edge on a side of a seat. -/
def edge (n seat : ℕ) : Side → ℕ
  | .left => previous n seat
  | .right => seat

lemma edge_lt (hi : i < n) (side : Side) : edge n i side < n := by
  cases side with
  | left => exact previous_lt hi
  | right => exact hi

/-- What passes from a seat to the next one goes round the whole table. -/
lemma forall_of_next {P : ℕ → Prop} (hi : i < n) (h : P i)
    (hnext : ∀ k < n, P k → P (next n k)) : ∀ j < n, P j := by
  have hround : ∀ k, P ((i + k) % n) := by
    intro k
    induction k with
    | zero => rwa [Nat.add_zero, Nat.mod_eq_of_lt hi]
    | succ k ih =>
      rw [← Nat.add_assoc, ← next_mod]
      exact hnext _ (Nat.mod_lt _ (by omega)) ih
  intro j hj
  have hround := hround (n - i + j)
  rwa [← Nat.add_assoc, Nat.add_sub_cancel' (Nat.le_of_lt hi), Nat.add_mod_left,
    Nat.mod_eq_of_lt hj] at hround

/-- So does what passes from a seat to the neighbour on one side. -/
lemma forall_of_neighbor {P : ℕ → Prop} (hi : i < n) (h : P i) (side : Side)
    (hneighbor : ∀ k < n, P k → P (neighbor n k side)) : ∀ j < n, P j := by
  cases side with
  | right => exact forall_of_next hi h hneighbor
  | left =>
    -- what does not hold of a seat does not hold of the next one either
    intro j hj
    by_contra hP
    refine forall_of_next (P := fun k => ¬ P k) hj hP (fun k hk hPk hnext => hPk ?_) i hi h
    have hback := hneighbor _ (next_lt hk) hnext
    rwa [neighbor, previous_next hk] at hback

/-- Seen from the neighbour on a side, a seat is the neighbour on the opposite side. -/
lemma neighbor_neighbor (hi : i < n) (side : Side) :
    neighbor n (neighbor n i side) side.opposite = i := by
  cases side with
  | left => exact next_previous hi
  | right => exact previous_next hi

end Seat

namespace Side

lemma opposite_ne (side : Side) : side.opposite ≠ side := by
  cases side <;> simp [opposite]

lemma exists_iff {P : Side → Prop} : (∃ side, P side) ↔ P .left ∨ P .right := by
  constructor
  · rintro ⟨side, h⟩
    cases side with
    | left => exact .inl h
    | right => exact .inr h
  · rintro (h | h)
    · exact ⟨_, h⟩
    · exact ⟨_, h⟩

end Side

/-! ### Slots -/

namespace Slot

variable {n i j : ℕ} {side other : Side}

lemma inbound_inj (hi : i < n) (hj : j < n) :
    inbound n i side = inbound n j other ↔ i = j ∧ side = other := by
  cases side <;> cases other <;> simp [inbound, Seat.previous_inj hi hj]

lemma outbound_inj (hi : i < n) (hj : j < n) :
    outbound n i side = outbound n j other ↔ i = j ∧ side = other := by
  cases side <;> cases other <;> simp [outbound, Seat.previous_inj hi hj]

lemma inbound_ne_outbound (n i : ℕ) (side : Side) : inbound n i side ≠ outbound n i side := by
  cases side <;> simp [inbound, outbound]

/-- What goes out on the right of a seat arrives on the left of the next seat. -/
lemma outbound_right (hi : i < n) : outbound n i .right = inbound n (Seat.next n i) .left := by
  rw [inbound, Seat.previous_next hi, outbound]

end Slot

end DiningRing
