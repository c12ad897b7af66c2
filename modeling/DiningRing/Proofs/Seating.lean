/-
# The state at the start

Both plans put one fork on every edge of a ring of at least two, so every such ring can be
laid, and it starts in a sound state.
-/
import DiningRing.Proofs.Soundness

namespace DiningRing

variable {n i e : ℕ} {p : Plan} {r : Ring}

/-! ### Laying a ring -/

namespace Plan

/-- Under `reversedLast` only the first seat starts with its left fork. -/
lemma left_reversedLast (n i : ℕ) :
    (assign reversedLast i n).left = if i = 0 then .held else .away := by
  simp only [assign]
  split_ifs <;> rfl

/-- Under `reversedLast` all seats but the last start with their right fork. -/
lemma right_reversedLast (hn : 2 ≤ n) (i : ℕ) :
    (assign reversedLast i n).right = if i + 1 = n then .away else .held := by
  simp only [assign]
  split_ifs
  · omega
  all_goals rfl

lemma forksOn_eq_one (hn : 2 ≤ n) (he : e < n) (p : Plan) : p.forksOn n e = 1 := by
  cases p with
  | uniform => rfl
  | reversedLast =>
    rw [forksOn, right_reversedLast hn, left_reversedLast, Seat.next_eq_ite he]
    by_cases h : e + 1 = n
    · simp [h, Placement.carriesFork]
    · simp [h, Placement.carriesFork]

lemma validate_eq_ok (hn : 2 ≤ n) (p : Plan) : p.validate n = .ok () := by
  have hfind : (List.range n).find? (fun e => p.forksOn n e != 1) = none := by
    rw [List.find?_eq_none]
    intro e he
    simp [p.forksOn_eq_one hn (List.mem_range.mp he)]
  rw [validate, if_neg (by omega), hfind]

end Plan

/-- **Every ring of at least two seats can be laid**, under either plan. -/
theorem Ring.lay_eq_ok (hn : 2 ≤ n) (p : Plan) : Ring.lay n p = .ok ⟨n, p⟩ := by
  rw [lay, if_neg (by omega), p.validate_eq_ok hn]

/-! ### The initial state -/

namespace Ring

lemma fits_initial (r : Ring) : r.initial.Fits r.seats :=
  ⟨Array.size_ofFn, Array.size_ofFn, Array.size_ofFn⟩

lemma diner_initial (hi : i < r.seats) :
    r.initial.diner i = ⟨.idle, (r.assignment i).hands⟩ := by
  simp [initial, RingState.diner, Array.getD_eq_getD_getElem?, hi]

lemma towardRight_initial (he : e < r.seats) : r.initial.slot (.towardRight e)
    = ((r.assignment (Seat.next r.seats e)).left == .incoming) := by
  simp [initial, RingState.slot, Array.getD_eq_getD_getElem?, he, startsFull]

lemma towardLeft_initial (he : e < r.seats) :
    r.initial.slot (.towardLeft e) = ((r.assignment e).right == .incoming) := by
  simp [initial, RingState.slot, Array.getD_eq_getD_getElem?, he, startsFull]

lemma forksOn_initial (he : e < r.seats) :
    r.initial.forksOn r.seats e = r.plan.forksOn r.seats e := by
  have hplace : ∀ p : Placement, (p == .held).toNat + (p == .incoming).toNat
      = p.carriesFork.toNat := by
      intro p
      cases p <;> rfl
  have hright := hplace (r.assignment e).right
  have hleft := hplace (r.assignment (Seat.next r.seats e)).left
  simp only [RingState.forksOn, RingState.hand, diner_initial he, diner_initial (Seat.next_lt he),
    towardRight_initial he, towardLeft_initial he, Hands.holds, Assignment.hands, Plan.forksOn,
    assignment] at hright hleft ⊢
  omega

/-- **Every ring starts in a sound state.** -/
theorem sound_initial (hn : 2 ≤ r.seats) : r.initial.Sound r.seats where
  fits := r.fits_initial
  oneFork := fun e he => by rw [forksOn_initial he, r.plan.forksOn_eq_one hn he]
  eating := fun i hi hp => by simp [diner_initial hi] at hp
  releasing := fun i hi hp => by simp [diner_initial hi] at hp

end Ring

end DiningRing
