/-
# Whose turn it is

Under `reversedLast` the first seat starts with both of its forks and every other seat
without its left one.  From there the left forks tell whose turn it is: exactly one seat has
its left fork in hand or on the way, and only that seat eats.  While it hands back, between
its two forks, no seat has one; with its right fork the turn goes to the next seat.

`RingState.Turn n s k` says this of a state in which `k` turns have been passed on, so that
it is the turn of seat `k % n`.  The order in which a seat reaches for its forks plays no part
in it.
-/
import DiningRing.Proofs.Course

namespace DiningRing

/-- Whether a diner eats or hands back. -/
def Phase.busy : Phase → Bool
  | .idle | .waiting => false
  | .eating | .releasing => true

/-- The turns that an action passes on. -/
def Action.passes : Action → ℕ
  | .give .right => 1
  | .startWaiting | .take _ | .eat | .finish | .give .left => 0

namespace RingState

variable {n i k : ℕ} {s t : RingState}

/-- Whether the fork on a side of a seat is in its hand or on its way to it. -/
def owns (n : ℕ) (s : RingState) (i : ℕ) (side : Side) : Bool :=
  s.hand i side || s.slot (Slot.inbound n i side)

/-- A seat that hands back has given its left fork and not yet its right one. -/
def Passing (s : RingState) (i : ℕ) : Prop :=
  (s.diner i).phase = .releasing ∧ s.hand i .left = false

/-- After `k` turns it is the turn of seat `k % n`. -/
structure Turn (n : ℕ) (s : RingState) (k : ℕ) : Prop where
  /-- Only the seat whose turn it is eats or hands back. -/
  busy : ∀ i < n, (s.diner i).phase.busy = true → i = k % n
  /-- Only that seat has its left fork or will get it, until it gives it away. -/
  left : ∀ i < n, s.owns n i .left = true ↔ i = k % n ∧ ¬ s.Passing i

/-- At most one seat of the whole table eats or hands back. -/
lemma Turn.busy_unique (ht : s.Turn n k) {i j : ℕ} (hi : i < n) (hj : j < n)
    (hbi : (s.diner i).phase.busy = true) (hbj : (s.diner j).phase.busy = true) : i = j := by
  rw [ht.busy i hi hbi, ht.busy j hj hbj]

/-- A seat that owns its right fork is one whose next seat does not own its left one. -/
lemma Sound.owns_right (hs : s.Sound n) (hi : i < n) :
    s.owns n i .right = !s.owns n (Seat.next n i) .left := by
  have hone := hs.one_place hi .right
  simp only [owns, ← Slot.outbound_right hi]
  simp only [Seat.neighbor, Side.opposite] at hone
  revert hone
  cases s.hand i .right <;> cases s.hand (Seat.next n i) .left <;>
    cases s.slot (Slot.inbound n i .right) <;> cases s.slot (Slot.outbound n i .right) <;> simp

end RingState

/-! ### Owning forks, step by step -/

namespace Ring

open RingState (Sound)

variable {r : Ring} {s : RingState} {i j k : ℕ} {a : Action} {side other : Side}

lemma owns_perform_of_not_transfers (hs : s.Fits r.seats) (hi : i < r.seats)
    (ha : a.transfers = false) (j : ℕ) (other : Side) :
    (r.perform s i a).owns r.seats j other = s.owns r.seats j other := by
  rw [RingState.owns, RingState.owns, hand_perform_of_not_transfers hs hi ha,
    slot_perform_of_not_transfers ha]

/-- Taking a fork that has arrived changes the owner of none. -/
lemma owns_perform_take (hs : s.Fits r.seats) (hi : i < r.seats) (hj : j < r.seats)
    (h : s.slot (Slot.inbound r.seats i side) = true) (other : Side) :
    (r.perform s i (.take side)).owns r.seats j other = s.owns r.seats j other := by
  simp only [RingState.owns, hand_perform_take hs hi, slot_perform_take hs hi,
    Slot.inbound_inj hj hi]
  split_ifs with heq
  · obtain ⟨rfl, rfl⟩ := heq
    simp [h]
  · rfl

/-- A seat that gives its left fork no longer owns it, and no other left fork changes hands. -/
lemma owns_left_perform_give_left (hs : s.Sound r.seats) (hi : i < r.seats)
    (h : s.hand i .left = true) (j : ℕ) : (r.perform s i (.give .left)).owns r.seats j .left
      = if j = i then false else s.owns r.seats j .left := by
  have hslot : Slot.inbound r.seats j .left ≠ Slot.outbound r.seats i .left := by
    simp [Slot.inbound, Slot.outbound]
  simp only [RingState.owns, hand_perform_give hs.fits hi, slot_perform_give hs.fits hi, hslot,
    and_true, if_false]
  split_ifs with heq
  · rw [heq, hs.inbound_of_hand hi h]
    rfl
  · rfl

/-- A seat that gives its right fork makes it the left fork of the next seat. -/
lemma owns_left_perform_give_right (hs : s.Sound r.seats) (hi : i < r.seats) (hj : j < r.seats) :
    (r.perform s i (.give .right)).owns r.seats j .left
      = if j = Seat.next r.seats i then true else s.owns r.seats j .left := by
  have hslot : Slot.inbound r.seats j .left = Slot.outbound r.seats i .right
      ↔ j = Seat.next r.seats i := by
    rw [Slot.outbound_right hi, Slot.inbound_inj hj (Seat.next_lt hi)]
    simp
  simp only [RingState.owns, hand_perform_give hs.fits hi, slot_perform_give hs.fits hi, hslot,
    reduceCtorEq, and_false, if_false]
  split_ifs <;> simp

/-! ### Turns, step by step -/

lemma passing_perform_self (hs : s.Sound r.seats) (hi : i < r.seats) :
    (r.perform s i a).Passing i ↔ ((s.diner i).after a).phase = .releasing
      ∧ ((s.diner i).after a).hands.left = false := by
  rw [RingState.Passing, RingState.hand, diner_perform_self hs.fits hi]
  rfl

lemma passing_perform_ne (hji : j ≠ i) : (r.perform s i a).Passing j ↔ s.Passing j := by
  rw [RingState.Passing, RingState.Passing, RingState.hand, diner_perform_ne hji, RingState.hand]

/-- Nobody but the seat that moves becomes busy. -/
lemma busy_perform (ht : s.Turn r.seats k) (hs : s.Sound r.seats) (hi : i < r.seats)
    (hseat : ((s.diner i).after a).phase.busy = true → i = k % r.seats) :
    ∀ j < r.seats, ((r.perform s i a).diner j).phase.busy = true → j = k % r.seats :=
  forall_diner_perform (P := fun j d => d.phase.busy = true → j = k % r.seats) hs.fits hi hseat
    fun j hj _ => ht.busy j hj

/-- A step that changes no owner of a left fork, by a seat that is not between giving its two
forks, keeps the turn. -/
lemma turn_keep (ht : s.Turn r.seats k) (hs : s.Sound r.seats) (hi : i < r.seats)
    (hseat : ((s.diner i).after a).phase.busy = true → i = k % r.seats)
    (howns : ∀ j < r.seats, (r.perform s i a).owns r.seats j .left = s.owns r.seats j .left)
    (hbefore : ¬ s.Passing i) (hafter : ¬ (r.perform s i a).Passing i) :
    (r.perform s i a).Turn r.seats k where
  busy := busy_perform ht hs hi hseat
  left := by
    intro j hj
    rw [howns j hj, ht.left j hj]
    by_cases hji : j = i
    · rw [hji]
      simp [hbefore, hafter]
    · rw [passing_perform_ne hji]

/-- When a seat gives its left fork, it is its turn and nobody owns a left fork any more. -/
lemma turn_give_left (ht : s.Turn r.seats k) (hs : s.Sound r.seats) (hi : i < r.seats)
    (hp : (s.diner i).phase = .releasing) (hret : returning? (s.diner i).hands = some .left) :
    (r.perform s i (.give .left)).Turn r.seats k := by
  have hturn : i = k % r.seats := ht.busy i hi (by rw [hp]; rfl)
  have hpass : (r.perform s i (.give .left)).Passing i := by
    rw [passing_perform_self hs hi]
    have hright : (s.diner i).hands.right = true := hs.releasing i hi hp
    simp [Diner.after, Hands.set, Hands.neither, hright, hp]
  refine ⟨busy_perform ht hs hi fun _ => hturn, fun j hj => ?_⟩
  rw [owns_left_perform_give_left hs hi (holds_of_returning?_eq_some hret)]
  by_cases hji : j = i
  · subst hji
    simp [hpass]
  · rw [if_neg hji, ht.left j hj, ← hturn]
    simp [hji]

/-- When a seat gives its right fork, nobody is busy any more. -/
lemma not_busy_after_give_right (ht : s.Turn r.seats k) (hs : s.Sound r.seats) (hi : i < r.seats)
    (hp : (s.diner i).phase = .releasing) (hret : returning? (s.diner i).hands = some .right) :
    ∀ j < r.seats, ((r.perform s i (.give .right)).diner j).phase.busy = false := by
  refine forall_diner_perform (P := fun _ d => d.phase.busy = false) hs.fits hi ?_
    fun j hj hji => ?_
  · have hleft : (s.diner i).hands.left = false := left_of_returning?_eq_some hret
    simp [Diner.after, Hands.set, Hands.neither, hleft, Phase.busy]
  · rw [Bool.eq_false_iff]
    intro hb
    exact hji (ht.busy_unique hj hi hb (by rw [hp]; rfl))

/-- When a seat gives its right fork, the turn goes to the next seat. -/
lemma turn_give_right (ht : s.Turn r.seats k) (hs : s.Sound r.seats) (hi : i < r.seats)
    (hp : (s.diner i).phase = .releasing) (hret : returning? (s.diner i).hands = some .right) :
    (r.perform s i (.give .right)).Turn r.seats (k + 1) := by
  have hturn : i = k % r.seats := ht.busy i hi (by rw [hp]; rfl)
  have hnext : (k + 1) % r.seats = Seat.next r.seats i := by rw [hturn, Seat.next_mod]
  have hfree := not_busy_after_give_right ht hs hi hp hret
  refine ⟨fun j hj hb => absurd hb (by simp [hfree j hj]), fun j hj => ?_⟩
  have hnopass : ¬ (r.perform s i (.give .right)).Passing j := by
    intro h
    have hbusy := hfree j hj
    rw [h.1] at hbusy
    simp [Phase.busy] at hbusy
  -- the seat has given its left fork before, so that nobody owns a left fork until now
  have hnone : s.owns r.seats j .left = false := by
    rw [Bool.eq_false_iff]
    intro h
    obtain ⟨hj', hnp⟩ := (ht.left j hj).mp h
    rw [← hturn] at hj'
    exact hnp (by rw [hj']; exact ⟨hp, left_of_returning?_eq_some hret⟩)
  rw [owns_left_perform_give_right hs hi hj, hnone, hnext]
  simp [hnopass]

/-- **Every step keeps turns**: giving a right fork passes the turn on, all else leaves it. -/
theorem turn_perform (ht : s.Turn r.seats k) (hs : s.Sound r.seats) (hi : i < r.seats)
    (h : r.Ready s i a) : (r.perform s i a).Turn r.seats (k + a.passes) := by
  have hself := passing_perform_self (a := a) hs hi
  have hbefore : (s.diner i).phase ≠ .releasing → ¬ s.Passing i := fun hne hpass => hne hpass.1
  cases h with
  | startWaiting hp =>
    refine turn_keep ht hs hi (by simp [Diner.after, Phase.busy])
      (fun j _ => owns_perform_of_not_transfers hs.fits hi rfl j .left) (hbefore (by simp [hp])) ?_
    rw [hself]
    simp [Diner.after]
  | take side hp _ hslot =>
    refine turn_keep ht hs hi (by simp [Diner.after, hp, Phase.busy])
      (fun j hj => owns_perform_take hs.fits hi hj hslot .left) (hbefore (by simp [hp])) ?_
    rw [hself]
    simp [Diner.after, hp]
  | eat hp hboth =>
    -- whoever has both forks owns its left one, so that it is its turn
    have hnp : ¬ s.Passing i := hbefore (by simp [hp])
    have hleft : s.owns r.seats i .left = true := by
      simp only [Hands.both, Bool.and_eq_true] at hboth
      simp [RingState.owns, RingState.hand, Hands.holds, hboth.1]
    refine turn_keep ht hs hi (fun _ => ((ht.left i hi).mp hleft).1)
      (fun j _ => owns_perform_of_not_transfers hs.fits hi rfl j .left) hnp ?_
    rw [hself]
    simp [Diner.after]
  | finish hp =>
    refine turn_keep ht hs hi (fun _ => ht.busy i hi (by rw [hp]; rfl))
      (fun j _ => owns_perform_of_not_transfers hs.fits hi rfl j .left) (hbefore (by simp [hp])) ?_
    have hleft : (s.diner i).hands.left = true := hs.both_of_eating hi hp .left
    rw [hself]
    simp [Diner.after, hleft]
  | give side hp hret _ =>
    cases side with
    | left => exact turn_give_left ht hs hi hp hret
    | right => exact turn_give_right ht hs hi hp hret

end Ring

/-! ### Turns of a ring -/

/-- Under `reversedLast` the first turn is that of the first seat. -/
theorem Ring.turn_initial (n : ℕ) :
    (Ring.initial ⟨n, .reversedLast⟩).Turn n 0 where
  busy := by
    intro i hi hb
    rw [Ring.diner_initial (r := ⟨n, .reversedLast⟩) hi] at hb
    simp [Phase.busy] at hb
  left := by
    intro i hi
    have hdiner := Ring.diner_initial (r := ⟨n, .reversedLast⟩) hi
    have hslot := Ring.towardRight_initial (r := ⟨n, .reversedLast⟩) (Seat.previous_lt hi)
    rw [RingState.owns, RingState.hand, RingState.Passing, hdiner, Slot.inbound, hslot]
    simp only [Ring.assignment, Seat.next_previous hi, Hands.holds, Assignment.hands,
      Plan.left_reversedLast]
    by_cases h : i = 0 <;> simp [h]

/-- **Over every course somebody has the turn.** -/
theorem RingState.Course.turn {n k : ℕ} {s t : RingState} {h : List Move} (hc : s.Course n h t)
    (hs : s.Sound n) (hturn : s.Turn n k) : ∃ m, t.Turn n m := by
  induction hc with
  | start => exact ⟨k, hturn⟩
  | @move h t i a p before hi hready ih =>
    obtain ⟨m, ht⟩ := ih
    exact ⟨_, Ring.turn_perform (r := ⟨n, p⟩) ht (before.sound hs) hi hready⟩

end DiningRing
