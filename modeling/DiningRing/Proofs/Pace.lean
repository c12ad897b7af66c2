/-
# The pace of meals

A round of a diner has seven actions: it starts to wait, takes two forks, starts to eat,
stops, and hands back two forks.  `Diner.stage` says how many of them lie behind a diner.
Every move brings one diner one stage further, and the move that passes the turn on closes a
round, so that the moves of a whole table are told by its turns and its stages
(`Ring.paced_perform`).

What remains is to bound the stages.  A seat out of its turn has no left fork, and after its
first meal no right one either, since it reaches for the left one first; only the last seat
does not.  So nearly all seats are at stage one at most, and the scheduler can neither hurry
nor delay a meal by more than about one move for each of them.
-/
import DiningRing.Proofs.TableOrder
import Mathlib.Algebra.Order.BigOperators.Group.Finset

open Finset (range)

namespace DiningRing

/-! ### Stages -/

namespace Hands

variable {h : Hands} {side : Side}

lemma count_le_two (h : Hands) : h.count ≤ 2 := by
  have hl := Bool.toNat_le h.left
  have hr := Bool.toNat_le h.right
  rw [count]
  omega

lemma count_of_both (hb : h.both = true) : h.count = 2 := by
  simp only [both, Bool.and_eq_true] at hb
  simp [count, hb.1, hb.2]

lemma count_set_true (hh : h.holds side = false) : (h.set side true).count = h.count + 1 := by
  cases side with
  | left => simp_all [count, set, holds, Nat.add_comm]
  | right => simp_all [count, set, holds]

lemma count_set_false (hh : h.holds side = true) : (h.set side false).count + 1 = h.count := by
  cases side with
  | left => simp_all [count, set, holds, Nat.add_comm]
  | right => simp_all [count, set, holds]

end Hands

namespace Diner

variable {d : Diner}

/-- The stage of a diner in its round of seven actions.  A fork in hand counts as an action
already made, so that whoever starts with forks enters its first round at a later stage. -/
def stage (d : Diner) : ℕ :=
  match d.phase with
  | .idle => d.hands.count
  | .waiting => d.hands.count + 1
  | .eating => d.hands.count + 2
  | .releasing => 7 - d.hands.count

lemma stage_le (d : Diner) : d.stage ≤ 1 + d.hands.count + 6 * d.phase.busy.toNat := by
  rw [stage]
  cases d.phase <;> simp only [Phase.busy, Bool.toNat_false, Bool.toNat_true] <;> omega

lemma one_le_stage_of_waiting (hp : d.phase = .waiting) : 1 ≤ d.stage := by
  rw [stage, hp]
  exact Nat.le_add_left _ _

lemma four_le_stage_of_busy (hb : d.phase.busy = true)
    (heat : d.phase = .eating → d.hands.both = true) : 4 ≤ d.stage := by
  have hle := d.hands.count_le_two
  rw [stage]
  cases hp : d.phase with
  | idle | waiting => simp [hp, Phase.busy] at hb
  | eating => simp [Hands.count_of_both (heat hp)]
  | releasing =>
    show 4 ≤ 7 - d.hands.count
    omega

end Diner

namespace Ring

open RingState (Sound)

variable {r : Ring} {s : RingState} {i : ℕ} {a : Action}

/-- **Every move brings a diner one stage further**, and the one that passes the turn on
closes its round. -/
theorem stage_after (hs : s.Sound r.seats) (hi : i < r.seats) (h : r.Ready s i a) :
    ((s.diner i).after a).stage + 7 * a.passes = (s.diner i).stage + 1 := by
  cases h with
  | startWaiting hp => simp [Diner.after, Diner.stage, hp, Action.passes]
  | take side hp hm =>
    have hcount := Hands.count_set_true (holds_of_missing?_eq_some hm)
    simp [Diner.after, Diner.stage, hp, Action.passes, hcount]
  | eat hp => simp [Diner.after, Diner.stage, hp, Action.passes]
  | finish hp =>
    have hcount := Hands.count_of_both (hs.eating i hi hp)
    simp [Diner.after, Diner.stage, hp, Action.passes, hcount]
  | give side hp hret =>
    have hcount := Hands.count_set_false (holds_of_returning?_eq_some hret)
    have hright : (s.diner i).hands.right = true := hs.releasing i hi hp
    have hle := (s.diner i).hands.count_le_two
    cases side with
    | left =>
      have hsome : ((s.diner i).hands.set .left false).neither = false := by
        simp [Hands.neither, Hands.set, hright]
      simp only [Diner.after, Diner.stage, hp, Action.passes, hsome, Bool.false_eq_true, if_false]
      omega
    | right =>
      -- the last fork: seven stages back at once, and one turn further
      have hleft := left_of_returning?_eq_some hret
      have hnone : ((s.diner i).hands.set .right false).neither = true := by
        simp [Hands.neither, Hands.set, hleft]
      have hone : (s.diner i).hands.count = 1 := by simp [Hands.count, hleft, hright]
      simp only [Diner.after, Diner.stage, hp, Action.passes, hnone, if_true]
      omega

/-- Under either plan only the last seat may reach for its right fork first. -/
lemma order_eq_leftThenRight (hi : i + 1 ≠ r.seats) : r.order i = .leftThenRight := by
  rw [order, assignment]
  cases r.plan with
  | uniform => rfl
  | reversedLast =>
    simp only [Plan.assign, hi, if_false]
    split_ifs <;> rfl

end Ring

/-! ### States at their pace -/

namespace RingState

variable {n T k i : ℕ} {s : RingState}

/-- What `T` moves from the start of `reversedLast` lead to, if `k` turns have been passed
on. -/
structure Paced (n : ℕ) (s : RingState) (T k : ℕ) : Prop where
  sound : s.Sound n
  turn : s.Turn n k
  /-- Each turn has taken seven moves, the diners' forks at the start apart. -/
  pace : T + n = 7 * k + ∑ i ∈ range n, (s.diner i).stage
  /-- After its first meal no seat but the last has only its right fork, before it hands
  back. -/
  lean : ∀ i, i + 1 < n → s.hand i .right = true →
    s.hand i .left = true ∨ (s.diner i).phase = .releasing ∨ s.begun n k ≤ i

lemma Turn.not_busy (ht : s.Turn n k) (hi : i < n) (hne : i ≠ k % n) :
    (s.diner i).phase.busy = false := by
  rw [Bool.eq_false_iff]
  exact fun hb => hne (ht.busy i hi hb)

/-- Seats out of their turn have no left fork. -/
lemma Turn.left_eq_false (ht : s.Turn n k) (hi : i < n) (hne : i ≠ k % n) :
    s.hand i .left = false := by
  rw [Bool.eq_false_iff]
  intro h
  exact hne ((ht.left i hi).mp (by rw [owns, h, Bool.true_or])).1

/-- Out of its turn a seat is at stage one at most, or at two if it is the last one or has
not eaten yet. -/
lemma Paced.stage_le_of_ne (hp : s.Paced n T k) (hi : i < n) (hne : i ≠ k % n) :
    (s.diner i).stage ≤ 1 + if s.begun n k ≤ i ∨ i + 1 = n then 1 else 0 := by
  have hfree := hp.turn.not_busy hi hne
  have hleft : (s.diner i).hands.left = false := hp.turn.left_eq_false hi hne
  have hstage := (s.diner i).stage_le
  rw [hfree, Hands.count, hleft] at hstage
  split_ifs with hexempt
  · have hright := Bool.toNat_le (s.diner i).hands.right
    simp only [Bool.toNat_false] at hstage
    omega
  · rw [not_or] at hexempt
    have hright : (s.diner i).hands.right = false := by
      rw [Bool.eq_false_iff]
      intro h
      rcases hp.lean i (by omega) h with hl | hrel | hlate
      · exact absurd hl (by simp [hand, Hands.holds, hleft])
      · simp [hrel, Phase.busy] at hfree
      · exact hexempt.1 hlate
    simpa [hright] using hstage

/-! ### Bounds on all stages together -/

lemma stage_le_sum (s : RingState) (hi : i < n) :
    (s.diner i).stage ≤ ∑ j ∈ range n, (s.diner j).stage :=
  Finset.single_le_sum (f := fun j => (s.diner j).stage) (fun _ _ => Nat.zero_le _)
    (Finset.mem_range.mpr hi)

/-- A sum is bounded term by term, one term being allowed some more. -/
lemma sum_le_sum_add {f g : ℕ → ℕ} {c x : ℕ} (hc : c < n) (hself : f c ≤ g c + x)
    (hother : ∀ i < n, i ≠ c → f i ≤ g i) :
    ∑ i ∈ range n, f i ≤ ∑ i ∈ range n, g i + x := by
  have hmem : c ∈ range n := Finset.mem_range.mpr hc
  have hrest : ∑ i ∈ (range n).erase c, f i ≤ ∑ i ∈ (range n).erase c, g i :=
    Finset.sum_le_sum fun i hi =>
      hother i (Finset.mem_range.mp (Finset.mem_of_mem_erase hi)) (Finset.ne_of_mem_erase hi)
  rw [← Finset.add_sum_erase _ f hmem, ← Finset.add_sum_erase _ g hmem]
  omega

lemma sum_one_add (n : ℕ) (f : ℕ → ℕ) :
    ∑ i ∈ range n, (1 + f i) = n + ∑ i ∈ range n, f i := by
  rw [Finset.sum_add_distrib, Finset.sum_const_nat fun _ _ => rfl, Finset.card_range,
    Nat.mul_one]

lemma sum_ite_le_self (n m : ℕ) : ∑ i ∈ range n, (if m ≤ i then 1 else 0) = n - m := by
  induction n with
  | zero => simp
  | succ n ih =>
    rw [Finset.sum_range_succ, ih]
    split_ifs <;> omega

lemma Sound.sum_count_le (hs : s.Sound n) : ∑ i ∈ range n, (s.diner i).hands.count ≤ n := by
  have hin : s.inHand = ∑ i ∈ range n, (s.diner i).hands.count := inHand_eq_sum hs.fits
  have htotal := hs.inHand_add_inFlight
  omega

/-- Forks in hand and seats that wait make up the stages, as long as nobody is busy. -/
lemma Paced.sum_stage_le (hn : 0 < n) (hp : s.Paced n T k) :
    ∑ i ∈ range n, (s.diner i).stage ≤ 2 * n + 6 * (s.diner (k % n)).phase.busy.toNat := by
  have hle := sum_le_sum_add (f := fun i => (s.diner i).stage)
    (g := fun i => 1 + (s.diner i).hands.count) (Nat.mod_lt k hn) (s.diner (k % n)).stage_le
    fun i hi hne => by
      have h := (s.diner i).stage_le
      rwa [hp.turn.not_busy hi hne] at h
  have hcount := hp.sound.sum_count_le
  rw [sum_one_add] at hle
  omega

/-- Until everybody has eaten, whoever has done so is at stage one at most. -/
lemma Paced.sum_stage_le_of_lt (hp : s.Paced n T k) (hlt : s.begun n k < n) :
    ∑ i ∈ range n, (s.diner i).stage + s.begun n k
      ≤ 2 * n + 1 + 7 * (s.diner (k % n)).phase.busy.toNat := by
  have hk : k < n := by rw [begun] at hlt; omega
  have hmod : k % n = k := Nat.mod_eq_of_lt hk
  -- in the first round the turn is that of seat `k`, and the seats from `begun` on have not eaten
  have hself : (s.diner k).stage ≤ (1 + if s.begun n k ≤ k then 1 else 0)
      + (1 + 7 * (s.diner k).phase.busy.toNat) := by
    have hstage := (s.diner k).stage_le
    have hcount := (s.diner k).hands.count_le_two
    rw [begun, hmod]
    split_ifs <;> omega
  have hle := sum_le_sum_add (f := fun i => (s.diner i).stage)
    (g := fun i => 1 + if s.begun n k ≤ i then 1 else 0) hk hself fun i hi hne => by
      have h := hp.stage_le_of_ne hi (by rw [hmod]; exact hne)
      have hlast : (s.begun n k ≤ i ∨ i + 1 = n) ↔ s.begun n k ≤ i := by omega
      simpa only [hlast] using h
  rw [hmod]
  rw [sum_one_add, sum_ite_le_self] at hle
  omega

/-- Once everybody has eaten, nearly all seats are at stage one at most between two meals. -/
lemma Paced.sum_stage_le_of_le (hn : 0 < n) (hp : s.Paced n T k) (hle : n ≤ k)
    (hfree : (s.diner (k % n)).phase.busy = false) :
    ∑ i ∈ range n, (s.diner i).stage ≤ n + 3 := by
  -- beside the seat whose turn it is only the last seat may have a fork
  have hself : (s.diner (k % n)).stage ≤ (1 + if n - 1 ≤ k % n then 1 else 0) + 2 := by
    have hstage := (s.diner (k % n)).stage_le
    have hcount := (s.diner (k % n)).hands.count_le_two
    rw [hfree, Bool.toNat_false] at hstage
    omega
  have hsum := sum_le_sum_add (f := fun i => (s.diner i).stage)
    (g := fun i => 1 + if n - 1 ≤ i then 1 else 0) (Nat.mod_lt k hn) hself fun i hi hne => by
      have h := hp.stage_le_of_ne hi hne
      have hlast : (s.begun n k ≤ i ∨ i + 1 = n) ↔ n - 1 ≤ i := by
        rw [begun]
        omega
      simpa only [hlast] using h
  rw [sum_one_add, sum_ite_le_self] at hsum
  omega

/-! ### Moves and meals -/

/-- **Moves are at most seven for each meal**, and one more for each seat. -/
theorem Paced.moves_le (hn : 0 < n) (hp : s.Paced n T k) : T ≤ 7 * s.begun n k + n := by
  have hpace := hp.pace
  have hsum := hp.sum_stage_le hn
  rw [begun]
  omega

/-- **Meals take at least seven moves each**, but for those that the forks in hand at the
start spare and those that finish the last meal. -/
theorem Paced.meals_le (hn : 0 < n) (hp : s.Paced n T k) : 7 * s.begun n k ≤ T + n + 3 := by
  have hpace := hp.pace
  rw [begun]
  cases hb : (s.diner (k % n)).phase.busy with
  | false =>
    rw [Bool.toNat_false]
    omega
  | true =>
    have hlt := Nat.mod_lt k hn
    have hfour := Diner.four_le_stage_of_busy hb (hp.sound.eating _ hlt)
    have hone := s.stage_le_sum hlt
    rw [Bool.toNat_true]
    omega

/-- Until everybody has eaten, moves are at most six for each meal. -/
theorem Paced.moves_le_of_lt (hp : s.Paced n T k) (hlt : s.begun n k < n) :
    T ≤ 6 * s.begun n k + n + 1 := by
  have hpace := hp.pace
  have hsum := hp.sum_stage_le_of_lt hlt
  rw [begun] at hsum ⊢
  omega

/-- Once everybody has eaten, moves are at most seven for each turn between two meals. -/
theorem Paced.moves_le_of_le (hn : 0 < n) (hp : s.Paced n T k) (hle : n ≤ k)
    (hfree : (s.diner (k % n)).phase.busy = false) : T ≤ 7 * k + 3 := by
  have hpace := hp.pace
  have hsum := hp.sum_stage_le_of_le hn hle hfree
  omega

end RingState

/-! ### Moves keep the pace -/

namespace Ring

open RingState (Paced)

variable {r : Ring} {s : RingState} {i k n T : ℕ} {a : Action}

/-- No move leaves a seat other than the last with only its right fork after its first
meal. -/
lemma lean_perform (hp : s.Paced r.seats T k) (hi : i < r.seats) (h : r.Ready s i a) {j : ℕ}
    (hj : j + 1 < r.seats) (hright : (r.perform s i a).hand j .right = true) :
    (r.perform s i a).hand j .left = true ∨ ((r.perform s i a).diner j).phase = .releasing ∨
      (r.perform s i a).begun r.seats (k + a.passes) ≤ j := by
  obtain ⟨hbegun, hseat⟩ := begun_perform hp.turn hp.sound hi h
  by_cases hji : j = i
  · subst hji
    rw [RingState.hand, diner_perform_self hp.sound.fits hi] at hright ⊢
    rw [hbegun]
    cases h with
    | startWaiting hidle =>
      rcases hp.lean j hj hright with hl | hrel | hlate
      · exact .inl hl
      · simp [hidle] at hrel
      · exact .inr (.inr hlate)
    | take side _ hm =>
      cases side with
      | left => exact .inl rfl
      | right =>
        -- here the seat has followed its order
        rw [order_eq_leftThenRight (by omega)] at hm
        have hl : (s.diner j).hands.left = true := left_of_missing?_eq_some hm
        exact .inl hl
    | eat _ hboth =>
      simp only [Hands.both, Bool.and_eq_true] at hboth
      exact .inl hboth.1
    | finish => exact .inr (.inl rfl)
    | give side hrel =>
      refine .inr (.inl ?_)
      have hsome : ((s.diner j).hands.set side false).neither = false := by
        rw [Hands.neither, Bool.and_eq_false_iff]
        right
        simpa [Diner.after, Hands.holds] using hright
      simp [Diner.after, hsome, hrel]
  · rw [RingState.hand, diner_perform_ne hji] at hright ⊢
    rcases hp.lean j hj hright with hl | hrel | hlate
    · exact .inl hl
    · exact .inr (.inl hrel)
    · -- a meal that begins is not that of seat `j`, so that its first one is still to come
      refine .inr (.inr ?_)
      rw [hbegun]
      split_ifs with ha
      · have hne := hseat ha
        rw [Nat.mod_eq_of_lt (by omega)] at hne
        omega
      · exact hlate

/-- **Every move keeps the pace.** -/
theorem paced_perform (hp : s.Paced r.seats T k) (hi : i < r.seats) (h : r.Ready s i a) :
    (r.perform s i a).Paced r.seats (T + 1) (k + a.passes) where
  sound := sound_perform hp.sound hi h
  turn := turn_perform hp.turn hp.sound hi h
  pace := by
    have hpace := hp.pace
    have hstage := stage_after hp.sound hi h
    have hsum := sum_perform (a := a) Diner.stage hp.sound.fits hi
    omega
  lean := fun _ hj hright => lean_perform hp hi h hj hright

/-- The start of `reversedLast` is at its pace: all forks are in hand. -/
theorem paced_initial (hn : 2 ≤ n) : (initial ⟨n, .reversedLast⟩).Paced n 0 0 where
  sound := sound_initial (r := ⟨n, .reversedLast⟩) hn
  turn := turn_initial n
  pace := by
    have hs := sound_initial (r := ⟨n, .reversedLast⟩) hn
    have hstage : ∑ i ∈ range n, ((initial ⟨n, .reversedLast⟩).diner i).stage
        = (initial ⟨n, .reversedLast⟩).inHand := by
      rw [RingState.inHand_eq_sum hs.fits]
      refine Finset.sum_congr rfl fun i hi => ?_
      rw [RingState.hand, RingState.hand,
        diner_initial (r := ⟨n, .reversedLast⟩) (Finset.mem_range.mp hi)]
      rfl
    have hflight : (initial ⟨n, .reversedLast⟩).inFlight = 0 := by
      rw [RingState.inFlight_eq_sum hs.fits]
      refine Finset.sum_eq_zero fun e he => ?_
      rw [towardRight_initial (r := ⟨n, .reversedLast⟩) (Finset.mem_range.mp he),
        towardLeft_initial (r := ⟨n, .reversedLast⟩) (Finset.mem_range.mp he), assignment,
        assignment, Plan.left_reversedLast, Plan.right_reversedLast hn]
      split_ifs <;> rfl
    have htotal := hs.inHand_add_inFlight
    rw [hflight] at htotal
    rw [hstage]
    simpa using htotal.symm
  lean := by
    intro i hi _
    right; right
    rw [begun_initial (show 0 < n by omega)]
    exact Nat.zero_le i

end Ring

end DiningRing
