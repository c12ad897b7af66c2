/-
# Where the forks lie decides deadlock

Under `reversedLast` the seat whose turn it is can always move, whichever fork it reaches
for first.  From the start that `uniform` makes nobody ever gets a right fork, whichever fork
it reaches for first, so that each seat starts to wait, perhaps takes its left fork, and is
stuck.  The order of acquisition, in which the two plans differ at the last seat, changes
neither.
-/
import DiningRing.Proofs.Turn

open Finset (range)

namespace DiningRing

/-! ### A turn is never blocked -/

namespace Ring

open RingState (Sound)

variable {r : Ring} {s : RingState} {i k : ℕ} {a : Action}

/-- A waiting seat in its turn owns both its forks. -/
lemma owns_of_turn (hn : 2 ≤ r.seats) (ht : s.Turn r.seats k) (hs : s.Sound r.seats)
    (hp : (s.diner (k % r.seats)).phase = .waiting) (side : Side) :
    s.owns r.seats (k % r.seats) side = true := by
  have hlt : k % r.seats < r.seats := Nat.mod_lt k (by omega)
  cases side with
  | left => exact (ht.left _ hlt).mpr ⟨rfl, fun h => by simp [h.1] at hp⟩
  | right =>
    -- else the next seat would own it as its left fork, out of its turn
    rw [hs.owns_right hlt, Bool.not_eq_true', Bool.eq_false_iff]
    intro h
    exact Seat.next_ne hn hlt ((ht.left _ (Seat.next_lt hlt)).mp h).1

/-- **The seat whose turn it is can move**, in whichever order it reaches for its forks. -/
theorem exists_ready_of_turn (hn : 2 ≤ r.seats) (ht : s.Turn r.seats k) (hs : s.Sound r.seats) :
    ∃ a, r.Ready s (k % r.seats) a := by
  have hlt : k % r.seats < r.seats := Nat.mod_lt k (by omega)
  cases hp : (s.diner (k % r.seats)).phase with
  | idle => exact ⟨_, .startWaiting hp⟩
  | waiting =>
    cases hm : missing? (r.order (k % r.seats)) (s.diner (k % r.seats)).hands with
    | none => exact ⟨_, .eat hp (missing?_eq_none_iff.mp hm)⟩
    | some side =>
      have howns := owns_of_turn hn ht hs hp side
      have hhand : s.hand (k % r.seats) side = false := holds_of_missing?_eq_some hm
      rw [RingState.owns, hhand, Bool.false_or] at howns
      exact ⟨_, .take side hp hm howns⟩
  | eating => exact ⟨_, .finish hp⟩
  | releasing =>
    obtain ⟨side, hready⟩ := exists_ready_give hs hlt hp
    exact ⟨_, hready⟩

lemma enabled_ne_nil_of_turn (hn : 2 ≤ r.seats) (ht : s.Turn r.seats k)
    (hs : s.Sound r.seats) : r.enabled s ≠ [] := by
  have hmem : k % r.seats ∈ r.enabled s :=
    mem_enabled_iff.mpr ⟨Nat.mod_lt k (by omega), exists_ready_of_turn hn ht hs⟩
  exact List.ne_nil_of_mem hmem

end Ring

/-! ### Without right forks -/

/-- The actions that a diner who never gets its right fork still has before it. -/
def Diner.ahead (d : Diner) : ℕ :=
  match d.phase with
  | .idle => 2
  | .waiting => if d.hands.left then 0 else 1
  | .eating | .releasing => 0

namespace RingState

variable {n i : ℕ} {s t : RingState} {h : List Move}

/-- Nobody has a right fork or one on the way, and nobody has got as far as eating. -/
structure Starved (n : ℕ) (s : RingState) : Prop where
  fits : s.Fits n
  phase : ∀ i < n, (s.diner i).phase = .idle ∧ s.hand i .left = false
    ∨ (s.diner i).phase = .waiting
  right : ∀ i < n, s.owns n i .right = false

/-- A seat without its right fork starts to wait or takes its left fork. -/
lemma Starved.action_of_ready {r : Ring} {a : Action} (hs : s.Starved r.seats) (hi : i < r.seats)
    (h : r.Ready s i a) : a = .startWaiting ∨ a = .take .left := by
  have hright := hs.right i hi
  rw [owns, Bool.or_eq_false_iff] at hright
  have hphase := hs.phase i hi
  cases h with
  | startWaiting => exact .inl rfl
  | take side _ _ hslot =>
    cases side with
    | left => exact .inr rfl
    | right => simp [hright.2] at hslot
  | eat _ hboth =>
    simp only [Hands.both, Bool.and_eq_true] at hboth
    exact absurd hright.1 (by simp [hand, Hands.holds, hboth.2])
  | finish hp => simp [hp] at hphase
  | give side hp => simp [hp] at hphase

end RingState

namespace Ring

open RingState (Starved)

variable {r : Ring} {s : RingState} {i n : ℕ} {a : Action}

/-- **Every step leaves all seats without right forks**, and uses up one of the actions that
are still ahead. -/
theorem starved_perform (hs : s.Starved r.seats) (hi : i < r.seats) (h : r.Ready s i a) :
    (r.perform s i a).Starved r.seats ∧
      ((s.diner i).after a).ahead + 1 = (s.diner i).ahead := by
  have hphase : ((s.diner i).after a).phase = .waiting →
      ∀ j < r.seats, ((r.perform s i a).diner j).phase = .idle
        ∧ ((r.perform s i a).diner j).hands.left = false
        ∨ ((r.perform s i a).diner j).phase = .waiting := fun hw =>
    forall_diner_perform
      (P := fun _ d => d.phase = .idle ∧ d.hands.left = false ∨ d.phase = .waiting)
      hs.fits hi (.inr hw) fun j hj _ => hs.phase j hj
  rcases hs.action_of_ready hi h with rfl | rfl
  · cases h with
    | startWaiting hp =>
      have hleft : (s.diner i).hands.left = false := by
        simpa [hp, RingState.hand, Hands.holds] using hs.phase i hi
      refine ⟨⟨fits_perform hs.fits, hphase rfl, fun j hj => ?_⟩, ?_⟩
      · rw [owns_perform_of_not_transfers hs.fits hi rfl]
        exact hs.right j hj
      · simp [Diner.after, Diner.ahead, hp, hleft]
  · cases h with
    | take _ hp hm hslot =>
      have hleft : (s.diner i).hands.left = false := holds_of_missing?_eq_some hm
      refine ⟨⟨fits_perform hs.fits, hphase hp, fun j hj => ?_⟩, ?_⟩
      · rw [owns_perform_take hs.fits hi hj hslot]
        exact hs.right j hj
      · simp [Diner.after, Diner.ahead, hp, hleft, Hands.set]

/-- The plan `uniform` starts without right forks. -/
theorem starved_initial (n : ℕ) : (Ring.initial ⟨n, .uniform⟩).Starved n where
  fits := Ring.fits_initial ⟨n, .uniform⟩
  phase := by
    intro i hi
    rw [RingState.hand, diner_initial (r := ⟨n, .uniform⟩) hi]
    exact .inl ⟨rfl, rfl⟩
  right := by
    intro i hi
    rw [RingState.owns, RingState.hand, diner_initial (r := ⟨n, .uniform⟩) hi, Slot.inbound,
      towardLeft_initial (r := ⟨n, .uniform⟩) hi]
    rfl

lemma sum_ahead_initial (n : ℕ) :
    ∑ i ∈ range n, ((Ring.initial ⟨n, .uniform⟩).diner i).ahead = 2 * n := by
  have htwo : ∀ i ∈ range n, ((Ring.initial ⟨n, .uniform⟩).diner i).ahead = 2 := by
    intro i hi
    rw [diner_initial (r := ⟨n, .uniform⟩) (Finset.mem_range.mp hi)]
    rfl
  rw [Finset.sum_const_nat htwo, Finset.card_range, Nat.mul_comm]

end Ring

/-- **Over every course without right forks** nobody eats, and each move uses up one of the
actions that were ahead at the start. -/
theorem RingState.Course.starved {n : ℕ} {s t : RingState} {h : List Move}
    (hc : s.Course n h t) (hs : s.Starved n) :
    t.Starved n ∧ (∀ m ∈ h, m.action ≠ .eat) ∧
      h.length + ∑ i ∈ range n, (t.diner i).ahead = ∑ i ∈ range n, (s.diner i).ahead := by
  induction hc with
  | start => exact ⟨hs, by simp, by simp⟩
  | @move h t i a p before hi hready ih =>
    obtain ⟨ht, hnoeat, hsum⟩ := ih
    obtain ⟨hstarved, hahead⟩ := Ring.starved_perform (r := ⟨n, p⟩) ht hi hready
    refine ⟨hstarved, fun m hm => ?_, ?_⟩
    · rcases List.mem_append.mp hm with hm | hm
      · exact hnoeat m hm
      · obtain rfl := List.mem_singleton.mp hm
        rcases ht.action_of_ready (r := ⟨n, p⟩) hi hready with rfl | rfl <;> simp
    · have hstep := Ring.sum_perform (r := ⟨n, p⟩) (a := a) Diner.ahead ht.fits hi
      simp only [List.length_append, List.length_singleton] at hstep ⊢
      omega

/-! ### Both plans on one state -/

/-- The plan `reversedLast` has a seat that reaches for its right fork first. -/
lemma Plan.hasReversedSeat_reversedLast {n : ℕ} (hn : 2 ≤ n) :
    Plan.reversedLast.hasReversedSeat n = true := by
  rw [hasReversedSeat, table, List.any_map, List.any_eq_true]
  refine ⟨n - 1, List.mem_range.mpr (by omega), ?_⟩
  have h₀ : n - 1 ≠ 0 := by omega
  have h₁ : n - 1 + 1 = n := by omega
  simp [assign, h₀, h₁]

/-- **Where the forks lie decides deadlock, not the order of acquisition.**  From the start of
`reversedLast`, however calls of the rings of both plans are mixed, both have a seat that can
move.  From the start of `uniform`, however they are mixed, nobody ever eats and at most
`2 * n` calls make a move, although the ring of `reversedLast` has a reversed seat. -/
theorem placement_decides_deadlock {n : ℕ} (hn : 2 ≤ n) :
    (∀ p, Ring.lay n p = .ok ⟨n, p⟩) ∧
    (∀ calls : List Ring.Call, (∀ c ∈ calls, c.seat < n) →
      let s := (Ring.initial ⟨n, .reversedLast⟩).after n calls
      ∀ p, Ring.enabled ⟨n, p⟩ s ≠ []) ∧
    Plan.reversedLast.hasReversedSeat n = true ∧
    ∀ calls : List Ring.Call, (∀ c ∈ calls, c.seat < n) →
      let moves := (Ring.initial ⟨n, .uniform⟩).moves n calls
      (∀ m ∈ moves, m.action ≠ .eat) ∧ moves.length ≤ 2 * n := by
  refine ⟨Ring.lay_eq_ok hn, fun calls hseats => ?_, Plan.hasReversedSeat_reversedLast hn,
    fun calls hseats => ?_⟩
  · intro s p
    have hsound := Ring.sound_initial (r := ⟨n, .reversedLast⟩) hn
    have hc := RingState.course_after hsound hseats
    obtain ⟨k, hturn⟩ := hc.turn hsound (Ring.turn_initial n)
    exact Ring.enabled_ne_nil_of_turn (r := ⟨n, p⟩) hn hturn (hc.sound hsound)
  · intro moves
    have hsound := Ring.sound_initial (r := ⟨n, .uniform⟩) hn
    obtain ⟨-, hnoeat, hsum⟩ :=
      (RingState.course_after hsound hseats).starved (Ring.starved_initial n)
    rw [Ring.sum_ahead_initial] at hsum
    exact ⟨hnoeat, hsum ▸ Nat.le_add_right _ _⟩

/-- At a table of three the same calls of both plans leave a seat that can move in one case
and, after six moves without a meal, none in the other. -/
theorem placement_decides_deadlock_at_three :
    2 ≤ 3 ∧
    let calls : List Ring.Call := [⟨.reversedLast, 2⟩, ⟨.reversedLast, 2⟩, ⟨.uniform, 2⟩,
      ⟨.uniform, 0⟩, ⟨.reversedLast, 0⟩, ⟨.uniform, 1⟩, ⟨.reversedLast, 1⟩]
    let held := (Ring.initial ⟨3, .reversedLast⟩).after 3 calls
    let uniform := Ring.initial ⟨3, .uniform⟩
    Ring.enabled ⟨3, .uniform⟩ held ≠ [] ∧
      (∀ m ∈ uniform.moves 3 calls, m.action ≠ .eat) ∧
      (uniform.moves 3 calls).length = 6 ∧
      Ring.enabled ⟨3, .reversedLast⟩ (uniform.after 3 calls) = [] := by
  obtain ⟨-, hheld, -, huniform⟩ := placement_decides_deadlock (n := 3) (by decide)
  refine ⟨by decide, hheld _ (by decide) .uniform, (huniform _ (by decide)).1, ?_, ?_⟩
  · decide
  · decide

end DiningRing
