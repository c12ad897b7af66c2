/-
# A lap of round robin

Round robin goes on from a cursor: of the seats that it is given it chooses the one to which the
cursor comes first (`Scheduler.ahead_seatFrom?_le`), and leaves the cursor behind it.  What it is
given may change from one choice to the next in any way.  A seat that is among the seats each time
has at first fewer others before it than there are seats, and every choice of another one leaves it
with fewer still: the one that is chosen, and all that the cursor has passed on the way, have fallen
behind.  So the seat is chosen before the cursor is round.

Main statement: `Scheduler.round_robin_serves_within_a_lap`.
-/
import DiningRing.Proofs.Choices
import DiningRing.Proofs.Neighbours
import Mathlib.Data.List.Forall2

namespace DiningRing

/-- The seats of a ring that can move are named in ascending order. -/
lemma Ring.ascending_enabled (r : Ring) (s : RingState) :
    (r.enabled s).Pairwise (· < ·) ∧ ∀ seat ∈ r.enabled s, seat < r.seats :=
  ⟨List.pairwise_lt_range.filter _, fun _ h => List.mem_range.mp (List.mem_filter.mp h).1⟩

namespace Scheduler

variable {n cursor seat chosen : ℕ} {seats : List ℕ} {turns : List (Simulation × List ℕ)}

/-! ### Several choices -/

/-- What a scheduler chooses when it is asked several times, each time about some seats of a
simulation. -/
def choices (s : Scheduler) : List (Simulation × List ℕ) → List (Option ℕ)
  | [] => []
  | (sim, seats) :: turns => (s.pick sim seats).1 :: choices (s.pick sim seats).2 turns

/-- The scheduler after that. -/
def after (s : Scheduler) : List (Simulation × List ℕ) → Scheduler
  | [] => s
  | (sim, seats) :: turns => after (s.pick sim seats).2 turns

/-- An answer to a turn: one of the seats, or none if there are none. -/
def Answers (turn : Simulation × List ℕ) (choice : Option ℕ) : Prop :=
  (∃ seat ∈ turn.2, choice = some seat) ∨ turn.2 = [] ∧ choice = none

/-- Round robin stays round robin, and answers every turn. -/
lemma pick_roundRobin (hn : 0 < n) (turn : Simulation × List ℕ) (hturn : turn.1.seats = n)
    (hcursor : cursor < n) : ∃ next < n,
      ((roundRobin cursor).pick turn.1 turn.2).2 = roundRobin next ∧
        Answers turn ((roundRobin cursor).pick turn.1 turn.2).1 := by
  cases hseat : seatFrom? cursor turn.2 with
  | none =>
    have hempty : turn.2 = [] := by
      by_contra hseats
      obtain ⟨seat, hsome⟩ := exists_seatFrom? hseats cursor
      rw [hsome] at hseat
      cases hseat
    exact ⟨cursor, hcursor, by simp [pick, hseat], .inr ⟨hempty, by simp [pick, hseat]⟩⟩
  | some seat =>
    exact ⟨(seat + 1) % n, Nat.mod_lt _ hn, by simp [pick, hseat, hturn],
      .inl ⟨seat, mem_of_seatFrom? hseat, by simp [pick, hseat]⟩⟩

lemma after_roundRobin (hn : 0 < n) (hturns : ∀ turn ∈ turns, turn.1.seats = n)
    (hcursor : cursor < n) : ∃ next < n, (roundRobin cursor).after turns = roundRobin next := by
  induction turns generalizing cursor with
  | nil => exact ⟨cursor, hcursor, rfl⟩
  | cons turn turns ih =>
    obtain ⟨next, hnext, hpick, -⟩ :=
      pick_roundRobin hn turn (hturns turn List.mem_cons_self) hcursor
    rw [after, hpick]
    exact ih (fun t ht => hturns t (List.mem_cons_of_mem _ ht)) hnext

lemma choices_roundRobin (hn : 0 < n) (hturns : ∀ turn ∈ turns, turn.1.seats = n)
    (hcursor : cursor < n) : List.Forall₂ Answers turns ((roundRobin cursor).choices turns) := by
  induction turns generalizing cursor with
  | nil => exact .nil
  | cons turn turns ih =>
    obtain ⟨next, hnext, hpick, hanswer⟩ :=
      pick_roundRobin hn turn (hturns turn List.mem_cons_self) hcursor
    rw [choices, hpick]
    exact .cons hanswer (ih (fun t ht => hturns t (List.mem_cons_of_mem _ ht)) hnext)

/-! ### The way of the cursor -/

/-- The seats of a table of `n` that a cursor passes before it comes to a seat. -/
def ahead (n cursor seat : ℕ) : ℕ :=
  if cursor ≤ seat then seat - cursor else seat + n - cursor

lemma ahead_lt (hcursor : cursor < n) (hseat : seat < n) : ahead n cursor seat < n := by
  unfold ahead
  split_ifs <;> omega

/-- **The cursor comes to no seat before the one that is chosen.** -/
lemma ahead_seatFrom?_le (hcursor : cursor < n) (hasc : seats.Pairwise (· < ·))
    (hlt : ∀ s ∈ seats, s < n) (h : seatFrom? cursor seats = some chosen) (hseat : seat ∈ seats) :
    ahead n cursor chosen ≤ ahead n cursor seat := by
  rw [seatFrom?, Option.or_eq_some_iff] at h
  rcases h with hfind | ⟨hnone, hhead⟩
  · -- the first seat at or after the cursor: all before it in the list are behind the cursor
    obtain ⟨hfrom, behind, others, rfl, hbehind⟩ := List.find?_eq_some_iff_append.mp hfind
    have hchosen : chosen < n := hlt chosen (by simp)
    have hfrom : cursor ≤ chosen := by simpa using hfrom
    have hle : cursor ≤ seat → chosen ≤ seat := by
      intro hcs
      rcases List.mem_append.mp hseat with hin | hin
      · exact absurd hcs (by simpa using hbehind seat hin)
      · rcases List.mem_cons.mp hin with rfl | hin
        · exact Nat.le_refl _
        · exact Nat.le_of_lt (List.rel_of_pairwise_cons (List.pairwise_append.mp hasc).2.1 hin)
    rw [ahead, if_pos hfrom, ahead]
    split_ifs with hcs
    · have := hle hcs
      omega
    · omega
  · -- all seats are behind the cursor: it starts over at the first one
    have hbehind : ∀ s ∈ seats, ¬ cursor ≤ s := by simpa using hnone
    obtain ⟨others, rfl⟩ := List.head?_eq_some_iff.mp hhead
    have hle : chosen ≤ seat := by
      rcases List.mem_cons.mp hseat with rfl | hin
      · exact Nat.le_refl _
      · exact Nat.le_of_lt (List.rel_of_pairwise_cons hasc hin)
    rw [ahead, if_neg (hbehind chosen List.mem_cons_self), ahead, if_neg (hbehind seat hseat)]
    omega

/-- Behind a seat that it came to earlier the cursor has fewer seats to pass. -/
lemma ahead_next_lt (hcursor : cursor < n) (hchosen : chosen < n) (hseat : seat < n)
    (hne : chosen ≠ seat) (hle : ahead n cursor chosen ≤ ahead n cursor seat) :
    ahead n ((chosen + 1) % n) seat < ahead n cursor seat := by
  have hnext := Seat.next_eq_ite hchosen
  rw [Seat.next] at hnext
  rw [hnext]
  unfold ahead at hle ⊢
  split_ifs at hle ⊢ <;> omega

/-- A seat that is among the seats each time is chosen by the time the cursor has come to it. -/
lemma mem_choices (hcursor : cursor < n) (hseat : seat < n)
    (hturns : ∀ turn ∈ turns, turn.1.seats = n ∧ turn.2.Pairwise (· < ·) ∧
      (∀ s ∈ turn.2, s < n) ∧ seat ∈ turn.2)
    (hlong : ahead n cursor seat < turns.length) :
    some seat ∈ (roundRobin cursor).choices turns := by
  induction turns generalizing cursor with
  | nil => exact absurd hlong (Nat.not_lt_zero _)
  | cons turn turns ih =>
    obtain ⟨sim, seats⟩ := turn
    obtain ⟨hsim, hasc, hlt, hmem⟩ := hturns _ List.mem_cons_self
    obtain ⟨chosen, hchosen⟩ := exists_seatFrom? (List.ne_nil_of_mem hmem) cursor
    have hpick : (roundRobin cursor).pick sim seats
        = (some chosen, roundRobin ((chosen + 1) % n)) := by
      rw [pick, hchosen, ← hsim]
    rw [choices, hpick]
    by_cases hne : chosen = seat
    · rw [hne]
      exact List.mem_cons_self
    · have hchosen_lt : chosen < n := hlt chosen (mem_of_seatFrom? hchosen)
      have hless := ahead_next_lt hcursor hchosen_lt hseat hne
        (ahead_seatFrom?_le hcursor hasc hlt hchosen hmem)
      rw [List.length_cons] at hlong
      exact List.mem_cons_of_mem _ (ih (Nat.mod_lt _ (by omega))
        (fun t ht => hturns t (List.mem_cons_of_mem _ ht)) (by omega))

/-- **Round robin serves every seat within a lap.**  After any choices about simulations of `n`
seats, whatever they were about, `n` more choices from lists that a ring of `n` seats may give, and
that all have a seat among them, choose this seat at least once.  Every choice is one of the seats
that were given, and there is none only if none were given. -/
theorem round_robin_serves_within_a_lap (hn : 2 ≤ n) (earlier lap : List (Simulation × List ℕ))
    (hsize : ∀ turn ∈ earlier ++ lap, turn.1.seats = n) (hlap : lap.length = n) (hseat : seat < n)
    (hlists : ∀ turn ∈ lap, turn.2.Pairwise (· < ·) ∧ (∀ s ∈ turn.2, s < n) ∧ seat ∈ turn.2) :
    some seat ∈ ((roundRobin 0).after earlier).choices lap ∧
    List.Forall₂ Answers (earlier ++ lap) ((roundRobin 0).choices (earlier ++ lap)) ∧
    ∀ sim : Simulation, sim.seats = n →
      sim.enabled.Pairwise (· < ·) ∧ ∀ s ∈ sim.enabled, s < n := by
  have hpos : 0 < n := by omega
  obtain ⟨cursor, hcursor, hafter⟩ :
      ∃ cursor < n, (roundRobin 0).after earlier = roundRobin cursor :=
    after_roundRobin hpos (fun turn h => hsize turn (List.mem_append_left _ h)) hpos
  refine ⟨?_, choices_roundRobin hpos hsize hpos, fun sim hsim => ?_⟩
  · rw [hafter]
    exact mem_choices hcursor hseat
      (fun turn h => ⟨hsize turn (List.mem_append_right _ h), hlists turn h⟩)
      (by rw [hlap]; exact ahead_lt hcursor hseat)
  · have hring : sim.ring.seats = n := hsim
    rw [← hring]
    exact sim.ring.ascending_enabled sim.state

/-- The slowest lap at a table of three: a seat that is no seat of the table has left the cursor
just behind the second seat, which waits for both others. -/
theorem round_robin_serves_at_three :
    2 ≤ 3 ∧
    let sim := Simulation.begin ⟨3, .reversedLast⟩ .null
    let earlier := [(sim, [0, 1, 2]), (sim, []), (sim, [7])]
    let lap := [(sim, [1, 2]), (sim, [0, 1]), (sim, [1])]
    (∀ turn ∈ earlier ++ lap, turn.1.seats = 3) ∧ lap.length = 3 ∧ 1 < 3 ∧
    (∀ turn ∈ lap, turn.2.Pairwise (· < ·) ∧ (∀ s ∈ turn.2, s < 3) ∧ 1 ∈ turn.2) ∧
    ((roundRobin 0).after earlier).choices lap = [some 2, some 0, some 1] ∧
      some 1 ∈ ((roundRobin 0).after earlier).choices lap := by
  refine ⟨by decide, ?_⟩
  intro sim earlier lap
  have hsize : ∀ turn ∈ earlier ++ lap, turn.1.seats = 3 := by decide
  have hlists : ∀ turn ∈ lap, turn.2.Pairwise (· < ·) ∧ (∀ s ∈ turn.2, s < 3) ∧ 1 ∈ turn.2 := by
    decide
  exact ⟨hsize, rfl, by decide, hlists, by decide,
    (round_robin_serves_within_a_lap (by decide) earlier lap hsize rfl (by decide) hlists).1⟩

end Scheduler

end DiningRing
