/-
# Choices of a scheduler

A script may name any seat, and it may end.  The other schedulers choose among the seats that they
are given: from a list that is not empty each of them chooses a seat of the list, and can do so
again (`Scheduler.exists_pick`).  This holds in whatever state they are: behind a cursor that is
past all seats they start over at the first, a number that is drawn stays below the length of the
list however its second word carries (`Random.Stream.below_lt`), and the comparison of actions keeps
one of the seats that it has looked at.
-/
import DiningRing.Scheduler
import Mathlib.Tactic.Lemma

namespace DiningRing

/-! ### Numbers that are drawn -/

namespace Random.Stream

variable {n w : Nat}

/-- The first digit of a fraction of `n` is below `n`. -/
lemma high_lt (hn : 0 < n) (hw : w < wordCount) : w * n / wordCount < n :=
  Nat.div_lt_of_lt_mul (Nat.mul_lt_mul_of_pos_right hw hn)

/-- Where the second word can carry, the first digit leaves room for it. -/
lemma high_add_one_lt (hw : w < wordCount)
    (hlow : (wordCount - n) % wordCount < w * n % wordCount) : w * n / wordCount + 1 < n := by
  have hle : w * n ≤ (wordCount - 1) * n := Nat.mul_le_mul_right n (by omega)
  simp only [wordCount] at hle hlow ⊢
  generalize w * n = product at hle hlow ⊢
  omega

/-- **A number that is drawn below `n` is below `n`.** -/
theorem below_lt (hn : 0 < n) (s : Stream) : (s.below n).1 < n := by
  have hw : s.next.1.toNat < wordCount := s.next.1.toNat_lt
  unfold below
  dsimp only
  split
  · rename_i hlow
    have hroom := high_add_one_lt hw hlow
    show _ + (if _ then 1 else 0) < n
    split <;> omega
  · exact high_lt hn hw

end Random.Stream

/-! ### Seats that are chosen -/

namespace Scheduler

variable {sim : Simulation} {s : Scheduler} {seats : List Nat} {cursor seat : Nat}

lemma mem_of_seatFrom? (h : seatFrom? cursor seats = some seat) : seat ∈ seats := by
  rw [seatFrom?, Option.or_eq_some_iff] at h
  rcases h with hfind | ⟨-, hhead⟩
  · exact List.mem_of_find?_eq_some hfind
  · exact List.mem_of_head? hhead

lemma exists_seatFrom? (hseats : seats ≠ []) (cursor : Nat) :
    ∃ seat, seatFrom? cursor seats = some seat := by
  cases seats with
  | nil => exact absurd rfl hseats
  | cons first rest =>
    rw [← Option.isSome_iff_exists, seatFrom?, Option.isSome_or, List.head?_cons,
      Option.isSome_some, Bool.or_true]

/-- Whichever of the seats goes before the others, it is one of them. -/
lemma mem_of_slowest? (h : slowest? sim seats = some seat) : seat ∈ seats := by
  cases seats with
  | nil => cases h
  | cons first rest =>
    obtain rfl := Option.some.inj h
    clear h
    induction rest generalizing first with
    | nil => exact List.mem_singleton_self _
    | cons second rest ih =>
      rw [List.foldl_cons]
      -- what is kept of the first two seats is compared with the rest
      rcases List.mem_cons.mp (ih (if goesBefore sim second first then second else first)) with
        hkept | hrest
      · rw [hkept]
        split <;> simp
      · exact List.mem_cons_of_mem _ (List.mem_cons_of_mem _ hrest)

/-- Schedulers that are asked for by name have no script. -/
lemma remaining?_build (k : Kind) (seed : Nat) : (k.build seed).remaining? = none := by
  cases k <;> rfl

/-- **A scheduler without a script chooses one of the seats that it is given**, and has no script
afterwards. -/
theorem exists_pick (hs : s.remaining? = none) (sim : Simulation) (hseats : seats ≠ []) :
    ∃ seat ∈ seats, ∃ next : Scheduler,
      s.pick sim seats = (some seat, next) ∧ next.remaining? = none := by
  cases s with
  | roundRobin cursor =>
    obtain ⟨seat, hseat⟩ := exists_seatFrom? hseats cursor
    refine ⟨seat, mem_of_seatFrom? hseat, .roundRobin ((seat + 1) % sim.seats), ?_, rfl⟩
    rw [pick, hseat]
  | random stream =>
    have hlt := stream.below_lt (List.length_pos_iff.mpr hseats)
    refine ⟨seats[(stream.below seats.length).1], List.getElem_mem hlt,
      .random (stream.below seats.length).2, ?_, rfl⟩
    cases seats with
    | nil => exact absurd rfl hseats
    | cons first rest =>
      rw [← List.getElem?_eq_getElem hlt]
      rfl
  | lockstep =>
    cases seats with
    | nil => exact absurd rfl hseats
    | cons first rest =>
      have hslowest : slowest? sim (first :: rest) = some _ := rfl
      exact ⟨_, mem_of_slowest? hslowest, .lockstep, rfl, rfl⟩
  | scripted script => cases hs

end Scheduler

end DiningRing
