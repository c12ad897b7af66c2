/-
# Going round the table on words

On 64-bit words a seat's neighbours are found by `wrap`, which takes two remainders that round
toward zero and adds the number of seats in between.  As long as twice the number of seats is a
signed word nothing overflows on the way, and `wrap` is the remainder that is never negative
(`wrap?_eq_some`).  So the neighbours and edges of a seat that are found on words are those that
the cyclic steps `Seat.previous` and `Seat.next` tell.

Main statement: `arithmetic_round_the_table`.
-/
import DiningRing.Proofs.Neighbours
import Mathlib.Data.Int.ModEq
import Mathlib.Logic.Equiv.Defs
import Mathlib.Tactic.Ring

namespace DiningRing

variable {n i : ℕ} {index : ℤ}

/-! ### Signed words -/

namespace Word

/-- The signed range: the numbers that a word can stand for. -/
def InRange (value : ℤ) : Prop := -(half : ℤ) ≤ value ∧ value < half

instance (value : ℤ) : Decidable (InRange value) := inferInstanceAs (Decidable (_ ∧ _))

/-- A number in the signed range is itself as a word. -/
lemma signed_eq_self {value : ℤ} (hlow : -(half : ℤ) ≤ value) (hhigh : value < half) :
    signed value = value := by
  simp only [half] at hlow hhigh
  refine Int.bmod_eq_of_le ?_ ?_
  · simp only [modulus]
    omega
  · simp only [modulus]
    omega

/-- A number that is neither negative nor too large is itself as a word. -/
lemma unsigned_eq_toNat {value : ℤ} (hlow : 0 ≤ value) (hhigh : value < modulus) :
    unsigned value = value.toNat := by
  rw [unsigned, Int.emod_eq_of_lt hlow hhigh]

end Word

/-! ### Remainders -/

lemma two_mul_le_half (hn : n ≤ 2 ^ 62) : 2 * n ≤ Word.half := by
  simp only [Word.half]
  omega

lemma signed_seats (hn : 2 * n ≤ Word.half) : Word.signed n = n := by
  refine Word.signed_eq_self ?_ ?_
  · simp only [Word.half]
    omega
  · simp only [Word.half] at hn ⊢
    omega

/-- **The sum in the middle of `wrap` does not overflow.** -/
lemma wrapSum_bounds (hpos : 0 < n) (hn : 2 * n ≤ Word.half) (index : ℤ) :
    wrapSum index n = index.tmod n + n ∧ 0 < wrapSum index n ∧ wrapSum index n < Word.half := by
  have hbound : (index.tmod n).natAbs < n := by
    rw [Int.natAbs_tmod]
    exact Nat.mod_lt _ (by simpa using hpos)
  have hsum : wrapSum index n = index.tmod n + n := by rw [wrapSum, signed_seats hn]
  rw [hsum]
  refine ⟨rfl, by omega, by omega⟩

/-- **What `wrap` computes**: the remainder that is never negative. -/
theorem wrap?_eq_some (hpos : 0 < n) (hn : 2 * n ≤ Word.half) (index : ℤ) :
    wrap? index n = some (index % n).toNat := by
  obtain ⟨hsum, hlow, hhigh⟩ := wrapSum_bounds hpos hn index
  have hdefined : ¬ (Word.signed n = 0 ∨ index = -(Word.half : ℤ) ∧ Word.signed n = -1) := by
    rw [signed_seats hn]
    omega
  have hsigned : Word.signed (wrapSum index n) = wrapSum index n :=
    Word.signed_eq_self (by omega) hhigh
  have hrem : (wrapSum index n).tmod n = index % n := by
    rw [Int.tmod_eq_emod_of_nonneg hlow.le, hsum, Int.add_emod_right, Int.tmod_def]
    exact Int.sub_mul_emod_self_left index n (index.tdiv n)
  have hnonneg : 0 ≤ index % n := Int.emod_nonneg _ (by omega)
  have hlt : index % n < n := Int.emod_lt_of_pos _ (by omega)
  rw [wrap?, if_neg hdefined, wrap, hsigned, signed_seats hn, hrem,
    Word.unsigned_eq_toNat hnonneg]
  simp only [Word.modulus, Word.half] at hn ⊢
  omega

/-! ### Neighbours -/

lemma Seat.offset_eq {step : ℤ} (hi : i < n) (hn : 2 * n ≤ Word.half) (hlow : -1 ≤ step)
    (hhigh : step ≤ 1) : Seat.offset i step = i + step := by
  have hseat : Word.signed i = i := signed_seats (by omega)
  rw [Seat.offset, hseat]
  refine Word.signed_eq_self ?_ ?_
  · simp only [Word.half]
    omega
  · simp only [Word.half] at hn ⊢
    omega

/-- **The edge beside a seat, on words.** -/
theorem leftEdge?_eq_some (hi : i < n) (hn : 2 * n ≤ Word.half) :
    leftEdge? i n = some (Seat.previous n i) := by
  rw [leftEdge?, Seat.offset_eq hi hn (by omega) (by omega), wrap?_eq_some (by omega) hn,
    Seat.previous]
  have hshift : ((i + -1 : ℤ) % n) = ((i + n - 1 : ℕ) : ℤ) % n := by
    rw [Int.natCast_sub (by omega), Int.natCast_add, ← Int.add_emod_right]
    congr 1
    push_cast
    ring
  rw [hshift, ← Int.natCast_emod, Int.toNat_natCast]

lemma rightEdge?_eq_some (hi : i < n) (hn : 2 * n ≤ Word.half) : rightEdge? i n = some i := by
  rw [rightEdge?, Seat.offset_eq hi hn (by omega) (by omega), wrap?_eq_some (by omega) hn,
    Int.add_zero, ← Int.natCast_emod, Int.toNat_natCast, Nat.mod_eq_of_lt hi]

/-- **The next seat, on words.** -/
theorem rightNeighbor?_eq_some (hi : i < n) (hn : 2 * n ≤ Word.half) :
    rightNeighbor? i n = some (Seat.next n i) := by
  rw [rightNeighbor?, Seat.offset_eq hi hn (by omega) (by omega), wrap?_eq_some (by omega) hn,
    Seat.next]
  have hstep : ((i + 1 : ℤ) % n) = ((i + 1 : ℕ) : ℤ) % n := by push_cast; rfl
  rw [hstep, ← Int.natCast_emod, Int.toNat_natCast]

/-- **The seat before, on words**: it is found as the edge that the two share. -/
lemma leftNeighbor?_eq_some (hi : i < n) (hn : 2 * n ≤ Word.half) :
    leftNeighbor? i n = some (Seat.previous n i) :=
  leftEdge?_eq_some hi hn

/-! ### The whole table -/

namespace Seat

/-- One step round a table of `n`, to the next seat; the way back leads to the seat before. -/
def round (n : ℕ) : Equiv.Perm (Fin n) where
  toFun i := ⟨next n i, next_lt i.isLt⟩
  invFun i := ⟨previous n i, previous_lt i.isLt⟩
  left_inv i := Fin.ext (previous_next i.isLt)
  right_inv i := Fin.ext (next_previous i.isLt)

lemma round_ne (hn : 2 ≤ n) (i : Fin n) : round n i ≠ i :=
  fun h => next_ne hn i.isLt (congrArg Fin.val h)

lemma round_symm_ne (hn : 2 ≤ n) (i : Fin n) : (round n).symm i ≠ i :=
  fun h => round_ne hn i ((Equiv.symm_apply_eq _).mp h).symm

end Seat

/-- No value on the way of `wrap` leaves the signed range. -/
lemma inRange_of_wrap (hpos : 0 < n) (hn : 2 * n ≤ Word.half) (index : ℤ) :
    Word.InRange (index.tmod (Word.signed n)) ∧ Word.InRange (wrapSum index n) ∧
      Word.InRange ((Word.signed (wrapSum index n)).tmod (Word.signed n)) := by
  obtain ⟨hsum, hlow, hhigh⟩ := wrapSum_bounds hpos hn index
  have hsigned : Word.signed (wrapSum index n) = wrapSum index n :=
    Word.signed_eq_self (by omega) hhigh
  rw [signed_seats hn, hsigned]
  have hrem : 0 ≤ (wrapSum index n).tmod n := Int.tmod_nonneg _ hlow.le
  have hless : (wrapSum index n).tmod n < n := Int.tmod_lt_of_pos _ (by omega)
  exact ⟨⟨by omega, by omega⟩, ⟨by omega, hhigh⟩, ⟨by omega, by omega⟩⟩

/-- The remainder that is never negative is the only seat that an index is congruent to. -/
lemma eq_toNat_emod_iff (hpos : 0 < n) (index : ℤ) (r : ℕ) :
    r = (index % n).toNat ↔ r < n ∧ (r : ℤ) ≡ index [ZMOD n] := by
  have hnonneg : 0 ≤ index % n := Int.emod_nonneg _ (by omega)
  have hlt : index % n < n := Int.emod_lt_of_pos _ (by omega)
  constructor
  · rintro rfl
    refine ⟨by omega, ?_⟩
    rw [Int.toNat_of_nonneg hnonneg]
    exact Int.mod_modEq _ _
  · rintro ⟨hr, hcongr⟩
    have hself : (r : ℤ) % n = r := Int.emod_eq_of_lt (by omega) (by omega)
    rw [Int.ModEq, hself] at hcongr
    omega

/-- **Arithmetic round the table.**  For every index, a signed word or not, and every number of
seats that can be counted twice over by signed words, no value on the way of `wrap` leaves the
signed range, and `wrap` finds the one seat that is congruent to the index.  So at a table of at
least two the neighbours that are found on words are the steps of a permutation of the seats,
forward and back, which leaves no seat where it is.  The edge on the right of a seat is the one on
the left of its right neighbour, and every edge is on the right of one seat, on the left of another
one, and beside no third. -/
theorem arithmetic_round_the_table :
    (∀ (seats : ℕ) (index : ℤ), 1 ≤ seats → seats ≤ 2 ^ 62 →
      Word.signed seats = seats ∧
      Word.InRange (index.tmod (Word.signed seats)) ∧
      Word.InRange (wrapSum index seats) ∧
      Word.InRange ((Word.signed (wrapSum index seats)).tmod (Word.signed seats)) ∧
      ∃ r, wrap? index seats = some r ∧ r < seats ∧ (r : ℤ) ≡ index [ZMOD seats] ∧
        ∀ s : ℕ, s < seats → (s : ℤ) ≡ index [ZMOD seats] → s = r) ∧
    ∀ n : ℕ, 2 ≤ n → n ≤ 2 ^ 62 → ∃ round : Equiv.Perm (Fin n),
      (∀ i : Fin n,
        rightNeighbor? i n = some (round i) ∧ leftNeighbor? i n = some (round.symm i) ∧
        round i ≠ i ∧ round.symm i ≠ i ∧
        ∃ e < n, rightEdge? i n = some e ∧ leftEdge? (round i) n = some e) ∧
      ∀ e < n, ∃ i j : Fin n, i ≠ j ∧ (∀ k : Fin n, rightEdge? k n = some e ↔ k = i) ∧
        ∀ k : Fin n, leftEdge? k n = some e ↔ k = j := by
  refine ⟨fun seats index hpos hseats => ?_, fun n hn hseats => ?_⟩
  · have hhalf := two_mul_le_half hseats
    obtain ⟨hrem, hsum, hagain⟩ := inRange_of_wrap hpos hhalf index
    obtain ⟨hlt, hcongr⟩ := (eq_toNat_emod_iff hpos index _).mp rfl
    exact ⟨signed_seats hhalf, hrem, hsum, hagain, _, wrap?_eq_some hpos hhalf index, hlt, hcongr,
      fun s hs h => (eq_toNat_emod_iff hpos index s).mpr ⟨hs, h⟩⟩
  · have hhalf := two_mul_le_half hseats
    have hright : ∀ k : Fin n, rightEdge? k n = some (k : ℕ) := fun k =>
      rightEdge?_eq_some k.isLt hhalf
    have hleft : ∀ k : Fin n, leftEdge? k n = some ((Seat.round n).symm k : ℕ) := fun k =>
      leftEdge?_eq_some k.isLt hhalf
    refine ⟨Seat.round n, fun i => ⟨rightNeighbor?_eq_some i.isLt hhalf,
      leftNeighbor?_eq_some i.isLt hhalf, Seat.round_ne hn i, Seat.round_symm_ne hn i,
      i, i.isLt, hright i, ?_⟩, fun e he => ⟨⟨e, he⟩, Seat.round n ⟨e, he⟩,
      (Seat.round_ne hn _).symm, fun k => ?_, fun k => ?_⟩⟩
    · rw [hleft, Equiv.symm_apply_apply]
    · rw [hright, Option.some.injEq, Fin.ext_iff]
    · rw [hleft, Option.some.injEq, ← Equiv.symm_apply_eq, Fin.ext_iff]

/-- At the largest table the sum in the middle of `wrap` can be the largest signed word.  At a table
of two each seat has the other one on both sides. -/
theorem arithmetic_round_the_table_at_its_limits :
    1 ≤ 2 ^ 62 ∧ 2 ^ 62 ≤ 2 ^ 62 ∧
    wrapSum (2 ^ 63 - 1) (2 ^ 62) = 2 ^ 63 - 1 ∧ Word.InRange (wrapSum (2 ^ 63 - 1) (2 ^ 62)) ∧
    wrap? (2 ^ 63 - 1) (2 ^ 62) = some (2 ^ 62 - 1) ∧
    2 ≤ 2 ∧ 2 ≤ 2 ^ 62 ∧ ∃ round : Equiv.Perm (Fin 2), round 0 = 1 ∧ round.symm 0 = 1 ∧
      rightNeighbor? 0 2 = some 1 ∧ leftNeighbor? 0 2 = some 1 ∧
      rightEdge? 0 2 = leftEdge? 1 2 := by
  obtain ⟨-, -, hsum, -, r, hr, -, -, honly⟩ :=
    arithmetic_round_the_table.1 (2 ^ 62) (2 ^ 63 - 1) (by decide) (by decide)
  obtain ⟨round, hround, -⟩ := arithmetic_round_the_table.2 2 (by decide) (by decide)
  obtain ⟨hright, hleft, hmoves, hback, e, -, hedge, hedge'⟩ := hround 0
  have hother : ∀ i : Fin 2, i ≠ 0 → i = 1 := by decide
  have hone : r = 2 ^ 62 - 1 := (honly (2 ^ 62 - 1) (by decide) (by decide)).symm
  rw [hother _ hmoves] at hright hedge'
  rw [hother _ hback] at hleft
  exact ⟨by decide, by decide, by decide, hsum, hone ▸ hr, by decide, by decide, round,
    hother _ hmoves, hother _ hback, hright, hleft, hedge.trans hedge'.symm⟩

/-- With one seat more the sum does leave the signed range. -/
example : ¬ Word.InRange (wrapSum (2 ^ 62) (2 ^ 62 + 1)) := by decide

end DiningRing
