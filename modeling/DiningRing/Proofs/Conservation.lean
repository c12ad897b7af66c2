/-
# Conservation of forks

No action makes or loses a fork: every step leaves the number of forks on every edge as it
was.  Since each hand and each slot belongs to exactly one edge, the edges together carry all
the forks of the table, which settles when a state passes the check: one fork on every edge
and both forks with everyone who eats are all that has to be looked at.

Main statements: `Ring.forksOn_perform`, `RingState.inHand_add_inFlight` and
`Ring.check_eq_ok_iff`.
-/
import DiningRing.Proofs.Step
import Mathlib.Algebra.BigOperators.Intervals

open Finset (range)

namespace DiningRing

namespace RingState

variable {n i e : ℕ} {s : RingState}

/-- The forks on an edge of a table of `n`: in the two hands beside it and in its slots. -/
def forksOn (n : ℕ) (s : RingState) (e : ℕ) : ℕ :=
  (s.hand e .right).toNat + (s.hand (Seat.next n e) .left).toNat
    + (s.slot (.towardRight e)).toNat + (s.slot (.towardLeft e)).toNat

/-- The forks on the edge beside a seat, as they lie from there: in its hand, in the hand
across the edge, on their way in and on their way out. -/
lemma forksOn_edge (s : RingState) (hi : i < n) (side : Side) :
    s.forksOn n (Seat.edge n i side) = (s.hand i side).toNat
      + (s.hand (Seat.neighbor n i side) side.opposite).toNat
      + (s.slot (Slot.inbound n i side)).toNat + (s.slot (Slot.outbound n i side)).toNat := by
  cases side with
  | left =>
    simp only [forksOn, Seat.edge, Seat.next_previous hi, Seat.neighbor, Side.opposite,
      Slot.inbound, Slot.outbound]
    omega
  | right =>
    simp only [forksOn, Seat.edge, Seat.neighbor, Side.opposite, Slot.inbound, Slot.outbound]
    omega

/-- States that differ on one side of a seat at most have the same forks on all edges but the
one there. -/
lemma forksOn_congr {t : RingState} {side : Side} (he : e < n) (hi : i < n)
    (hne : e ≠ Seat.edge n i side)
    (hhand : ∀ j other, ¬ (j = i ∧ other = side) → t.hand j other = s.hand j other)
    (hslot : ∀ slot, slot ≠ Slot.inbound n i side → slot ≠ Slot.outbound n i side →
      t.slot slot = s.slot slot) : t.forksOn n e = s.forksOn n e := by
  have hnext := Seat.next_eq_iff he hi
  cases side with
  | left =>
    simp only [Seat.edge] at hne
    rw [forksOn, hhand e .right (by simp), hhand _ .left (by simp [hnext, hne]),
      hslot _ (by simp [Slot.inbound, hne]) (by simp [Slot.outbound]),
      hslot _ (by simp [Slot.inbound]) (by simp [Slot.outbound, hne]), forksOn]
  | right =>
    simp only [Seat.edge] at hne
    rw [forksOn, hhand e .right (by simp [hne]), hhand _ .left (by simp),
      hslot _ (by simp [Slot.inbound]) (by simp [Slot.outbound, hne]),
      hslot _ (by simp [Slot.inbound, hne]) (by simp [Slot.outbound]), forksOn]

/-- The forks on an edge when a diner has been written. -/
lemma forksOn_setDiner {d : Diner} (hs : s.Fits n) (hi : i < n) (e : ℕ) :
    (s.setDiner i d).forksOn n e = (if e = i then d.hands.holds .right else s.hand e .right).toNat
      + (if Seat.next n e = i then d.hands.holds .left else s.hand (Seat.next n e) .left).toNat
      + (s.slot (.towardRight e)).toNat + (s.slot (.towardLeft e)).toNat := by
  rw [forksOn, hand_setDiner hs hi, hand_setDiner hs hi, slot_setDiner, slot_setDiner]

/-- A fork goes from a slot beside a seat into the hand there, or from the hand into the slot. -/
lemma forksOn_transfer (held : Bool) {side : Side} {a : Slot} {d : Diner} (hs : s.Fits n)
    (hi : i < n) (he : e < n) (ha : a = Slot.inbound n i side ∨ a = Slot.outbound n i side)
    (hhand : s.hand i side = !held) (hslot : s.slot a = held)
    (hd : d.hands = (s.diner i).hands.set side held) :
    ((s.setSlot a (!held)).setDiner i d).forksOn n e = s.forksOn n e := by
  have hhands : ∀ j other, ((s.setSlot a (!held)).setDiner i d).hand j other
      = if j = i ∧ other = side then held else s.hand j other := by
    intro j other
    rw [hand_setDiner hs.setSlot hi, hd, Hands.holds_set]
    by_cases hji : j = i
    · by_cases hother : other = side
      · rw [if_pos hji, if_pos hother.symm, if_pos ⟨hji, hother⟩]
      · rw [if_pos hji, if_neg (Ne.symm hother), if_neg (fun h => hother h.2), hji, hand]
    · rw [if_neg hji, if_neg (fun h => hji h.1), hand, diner_setSlot, hand]
  have hslots : ∀ b, ((s.setSlot a (!held)).setDiner i d).slot b
      = if b = a then !held else s.slot b := by
    intro b
    rw [slot_setDiner]
    split_ifs with hba
    · subst hba
      refine slot_setSlot_self ?_
      rcases ha with rfl | rfl
      · exact hs.hasInbound hi side
      · exact hs.hasOutbound hi side
    · exact slot_setSlot_ne hba
  by_cases heq : e = Seat.edge n i side
  · have hacross : ¬ (Seat.neighbor n i side = i ∧ side.opposite = side) := fun h =>
      side.opposite_ne h.2
    rw [heq, forksOn_edge _ hi, forksOn_edge _ hi, hhands, if_pos ⟨rfl, rfl⟩, hhands,
      if_neg hacross, hslots, hslots, hhand]
    -- the fork is counted in the hand instead of the slot, or the other way round
    rcases ha with rfl | rfl
    · rw [if_pos rfl, if_neg (Slot.inbound_ne_outbound n i side).symm, hslot]
      omega
    · rw [if_neg (Slot.inbound_ne_outbound n i side), if_pos rfl, hslot]
      omega
  · refine forksOn_congr he hi heq (fun j other hne => ?_) fun slot hin hout => ?_
    · rw [hhands, if_neg hne]
    · rw [hslots, if_neg]
      rintro rfl
      rcases ha with ha | ha
      · exact hin ha
      · exact hout ha

/-! ### All forks of the table -/

lemma foldl_add_eq_sum {α : Type*} (d : α) (f : α → ℕ) (l : List α) (m : ℕ) :
    l.foldl (fun k x => k + f x) m = m + ∑ i ∈ range l.length, f (l.getD i d) := by
  induction l generalizing m with
  | nil => simp
  | cons x l ih =>
    rw [List.foldl_cons, ih, List.length_cons, Finset.sum_range_succ']
    simp only [List.getD_cons_succ, List.getD_cons_zero]
    omega

lemma array_foldl_add_eq_sum {α : Type*} (d : α) (f : α → ℕ) (xs : Array α) (m : ℕ) :
    xs.foldl (fun k x => k + f x) m = m + ∑ i ∈ range xs.size, f (xs.getD i d) := by
  rw [← Array.foldl_toList, foldl_add_eq_sum d, Array.length_toList]
  simp only [List.getD_eq_getElem?_getD, Array.getD_eq_getD_getElem?, Array.getElem?_toList]

lemma inHand_eq_sum (h : s.Fits n) : s.inHand =
    ∑ i ∈ range n, ((s.hand i .left).toNat + (s.hand i .right).toNat) := by
  rw [inHand, array_foldl_add_eq_sum .fresh, Nat.zero_add, h.diners]
  rfl

lemma inFlight_eq_sum (h : s.Fits n) : s.inFlight =
    ∑ e ∈ range n, ((s.slot (.towardRight e)).toNat + (s.slot (.towardLeft e)).toNat) := by
  rw [inFlight, array_foldl_add_eq_sum false, array_foldl_add_eq_sum false, Nat.zero_add,
    h.towardRight, h.towardLeft, Finset.sum_add_distrib]
  rfl

/-- Summing over the next seats is summing over all seats. -/
lemma sum_next (f : ℕ → ℕ) : ∑ e ∈ range n, f (Seat.next n e) = ∑ i ∈ range n, f i := by
  refine Finset.sum_nbij' (Seat.next n) (Seat.previous n) ?_ ?_ ?_ ?_ (fun _ _ => rfl)
  · intro e he
    exact Finset.mem_range.mpr (Seat.next_lt (Finset.mem_range.mp he))
  · intro i hi
    exact Finset.mem_range.mpr (Seat.previous_lt (Finset.mem_range.mp hi))
  · intro e he
    exact Seat.previous_next (Finset.mem_range.mp he)
  · intro i hi
    exact Seat.next_previous (Finset.mem_range.mp hi)

/-- **The edges carry all forks of the table**: each hand belongs to one edge. -/
theorem inHand_add_inFlight (h : s.Fits n) :
    s.inHand + s.inFlight = ∑ e ∈ range n, s.forksOn n e := by
  have hleft := sum_next (n := n) fun i => (s.hand i .left).toNat
  rw [inHand_eq_sum h, inFlight_eq_sum h]
  simp only [forksOn, Finset.sum_add_distrib] at hleft ⊢
  omega

/-- One fork on each edge makes as many forks as there are seats. -/
lemma inHand_add_inFlight_of_one (h : s.Fits n) (hone : ∀ e < n, s.forksOn n e = 1) :
    s.inHand + s.inFlight = n := by
  rw [inHand_add_inFlight h, Finset.sum_const_nat fun e he => hone e (Finset.mem_range.mp he),
    Finset.card_range, Nat.mul_one]

/-- Of two neighbours with one fork between them, one lacks a fork. -/
lemma lacks_of_forksOn_eq_one (hone : s.forksOn n e = 1) :
    (s.diner e).hands.both = false ∨ (s.diner (Seat.next n e)).hands.both = false := by
  by_contra h
  simp only [not_or, Bool.not_eq_false, Hands.both, Bool.and_eq_true] at h
  obtain ⟨⟨-, hright⟩, hleft, -⟩ := h
  have hright : s.hand e .right = true := hright
  have hleft : s.hand (Seat.next n e) .left = true := hleft
  simp only [forksOn, hright, hleft, Bool.toNat_true] at hone
  omega

/-- Where everyone who eats holds both forks, neighbours with one fork between them do not eat
together. -/
lemma not_eating_together (he : e < n) (hone : s.forksOn n e = 1)
    (hboth : ∀ i < n, (s.diner i).phase = .eating → (s.diner i).hands.both = true) :
    ¬ ((s.diner e).phase = .eating ∧ (s.diner (Seat.next n e)).phase = .eating) := by
  rintro ⟨heats, hnext⟩
  rcases lacks_of_forksOn_eq_one hone with hlacks | hlacks
  · rw [hboth e he heats] at hlacks
    cases hlacks
  · rw [hboth _ (Seat.next_lt he) hnext] at hlacks
    cases hlacks

end RingState

namespace Ring

variable {r : Ring} {s : RingState} {i e : ℕ} {a : Action} {side : Side}

lemma forksOn_eq (r : Ring) (s : RingState) (e : ℕ) : r.forksOn s e = s.forksOn r.seats e :=
  rfl

/-! ### Steps -/

lemma forksOn_perform_of_not_transfers (hs : s.Fits r.seats) (hi : i < r.seats)
    (ha : a.transfers = false) (e : ℕ) :
    (r.perform s i a).forksOn r.seats e = s.forksOn r.seats e := by
  simp only [RingState.forksOn, slot_perform_of_not_transfers ha,
    hand_perform_of_not_transfers hs hi ha]

/-- **No action makes or loses a fork**, on any edge and in any state. -/
theorem forksOn_perform (hs : s.Fits r.seats) (hi : i < r.seats) (he : e < r.seats)
    (h : r.Ready s i a) : (r.perform s i a).forksOn r.seats e = s.forksOn r.seats e := by
  cases h with
  | startWaiting | eat | finish => exact forksOn_perform_of_not_transfers hs hi rfl e
  | take side _ hm hslot =>
    exact RingState.forksOn_transfer true hs hi he (.inl rfl)
      (holds_of_missing?_eq_some hm) hslot rfl
  | give side _ hr hslot =>
    exact RingState.forksOn_transfer false hs hi he (.inr rfl)
      (holds_of_returning?_eq_some hr) hslot rfl

/-- A sum over all diners changes with a step by what the diner who moves adds to it. -/
lemma sum_perform (f : Diner → ℕ) (hs : s.Fits r.seats) (hi : i < r.seats) :
    ∑ j ∈ range r.seats, f ((r.perform s i a).diner j) + f (s.diner i)
      = ∑ j ∈ range r.seats, f (s.diner j) + f ((s.diner i).after a) := by
  have hmem : i ∈ range r.seats := Finset.mem_range.mpr hi
  have hrest : ∑ j ∈ (range r.seats).erase i, f ((r.perform s i a).diner j)
      = ∑ j ∈ (range r.seats).erase i, f (s.diner j) :=
    Finset.sum_congr rfl fun j hj => by rw [diner_perform_ne (Finset.ne_of_mem_erase hj)]
  rw [← Finset.add_sum_erase _ _ hmem, ← Finset.add_sum_erase _ (fun j => f (s.diner j)) hmem,
    hrest, diner_perform_self hs hi]
  omega

/-! ### The check -/

lemma covers_of_fits (hs : s.Fits r.seats) (he : e < r.seats) : r.covers s e = true := by
  simp [covers, RingState.hasSlot, hs.diners, hs.towardRight, hs.towardLeft, he,
    Seat.next_lt he]

lemma flawAt?_eq_none_iff (hs : s.Fits r.seats) (he : e < r.seats) : r.flawAt? s e = none ↔
    s.forksOn r.seats e = 1 ∧ ¬ ((s.diner e).phase = .eating
      ∧ (s.diner (Seat.next r.seats e)).phase = .eating) := by
  unfold flawAt?
  simp only [covers_of_fits hs he, forksOn_eq]
  split_ifs <;> simp_all

lemma findIdx?_eatsEmptyHanded_eq_none_iff (hs : s.Fits r.seats) :
    s.diners.findIdx? eatsEmptyHanded = none ↔
      ∀ i < r.seats, (s.diner i).phase = .eating → (s.diner i).hands.both = true := by
  rw [Array.findIdx?_eq_none_iff]
  constructor
  · intro h i hi heat
    have hmem : s.diner i ∈ s.diners := by
      have hlt : i < s.diners.size := by rw [hs.diners]; exact hi
      simp [RingState.diner, Array.getD_eq_getD_getElem?, hlt]
    have := h _ hmem
    simpa [eatsEmptyHanded, heat] using this
  · intro h d hd
    obtain ⟨i, hi, rfl⟩ := Array.getElem_of_mem hd
    have := h i (by rw [← hs.diners]; exact hi)
    simpa [RingState.diner, Array.getD_eq_getD_getElem?, hi, eatsEmptyHanded] using this

/-- **When a state passes the check**: every edge carries one fork and everyone who eats
holds both.  That no two neighbours eat together and that there are as many forks as seats
follows. -/
theorem check_eq_ok_iff (hs : s.Fits r.seats) : r.check s = .ok () ↔
    (∀ e < r.seats, s.forksOn r.seats e = 1) ∧
      ∀ i < r.seats, (s.diner i).phase = .eating → (s.diner i).hands.both = true := by
  have hedges : (List.range r.seats).findSome? (r.flawAt? s) = none ↔
      ∀ e < r.seats, r.flawAt? s e = none := by
    simp [List.findSome?_eq_none_iff]
  constructor
  · intro h
    unfold check flaw? at h
    split at h
    · simp at h
    · rename_i hflaw
      split at hflaw
      · simp at hflaw
      · rename_i hfind
        split at hflaw
        · simp at hflaw
        · rename_i hidx
          exact ⟨fun e he => ((flawAt?_eq_none_iff hs he).mp (hedges.mp hfind e he)).1,
            (findIdx?_eatsEmptyHanded_eq_none_iff hs).mp hidx⟩
  · rintro ⟨hone, hboth⟩
    have hfind : (List.range r.seats).findSome? (r.flawAt? s) = none :=
      hedges.mpr fun e he => (flawAt?_eq_none_iff hs he).mpr
        ⟨hone e he, RingState.not_eating_together he (hone e he) hboth⟩
    have htotal := RingState.inHand_add_inFlight_of_one hs hone
    simp only [check, flaw?, hfind, (findIdx?_eatsEmptyHanded_eq_none_iff hs).mpr hboth, htotal,
      if_true]

end Ring

end DiningRing
